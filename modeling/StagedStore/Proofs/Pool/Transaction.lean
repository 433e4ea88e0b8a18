import StagedStore.Pool
import StagedStore.Proofs.Action

/-!
# Runs of transactions

What a transaction and a lease around it come to, in terms of the run of the action inside.
-/

namespace StagedStore.Pool

variable {δ α : Type}

theorem acquire_eq (p : Pool δ) : outcome acquire p =
    if p.isClosed then (.error .poolClosed, p)
    else (.ok ⟨false⟩, { p with active := p.active + 1 }.note (.acquired (p.active + 1))) := rfl

variable [Database δ]

theorem transact_eq (limit : Option Nat) (f : Action (Session δ) α) (d : δ) :
    transact limit f d =
      match outcome Database.begin d with
      | (.error e, d) => (.error e.toError, d, [])
      | (.ok (), d) =>
        match outcome f (Session.start d limit) with
        | (.ok a, s) => ((settle a s.database).1, (settle a s.database).2, s.events)
        | (.error e, s) => (.error (undo e s.database).1, (undo e s.database).2, s.events) := by
  unfold transact
  simp only [Action.run_eq]
  rcases outcome Database.begin d with ⟨_ | ⟨⟩, d⟩
  · rfl
  · dsimp only
    rcases outcome f (Session.start d limit) with ⟨_ | _, s⟩ <;> rfl

theorem outcome_transaction (f : Action (Session δ) α) (p : Pool δ) :
    outcome (transaction f) p =
      match p.database with
      | none => (.error .poolClosed, p)
      | some d => ((transact p.logLimit f d).1, { p with
          database := some (transact p.logLimit f d).2.1
          events := (transact p.logLimit f d).2.2 ++ p.events }) := by
  unfold outcome ExceptT.run transaction
  cases p.database <;> rfl

theorem outcome_withLease (f : Action (Session δ) α) (p : Pool δ) :
    outcome (withLease f) p =
      if p.isClosed then (.error .poolClosed, p)
      else
        let run := outcome (transaction f)
          ({ p with active := p.active + 1 }.note (.acquired (p.active + 1)))
        (run.1, (release ⟨false⟩ run.2).2) := by
  have hacquire : acquire.run p = outcome acquire p := rfl
  unfold outcome ExceptT.run withLease
  rw [hacquire, acquire_eq]
  cases p.isClosed <;> rfl

end StagedStore.Pool
