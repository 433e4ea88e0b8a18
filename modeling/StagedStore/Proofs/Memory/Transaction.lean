import StagedStore.Proofs.Memory.Session
import StagedStore.Proofs.Pool.Transaction

/-!
# Transactions of a database in memory

What a transaction that succeeds has done: its action has run on the tables as they were, and the
tables are as the action left them.
-/

namespace StagedStore

open Memory

variable {α : Type}

namespace Pool

variable {a : α} {m m' : MemoryDatabase}

theorem settle_ok {b : α} (h : settle a m = (.ok b, m')) : b = a ∧ m'.catalog = m.catalog := by
  unfold settle at h
  have hrun : (Database.commit : Step MemoryDatabase Unit).run m = m.perform .commit := rfl
  rw [hrun, MemoryDatabase.perform] at h
  split at h
  · rename_i hcommit
    obtain ⟨hb, rfl⟩ := Prod.mk.inj h
    refine ⟨(Except.ok.inj hb).symm, ?_⟩
    split at hcommit
    · simp at hcommit
    · split at hcommit
      · exact (Prod.mk.inj hcommit).2 ▸ rfl
      · simp at hcommit
  · split at h <;> simp at h

theorem transact_ok {limit : Option Nat} {f : Action (Session MemoryDatabase) α}
    (h : (transact limit f m).1 = .ok a) :
    ∃ σ, outcome f (Session.start { m with saved := some m.catalog } limit) = (.ok a, σ) ∧
      (transact limit f m).2.1.catalog = σ.database.catalog := by
  rw [transact_eq] at h ⊢
  have hbegin : outcome Database.begin m = m.perform .begin := rfl
  rw [hbegin, MemoryDatabase.perform] at h ⊢
  cases hopen : m.inTransaction with
  | true => simp [hopen] at h
  | false =>
      simp only [hopen, Bool.false_eq_true, if_false] at h ⊢
      rcases hrun : outcome f (Session.start { m with saved := some m.catalog } limit) with
        ⟨e | b, σ⟩
      all_goals simp only [hrun] at h ⊢
      · simp at h
      · obtain ⟨rfl, hcatalog⟩ := settle_ok (Prod.ext h rfl)
        exact ⟨σ, rfl, hcatalog⟩

theorem transaction_ok {f : Action (Session MemoryDatabase) α} {p p' : Pool MemoryDatabase}
    (h : outcome (transaction f) p = (.ok a, p')) :
    ∃ m σ m', p.database = some m ∧
      outcome f (Session.start { m with saved := some m.catalog } p.logLimit) = (.ok a, σ) ∧
      p'.database = some m' ∧ m'.catalog = σ.database.catalog := by
  rw [outcome_transaction] at h
  cases hm : p.database with
  | none => simp [hm] at h
  | some m =>
      simp only [hm] at h
      obtain ⟨hr, rfl⟩ := Prod.mk.inj h
      obtain ⟨σ, hrun, hcatalog⟩ := transact_ok hr
      exact ⟨m, σ, _, rfl, hrun, rfl, hcatalog⟩

theorem withLease_ok {f : Action (Session MemoryDatabase) α} {p p' : Pool MemoryDatabase}
    (h : outcome (withLease f) p = (.ok a, p')) :
    ∃ m σ m', p.database = some m ∧
      outcome f (Session.start { m with saved := some m.catalog } p.logLimit) = (.ok a, σ) ∧
      p'.database = some m' ∧ m'.catalog = σ.database.catalog := by
  rw [outcome_withLease] at h
  split at h
  · simp at h
  · obtain ⟨hr, rfl⟩ := Prod.mk.inj h
    obtain ⟨m, σ, m', hm, hf, hm', hcatalog⟩ :=
      transaction_ok (Prod.ext hr rfl : outcome (transaction f) _ = (.ok a, _))
    exact ⟨m, σ, m', hm, hf, hm', hcatalog⟩

end Pool

end StagedStore
