import StagedStore.Proofs.Ordinary
import StagedStore.Proofs.Pool.Transaction

/-!
# Recovery

What a store relies on when a transaction is given up.  A `Recovery` of a database says which tables
it holds and which tables it would roll back to; its laws are those of a database that rolls back as
it documents.  `transact_error` is the result: a transaction that ends in an error leaves the tables
as they were before it began.
-/

namespace StagedStore

/-- A view of the tables of a database and of the tables it would roll back to. -/
structure Snapshots (δ τ : Type) where
  /-- Every table, permanent and temporary, with all it holds. -/
  tables : δ → τ
  /-- The tables as they were when the open transaction began. -/
  saved : δ → Option τ

namespace Snapshots

variable {δ τ : Type} (S : Snapshots δ τ)

/-- Giving up now leaves the tables `T`: a transaction that began with them is open, or it was
ended by the database itself, which has put them back. -/
def Undoable (T : τ) (d : δ) : Prop :=
  S.saved d = some T ∨ (S.saved d = none ∧ S.tables d = T)

/-- The transaction that began with the tables `T` is still open after a success and can be given
up after a failure. -/
def Kept {ε α : Type} (T : τ) : Except ε α × δ → Prop
  | (.ok _, d) => S.saved d = some T
  | (.error _, d) => S.Undoable T d

end Snapshots

/-- The laws of a database that restores all tables when it rolls back. -/
structure Recovery (δ τ : Type) [Database δ] extends Snapshots δ τ where
  begin_ok : ∀ {d d' : δ}, outcome Database.begin d = (.ok (), d') → saved d' = some (tables d)
  begin_error : ∀ {d d' : δ} {f : Fault},
    outcome Database.begin d = (.error f, d') → tables d' = tables d
  script_kept : ∀ {s : Sql.Script} {d : δ} {T : τ}, s.isOrdinary = true → saved d = some T →
    toSnapshots.Kept T (outcome (Database.script s) d)
  run_kept : ∀ {s : Sql.Statement} {params : Sql.Params} {d : δ} {T : τ},
    s.isControl = false → saved d = some T → toSnapshots.Kept T (outcome (Database.run s params) d)
  query_kept : ∀ {s : Sql.Statement} {params : Sql.Params} {d : δ} {T : τ},
    s.isControl = false → saved d = some T →
      toSnapshots.Kept T (outcome (Database.query s params) d)
  commit_error : ∀ {d d' : δ} {f : Fault} {T : τ}, saved d = some T →
    outcome Database.commit d = (.error f, d') → toSnapshots.Undoable T d'
  inTransaction_eq : ∀ d : δ, Database.inTransaction d = (saved d).isSome
  rollback_restores : ∀ {d : δ} {T : τ}, saved d = some T →
    tables (outcome Database.rollback d).2 = T
  rollback_idle : ∀ {d : δ}, saved d = none → tables (outcome Database.rollback d).2 = tables d

namespace Recovery

variable {δ τ α β : Type} [Database δ] (R : Recovery δ τ)

theorem tables_rollback {T : τ} {d : δ} (h : R.Undoable T d) :
    R.tables (outcome Database.rollback d).2 = T := by
  rcases h with h | ⟨h, ht⟩
  · exact R.rollback_restores h
  · rw [R.rollback_idle h, ht]

/-- An action that leaves the transaction around it open, or at least able to be given up. -/
def Keeps (f : Action (Session δ) α) : Prop :=
  ∀ (T : τ) (s : Session δ), R.saved s.database = some T →
    R.Kept T ((outcome f s).1, (outcome f s).2.database)

variable {R}

/-! ## Actions that keep a transaction -/

theorem keeps_of_database_eq {f : Action (Session δ) α}
    (h : ∀ s, (outcome f s).2.database = s.database) : R.Keeps f := by
  intro T s hs
  rw [h s]
  rcases (outcome f s).1 with e | a
  · exact .inl hs
  · exact hs

theorem Keeps.bind {f : Action (Session δ) α} {g : α → Action (Session δ) β} (hf : R.Keeps f)
    (hg : ∀ a, R.Keeps (g a)) : R.Keeps (f >>= g) := by
  intro T s hs
  have h := hf T s hs
  rw [Action.outcome_bind]
  rcases hrun : outcome f s with ⟨e | a, s'⟩
  · rw [hrun] at h
    exact h
  · rw [hrun] at h
    exact hg a T s' h

/-- A step of the database under a log keeps a transaction as the step does. -/
theorem keeps_observe {sql : String} {step : Step δ α}
    (h : ∀ {d : δ} {T : τ}, R.saved d = some T → R.Kept T (outcome step d)) :
    R.Keeps (Session.observe sql step) := by
  intro T s hs
  have hk := h hs
  rcases hrun : outcome step s.database with ⟨f | a, d⟩
  all_goals
    rw [hrun] at hk
    have hrun' : step.run s.database = _ := hrun
    simp only [outcome, ExceptT.run, Session.observe, Session.note] at hrun' ⊢
    rw [hrun']
    exact hk

theorem keeps_setChanges (n : Nat) : R.Keeps (Session.setChanges n) :=
  keeps_of_database_eq fun _ => rfl

/-- An ordinary action keeps the transaction around it. -/
theorem keeps_of_ordinary {f : Action (Session δ) α} (h : Ordinary f) : R.Keeps f := by
  induction h with
  | ofExcept r => exact keeps_of_database_eq fun _ => rfl
  | report e => exact keeps_of_database_eq fun _ => rfl
  | lastChanges => exact keeps_of_database_eq fun _ => rfl
  | exec h =>
      refine (keeps_observe fun hd => R.script_kept h hd).bind fun _ => ?_
      exact (keeps_of_database_eq fun _ => rfl : R.Keeps get).bind fun s => keeps_setChanges _
  | run h params =>
      refine (keeps_observe fun hd => R.run_kept h hd).bind fun n => ?_
      exact (keeps_setChanges n).bind fun _ => keeps_of_database_eq fun _ => rfl
  | queryAll h params => exact keeps_observe fun hd => R.query_kept h hd
  | bind _ _ ihf ihg => exact ihf.bind ihg

/-! ## Transactions -/

theorem tables_undo {T : τ} {d : δ} (h : R.Undoable T d) (e : Error) :
    R.tables (Pool.undo e d).2 = T := by
  have hr := R.tables_rollback h
  unfold Pool.undo
  simp only [Action.run_eq]
  rcases hroll : outcome Database.rollback d with ⟨_ | ⟨⟩, d₁⟩
  all_goals
    rw [hroll] at hr
    exact hr

theorem tables_settle_error {T : τ} {d d' : δ} {a : α} {e : Error} (h : R.saved d = some T)
    (hsettle : Pool.settle a d = (.error e, d')) : R.tables d' = T := by
  unfold Pool.settle at hsettle
  simp only [Action.run_eq] at hsettle
  rcases hc : outcome Database.commit d with ⟨c | ⟨⟩, d₁⟩
  all_goals simp only [hc] at hsettle
  · have hu := R.commit_error h hc
    split at hsettle
    · obtain ⟨-, rfl⟩ := Prod.mk.inj hsettle
      exact R.tables_rollback hu
    · rename_i hopen
      obtain ⟨-, rfl⟩ := Prod.mk.inj hsettle
      rcases hu with hu | hu
      · rw [R.inTransaction_eq, hu] at hopen
        exact absurd rfl hopen
      · exact hu.2
  · simp at hsettle

/-- A transaction that ends in an error leaves the tables as they were before it began. -/
theorem tables_of_transact_error {f : Action (Session δ) α} (hf : R.Keeps f)
    {limit : Option Nat} {d : δ} {e : Error} (h : (Pool.transact limit f d).1 = .error e) :
    R.tables (Pool.transact limit f d).2.1 = R.tables d := by
  rw [Pool.transact_eq] at h ⊢
  rcases hb : outcome Database.begin d with ⟨b | ⟨⟩, d₁⟩
  all_goals simp only [hb] at h ⊢
  · exact R.begin_error hb
  · have hk := hf (R.tables d) (Session.start d₁ limit) (R.begin_ok hb)
    rcases hrun : outcome f (Session.start d₁ limit) with ⟨e₁ | a, s⟩
    all_goals
      rw [hrun] at hk
      simp only [hrun] at h ⊢
    · exact tables_undo hk e₁
    · exact tables_settle_error hk (Prod.ext h rfl)

end Recovery

end StagedStore
