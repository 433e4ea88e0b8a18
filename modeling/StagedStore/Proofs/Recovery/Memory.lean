import StagedStore.Memory.Basic
import StagedStore.Proofs.Memory.Prepared
import StagedStore.Proofs.Recovery.Basic
import StagedStore.Proofs.Sql.FirstWord

/-!
# Recovery of the database in memory

A database in memory restores the tables it saved when it rolls back.  Preparing a statement that is
not about transactions gives nothing that is, and what is prepared keeps the saved tables; only a
statement that runs out of keys may end the transaction, and it puts the saved tables back itself.
-/

namespace StagedStore

open Memory

namespace Memory

/-- Whether a prepared statement begins or ends a transaction. -/
def Prepared.isControl : Prepared → Bool
  | .begin | .commit | .rollback => true
  | _ => false

/-- What is prepared is not about transactions unless the statement is. -/
theorem isControl_prepare (ctx : Context) {s : Sql.Statement} (h : s.isControl = false) :
    (prepare ctx s).Ensures fun p => p.isControl = false := by
  intro p hp
  have hsound : p.IsSound := by
    refine isSound_prepare ctx ?_ ?_ ?_ p hp
    all_goals
      rintro rfl
      exact absurd h (by simp [Sql.Statement.isControl])
  cases p with
  | begin => exact hsound.elim
  | commit => exact hsound.elim
  | rollback => exact hsound.elim
  | _ => rfl

end Memory

namespace MemoryDatabase

/-- The tables of a database in memory and those it saved. -/
def snapshots : Snapshots MemoryDatabase Catalog := ⟨catalog, saved⟩

variable {m : MemoryDatabase} {T : Catalog}

/-! ## Statements keep the saved tables -/

theorem kept_finish (h : m.saved = some T) (a : Area) (t : Table) (n : Nat) :
    snapshots.Kept T (m.finish a t n) := by
  unfold finish
  dsimp only
  split
  · exact h
  · exact .inl h

theorem kept_fail (h : m.saved = some T) (f : Fault) : snapshots.Kept T (m.fail f) :=
  .inl h

theorem kept_insert (h : m.saved = some T) (a : Area) (t : Table) (many : Bool)
    (rows : List (List Storage)) : snapshots.Kept T (m.insert a t many rows) := by
  unfold MemoryDatabase.insert
  rcases (Insertion.start t).insertAll rows with ⟨s, fault⟩
  have h' : ({ m with lastKey := s.last.getD m.lastKey } : MemoryDatabase).saved = some T := h
  dsimp only
  split
  · exact kept_finish h' _ _ _
  · split
    · exact kept_fail h' _
    · refine .inr ⟨rfl, ?_⟩
      change m.saved.getD m.catalog = T
      rw [h]
      rfl
  · exact kept_fail h' _

theorem kept_perform (h : m.saved = some T) {p : Prepared} (hp : p.isControl = false) :
    snapshots.Kept T (m.perform p) := by
  cases p with
  | rows os rows => exact h
  | insert a t many rows => exact kept_insert h a t many rows
  | update a t changesKey values =>
      rw [perform]
      split
      · exact kept_finish h _ _ _
      · exact kept_fail h _
  | delete a t condition => exact kept_finish h _ _ _
  | create a t => exact h
  | drop a n => exact h
  | nothing => exact h
  | begin => simp [Prepared.isControl] at hp
  | commit => simp [Prepared.isControl] at hp
  | rollback => simp [Prepared.isControl] at hp

theorem kept_execute (h : m.saved = some T) {s : Sql.Statement} (hs : s.isControl = false)
    (params : Sql.Params) : snapshots.Kept T (m.execute s params) := by
  unfold execute
  split
  · exact .inl h
  · rename_i p hp
    have hk := kept_perform h (isControl_prepare _ hs p hp)
    split <;> rename_i hperform <;> rw [hperform] at hk <;> exact hk

theorem kept_executeBound (h : m.saved = some T) {s : Sql.Statement} (hs : s.isControl = false)
    (params : Sql.Params) : snapshots.Kept T (m.executeBound s params) := by
  unfold executeBound
  split
  · exact .inl h
  · rename_i p hp
    have hk := kept_perform h (isControl_prepare _ hs p hp)
    split
    · exact .inl h
    · split <;> rename_i hperform <;> rw [hperform] at hk <;> exact hk

/-- What a statement reads as first is not about transactions unless the statement is. -/
theorem isControl_of_readings {s s' : Sql.Statement} {rest : List (Option Sql.Statement)}
    (hs : s.isControl = false) (hr : readings s = some s' :: rest) : s'.isControl = false := by
  unfold readings at hr
  split at hr
  · obtain ⟨⟨rfl⟩, -⟩ := List.cons.inj hr
    exact hs
  · split at hr
    · simp at hr
    · exact Sql.isControl_of_readScript hs hr

theorem kept_executeFirst (h : m.saved = some T) {s : Sql.Statement} (hs : s.isControl = false)
    (params : Sql.Params) : snapshots.Kept T (m.executeFirst s params) := by
  unfold executeFirst
  split
  · rename_i s' rest hr
    exact kept_executeBound h (isControl_of_readings hs hr) params
  · exact .inl h

theorem kept_executeAll (h : m.saved = some T) {ss : List Sql.Statement}
    (hs : ∀ s ∈ ss, s.isControl = false) : snapshots.Kept T (m.executeAll (ss.map some)) := by
  induction ss generalizing m with
  | nil => exact h
  | cons s ss ih =>
      have hk := kept_execute h (hs s (by simp)) #[]
      rw [List.map_cons, executeAll]
      split <;> rename_i he <;> rw [he] at hk
      · exact ih hk fun s' hs' => hs s' (by simp [hs'])
      · exact hk

theorem readings_of_isOrdinary {s : Sql.Script} (h : s.isOrdinary = true) :
    s.statements.flatMap readings = s.statements.map some ∧
      ∀ s' ∈ s.statements, Sql.Statement.isControl s' = false := by
  unfold Sql.Script.isOrdinary at h
  have hs : ∀ s' ∈ s.statements, Sql.Statement.isPlain s' = true ∧ s'.isControl = false := by
    simpa using h
  refine ⟨?_, fun s' hs' => (hs s' hs').2⟩
  generalize s.statements = ss at hs
  induction ss with
  | nil => rfl
  | cons s ss ih =>
      rw [List.flatMap_cons, List.map_cons, ih fun s' hs' => hs s' (by simp [hs']), readings,
        if_pos (hs s (by simp)).1]
      rfl

theorem perform_begin (m : MemoryDatabase) : m.perform .begin =
    if m.inTransaction then (.error .alreadyInTransaction, m)
    else (.ok (), { m with saved := some m.catalog }) := rfl

theorem perform_commit (m : MemoryDatabase) : m.perform .commit =
    if !m.inTransaction then (.error .nothingToCommit, m)
    else if m.catalog.consistent true then (.ok (), { m with saved := none })
    else (.error .danglingReference, m) := rfl

/-- A database in memory restores all its tables when it rolls back. -/
def recovery : Recovery MemoryDatabase Catalog where
  toSnapshots := snapshots
  begin_ok {d d'} h := by
    change d.perform .begin = _ at h
    rw [perform_begin] at h
    split at h
    · simp at h
    · rw [← (Prod.mk.inj h).2]
      rfl
  begin_error {d d' f} h := by
    change d.perform .begin = _ at h
    rw [perform_begin] at h
    split at h
    · rw [← (Prod.mk.inj h).2]
    · simp at h
  script_kept {s d T} hs h := by
    obtain ⟨hr, hc⟩ := readings_of_isOrdinary hs
    change snapshots.Kept T (d.executeAll (s.statements.flatMap readings))
    rw [hr]
    exact kept_executeAll h hc
  run_kept {s params d T} hs h := by
    have hk := kept_executeFirst h hs params
    rcases hrun : d.executeFirst s params with ⟨f | p, d'⟩
    all_goals
      rw [hrun] at hk
      rw [outcome, run_run, hrun]
    · exact hk
    · split <;> simp_all [Snapshots.Kept, Snapshots.Undoable]
  query_kept {s params d T} hs h := by
    have hk := kept_executeFirst h hs params
    rcases hrun : d.executeFirst s params with ⟨f | p, d'⟩
    all_goals
      rw [hrun] at hk
      rw [outcome, run_query, hrun]
    · exact hk
    · split <;> simp_all [Snapshots.Kept]
  commit_error {d d' f T} h hc := by
    change d.perform .commit = _ at hc
    rw [perform_commit] at hc
    split at hc
    · rw [← (Prod.mk.inj hc).2]
      exact .inl h
    · split at hc
      · simp at hc
      · rw [← (Prod.mk.inj hc).2]
        exact .inl h
  inTransaction_eq d := rfl
  rollback_restores {d T} h := by
    change (d.perform .rollback).2.catalog = T
    have h : d.saved = some T := h
    simp only [perform, h]
  rollback_idle {d} h := by
    change (d.perform .rollback).2.catalog = d.catalog
    have h : d.saved = none := h
    simp only [perform, h]

end MemoryDatabase

end StagedStore
