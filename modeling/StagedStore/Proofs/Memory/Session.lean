import StagedStore.Connection.Session
import StagedStore.Memory.Basic
import StagedStore.Proofs.Action
import StagedStore.Proofs.Sql.Leaves

/-!
# Sessions of a database in memory

What the calls on a session that succeed have done to the database.
-/

namespace StagedStore

open Memory MemoryDatabase

namespace MemoryDatabase

variable {m m' : MemoryDatabase} {statement : Sql.Statement} {params : Sql.Params} {p : Prepared}

theorem readings_of_isPlain (h : statement.isPlain = true) : readings statement = [some statement] := by
  unfold readings
  rw [if_pos h]

/-- A statement that runs has a first reading, which is prepared and performed. -/
theorem executeFirst_ok (h : m.executeFirst statement params = (.ok p, m')) :
    ∃ s rest, readings statement = some s :: rest ∧ prepare (m.context params) s = .ok p ∧
      m.perform p = (.ok (), m') := by
  unfold executeFirst at h
  split at h
  · rename_i s rest hr
    refine ⟨s, rest, hr, ?_⟩
    unfold executeBound at h
    split at h
    · simp at h
    · rename_i q hq
      split at h
      · simp at h
      · split at h
        · rename_i hperform
          obtain ⟨hp, rfl⟩ := Prod.mk.inj h
          obtain rfl := Except.ok.inj hp
          exact ⟨hq, hperform⟩
        · simp at h
  · simp at h

/-- A statement of the library's own that runs is plain, and is prepared and performed. -/
theorem executeFirst_made (hmade : ∀ e ∈ statement.leaves, e.isMade = true)
    (h : m.executeFirst statement params = (.ok p, m')) :
    statement.isPlain = true ∧ prepare (m.context params) statement = .ok p ∧
      m.perform p = (.ok (), m') := by
  obtain ⟨s, rest, hr, hp⟩ := executeFirst_ok h
  unfold readings at hr
  rcases Sql.Statement.isPlain_or_endsEarly hmade with hplain | ⟨hplain, hends⟩
  · rw [if_pos hplain] at hr
    obtain ⟨⟨rfl⟩, -⟩ := List.cons.inj hr
    exact ⟨hplain, hp⟩
  · rw [if_neg (by simp [hplain]), if_pos hends] at hr
    simp at hr

theorem finish_ok {a : Area} {t : Table} {n : Nat} (h : m.finish a t n = (.ok (), m')) :
    m' = { m with catalog := m.catalog.replace a t, changes := n } := by
  unfold finish at h
  simp only at h
  split at h
  · exact (Prod.mk.inj h).2.symm
  · simp at h

theorem perform_insert_ok {a : Area} {t : Table} {many : Bool} {rows : List (List Storage)}
    (h : m.perform (.insert a t many rows) = (.ok (), m')) :
    ∃ i, (Insertion.start t).insertAll rows = (i, none) ∧
      m' = { m with
        catalog := m.catalog.replace a i.table
        lastKey := i.last.getD m.lastKey
        changes := rows.length } := by
  change m.insert a t many rows = _ at h
  unfold insert at h
  rcases hi : (Insertion.start t).insertAll rows with ⟨i, fault⟩
  rw [hi] at h
  cases fault with
  | none => exact ⟨i, rfl, finish_ok (m := { m with lastKey := i.last.getD m.lastKey }) h⟩
  | some f =>
      cases f with
      | full =>
          simp only at h
          split at h <;> exact absurd (congrArg Prod.fst h) (by simp [fail])
      | _ => exact absurd (congrArg Prod.fst h) (by simp [fail])

theorem perform_update_ok {a : Area} {t : Table} {changesKey : Bool}
    {values : Entry → Option (List (Nat × Storage))}
    (h : m.perform (.update a t changesKey values) = (.ok (), m')) :
    ∃ t' n, Revision.updateAll t changesKey values = .ok (t', n) ∧
      m' = { m with catalog := m.catalog.replace a t', changes := n } := by
  unfold perform at h
  simp only at h
  split at h
  · rename_i t' n hu
    exact ⟨t', n, hu, finish_ok h⟩
  · exact absurd (congrArg Prod.fst h) (by simp [fail])

theorem perform_delete_ok {a : Area} {t : Table} {condition : Entry → Bool}
    (h : m.perform (.delete a t condition) = (.ok (), m')) :
    m' = { m with
      catalog := m.catalog.replace a
        { t with entries := t.entries.filter fun e => !condition e }
      changes := t.entries.length - (t.entries.filter fun e => !condition e).length } :=
  finish_ok h

/-- The rows that a prepared statement gives. -/
def rowsOf : Prepared → List Row
  | .rows os rows => resultRows os rows
  | _ => []

end MemoryDatabase

namespace Session

variable {s s' : Session MemoryDatabase} {statement : Sql.Statement} {params : Sql.Params}

theorem observe_ok {α : Type} {sql : String} {step : Step MemoryDatabase α} {a : α}
    (h : outcome (observe sql step) s = (.ok a, s')) :
    outcome step s.database = (.ok a, s'.database) ∧ s'.changes = s.changes := by
  unfold outcome ExceptT.run observe at h
  rcases hrun : outcome step s.database with ⟨f | b, d⟩
  all_goals
    have hrun' : step.run (s.note (.executing (logText s.logLimit sql))).database = _ := hrun
    simp only [ExceptT.run] at hrun'
    simp only [ExceptT.run, hrun'] at h
  · simp at h
  · obtain ⟨hb, rfl⟩ := Prod.mk.inj h
    obtain rfl := Except.ok.inj hb
    exact ⟨rfl, rfl⟩

theorem run_ok {n : Nat} (h : outcome (Connection.run statement params) s = (.ok n, s')) :
    ∃ p, s.database.executeFirst statement params = (.ok p, s'.database) ∧
      n = s'.database.changes ∧ s'.changes = n := by
  obtain ⟨n₁, s₁, hobserve, h⟩ := Action.outcome_bind_eq_ok_iff.1 h
  obtain ⟨⟨⟩, s₂, hset, h⟩ := Action.outcome_bind_eq_ok_iff.1 h
  obtain ⟨hn, rfl⟩ := Prod.mk.inj h
  obtain rfl := Except.ok.inj hn
  obtain ⟨-, rfl⟩ := Prod.mk.inj hset
  obtain ⟨hrun, -⟩ := observe_ok hobserve
  rw [outcome, MemoryDatabase.run_run] at hrun
  split at hrun
  · simp at hrun
  · rename_i p m _ hp
    obtain ⟨hn, rfl⟩ := Prod.mk.inj hrun
    exact ⟨p, hp, (Except.ok.inj hn).symm, rfl⟩
  · simp at hrun

theorem queryAll_ok {rows : List Row}
    (h : outcome (Connection.queryAll statement params) s = (.ok rows, s')) :
    ∃ p, s.database.executeFirst statement params = (.ok p, s'.database) ∧ rows = rowsOf p ∧
      s'.changes = s.changes := by
  obtain ⟨hrun, hchanges⟩ := observe_ok h
  rw [outcome, MemoryDatabase.run_query] at hrun
  split at hrun
  · rename_i os rs m hp
    obtain ⟨hn, rfl⟩ := Prod.mk.inj hrun
    exact ⟨_, hp, (Except.ok.inj hn).symm, hchanges⟩
  · rename_i p m hne hp
    obtain ⟨hn, rfl⟩ := Prod.mk.inj hrun
    refine ⟨p, hp, ?_, hchanges⟩
    rw [← Except.ok.inj hn]
    cases p with
    | rows os rs => exact absurd rfl (hne os rs)
    | _ => rfl
  · simp at hrun

theorem querySingle_ok {row : Row}
    (h : outcome (Connection.querySingle statement params) s = (.ok row, s')) :
    ∃ p rest, s.database.executeFirst statement params = (.ok p, s'.database) ∧
      rowsOf p = row :: rest ∧ s'.changes = s.changes := by
  obtain ⟨rows, s₁, hquery, h⟩ := Action.outcome_bind_eq_ok_iff.1 h
  obtain ⟨p, hp, hrows, hchanges⟩ := queryAll_ok hquery
  cases rows with
  | nil => exact absurd (congrArg Prod.fst h) (by simp)
  | cons r rest =>
      obtain ⟨hr, rfl⟩ := Prod.mk.inj h
      obtain rfl := Except.ok.inj hr
      exact ⟨p, rest, hp, hrows.symm, hchanges⟩

theorem exec_ok {script : Sql.Script} (h : outcome (Connection.exec script) s = (.ok (), s')) :
    s.database.executeAll (script.statements.flatMap readings) = (.ok (), s'.database) := by
  obtain ⟨⟨⟩, s₁, hobserve, h⟩ := Action.outcome_bind_eq_ok_iff.1 h
  obtain ⟨s₂, s₃, hget, h⟩ := Action.outcome_bind_eq_ok_iff.1 h
  obtain ⟨-, rfl⟩ := Prod.mk.inj h
  obtain ⟨-, rfl⟩ := Prod.mk.inj hget
  exact (observe_ok hobserve).1

theorem report_ok {e : Event} (h : outcome (Connection.report e) s = (.ok (), s')) :
    s'.database = s.database ∧ s'.changes = s.changes := by
  obtain ⟨-, rfl⟩ := Prod.mk.inj h
  exact ⟨rfl, rfl⟩

theorem lastChanges_ok {n : Nat} (h : outcome Connection.lastChanges s = (.ok n, s')) :
    s' = s ∧ n = s.changes := by
  obtain ⟨hn, rfl⟩ := Prod.mk.inj h
  exact ⟨rfl, (Except.ok.inj hn).symm⟩

theorem ofExcept_ok {α : Type} {r : Except Error α} {a : α}
    (h : outcome (Action.ofExcept r) s = (.ok a, s')) : r = .ok a ∧ s' = s := by
  obtain ⟨hr, rfl⟩ := Prod.mk.inj h
  exact ⟨hr, rfl⟩

end Session

end StagedStore
