import StagedStore.Proofs.Memory.Rows

/-!
# Prepared statements

What holds of every prepared statement, whatever the statement was.
-/

namespace StagedStore.Memory

open Except

/-- What carrying a statement out relies on.  Rows to insert have a cell for every column, and
assignments that are said to leave the hidden key alone have no cell for it. -/
def Prepared.IsSound : Prepared → Prop
  | .insert _ t _ cells => ∀ r ∈ cells, r.length = t.columns.length
  | .update _ t changesKey values => changesKey = false →
    ∀ e vs, values e = some vs → ∀ i, t.key = some i → i ∉ vs.map Prod.fst
  | .begin | .commit | .rollback => False
  | _ => True

theorem length_of_checkRows {i : Identifier} {width named : Nat} {cells : List (List Storage)}
    (h : checkRows i width named cells = .ok ()) :
    ∀ r ∈ cells, r.length = if named = 0 then width else named := by
  cases cells with
  | nil => simp
  | cons row rest =>
      rw [checkRows] at h
      split at h
      · simp at h
      · rename_i hwidth
        split at h
        · simp at h
        · rename_i hnamed
          split at h
          · simp at h
          · rename_i hrest
            have hrow : row.length = if named = 0 then width else named := by
              split <;> omega
            intro r hr
            rcases List.mem_cons.1 hr with rfl | hr
            · exact hrow
            · rw [← hrow]
              simpa using List.any_eq_false.1 (Bool.eq_false_iff.2 hrest) r hr

theorem length_spread (width : Nat) (positions : List Nat) (cells : List Storage) :
    (spread width positions cells).length = width := by
  unfold spread
  rw [Array.length_toList]
  generalize positions.zip cells = ps
  have general (row : Array Storage) :
      (ps.foldl (fun row p => row.setIfInBounds p.1 p.2) row).size = row.size := by
    induction ps generalizing row with
    | nil => rfl
    | cons p ps ih => rw [List.foldl_cons, ih, Array.size_setIfInBounds]
  exact (general _).trans Array.size_replicate

theorem isSound_prepareInsert (ctx : Context) (i : Identifier) (columns : List Part)
    (rows : List (List Sql.Expr)) :
    (prepareInsert ctx i columns rows).Ensures Prepared.IsSound := by
  refine ensures_bind fun ⟨a, t⟩ _ => ensures_bind fun positions _ => ensures_bind fun cells _ =>
    ensures_bind fun _ hcheck => ensures_bind fun _ _ => ensures_ok ?_
  intro r hr
  cases columns with
  | nil => exact length_of_checkRows hcheck r hr
  | cons c cs =>
      obtain ⟨cs, -, rfl⟩ := List.mem_map.1 hr
      exact length_spread _ _ _

theorem isSound_prepareUpdate (ctx : Context) (i : Identifier)
    (assignments : List (Part × Sql.Expr)) (condition : Option Sql.Expr) :
    (prepareUpdate ctx i assignments condition).Ensures Prepared.IsSound := by
  refine ensures_bind fun ⟨a, t⟩ _ => ensures_bind fun values _ => ensures_bind fun c _ =>
    ensures_bind fun _ _ => ensures_ok ?_
  intro hkey e vs hvs j hj hmem
  dsimp only at hvs
  split at hvs
  · obtain rfl := Option.some.inj hvs
    rw [List.map_map] at hmem
    obtain ⟨v, hv, rfl⟩ := List.mem_map.1 hmem
    have := List.any_eq_false.1 hkey v hv
    simp [hj] at this
  · simp at hvs

theorem isSound_prepareUpdateFrom (ctx : Context) (i : Identifier)
    (assignments : List (Part × Sql.Expr)) (source : Identifier × Part)
    (condition : Option Sql.Expr) :
    (prepareUpdateFrom ctx i assignments source condition).Ensures Prepared.IsSound := by
  refine ensures_bind fun ⟨a, t⟩ _ => ensures_bind fun columns _ => ensures_bind fun s _ =>
    ensures_bind fun terms _ => ensures_bind fun c _ => ensures_bind fun _ _ => ensures_ok ?_
  intro hkey e vs hvs j hj hmem
  rcases getElem?_foldl_insert _ _ _ _ with ⟨row, -, -, hget⟩ | ⟨-, hget⟩
  · obtain rfl := Option.some.inj (hvs.symm.trans hget)
    obtain ⟨⟨k, v⟩, hkv, rfl⟩ := List.mem_map.1 hmem
    have := List.any_eq_false.1 hkey k (List.of_mem_zip hkv).1
    simp [hj] at this
  · exact absurd (hvs.symm.trans hget) (by simp)

/-- Every row of a query has a cell for each result. -/
theorem size_of_evalSelect {ctx : Context} {q : Sql.Select} {os : List Output}
    {rows : List (Array Storage)} (h : evalSelect ctx q = .ok (os, rows)) :
    ∀ r ∈ rows, r.size = os.length := by
  obtain ⟨columns, source, condition, order, limit⟩ := q
  rw [evalSelect] at h
  obtain ⟨s, -, h⟩ := bind_eq_ok_iff.1 h
  obtain ⟨results, -, h⟩ := bind_eq_ok_iff.1 h
  obtain ⟨c, -, h⟩ := bind_eq_ok_iff.1 h
  obtain ⟨terms, -, h⟩ := bind_eq_ok_iff.1 h
  obtain ⟨rfl, rfl⟩ := Prod.mk.inj (Except.ok.inj h)
  intro r hr
  obtain ⟨row, -, rfl⟩ := List.mem_map.1 hr
  rw [List.size_toArray, List.length_map]

/-- Every prepared statement is sound, unless the statement is about transactions. -/
theorem isSound_prepare (ctx : Context) {statement : Sql.Statement} (hbegin : statement ≠ .begin)
    (hcommit : statement ≠ .commit) (hrollback : statement ≠ .rollback) :
    (prepare ctx statement).Ensures Prepared.IsSound := by
  cases statement with
  | createTable unlessExists i columns =>
      refine ensures_bind fun ⟨a, name⟩ _ => ensures_bind fun _ _ => ?_
      dsimp only
      split
      · split
        · exact ensures_ok trivial
        · exact ensures_error _
      · split
        · exact ensures_error _
        · exact ensures_bind fun _ _ => ensures_ok trivial
  | createTemporary n q =>
      cases q with
      | fragment t => exact ensures_error _
      | select q =>
          refine ensures_bind fun _ _ => ?_
          dsimp only
          split
          · exact ensures_error _
          · exact ensures_bind fun _ _ => ensures_ok trivial
  | dropTable ifExists i =>
      change (prepareDrop ctx ifExists i).Ensures _
      unfold prepareDrop
      split
      · exact ensures_ok trivial
      · split
        · exact ensures_ok trivial
        · exact ensures_error _
  | insert i columns rows =>
      exact isSound_prepareInsert ctx i columns rows
  | insertDefault i =>
      refine ensures_bind fun ⟨a, t⟩ _ => ensures_bind fun _ _ => ensures_ok ?_
      intro r hr
      rw [List.mem_singleton.1 hr, List.length_map]
  | insertQuery i q =>
      cases q with
      | fragment t => exact ensures_error _
      | select q =>
          refine ensures_bind fun ⟨a, t⟩ _ => ensures_bind fun ⟨os, rows⟩ hq => ?_
          dsimp only
          split
          · exact ensures_error _
          · rename_i hlen
            refine ensures_bind fun _ _ => ensures_ok ?_
            intro r hr
            obtain ⟨row, hrow, rfl⟩ := List.mem_map.1 hr
            rw [Array.length_toList, size_of_evalSelect hq row hrow]
            exact not_ne_iff.1 hlen
  | update i assignments source condition =>
      cases source with
      | none => exact isSound_prepareUpdate ctx i assignments condition
      | some source =>
          exact isSound_prepareUpdateFrom ctx i assignments source condition
  | delete i condition =>
      exact ensures_bind fun _ _ => ensures_bind fun _ _ => ensures_bind fun _ _ =>
        ensures_ok trivial
  | select q => exact ensures_bind fun _ _ => ensures_ok trivial
  | begin => exact absurd rfl hbegin
  | commit => exact absurd rfl hcommit
  | rollback => exact absurd rfl hrollback
  | fragment t => exact ensures_error _

end StagedStore.Memory
