import Std.Data.String.ToNat
import StagedStore.Proofs.Digits
import StagedStore.Proofs.Memory.Query
import StagedStore.Proofs.Memory.Rows
import StagedStore.Proofs.Schema.Keys
import StagedStore.Proofs.Sql.Binding
import StagedStore.Proofs.Update.Compile

/-!
# Planned rows

What the query of a plan gives.  The planned rows are joined with the rows of the origin table that
have their keys, and every cell comes out as its row's own delta makes it: the arms of a field are
chosen by the key, and the rows have different keys.
-/

namespace StagedStore

open Memory

/-! ## Cells -/

/-- A cell as it stands among the planned rows. -/
def Cell.planned : Cell → Storage
  | .value v => v.bound
  | _ => .null

/-- What a cell comes to where the origin row has another. -/
def Cell.resolved (old : Storage) : Cell → Storage
  | .value v => v.bound
  | .increment a => old.add a
  | .untouched => old

namespace PlanRow

/-- A row of a plan as it stands among the planned rows. -/
def planned (p : Plan) (r : PlanRow) : List Storage :=
  r.key.bound :: p.fields.map fun f => (r.cell f).planned

/-- A row of a plan under its key as the column of the key keeps it. -/
def kept (r : PlanRow) : PlanRow :=
  ⟨r.key.kept, r.cells⟩

/-- A row of a plan as it is staged for a row of the origin table. -/
def staged (s : Schema) (p : Plan) (r : PlanRow) (e : Entry) : List Storage :=
  r.key :: p.fields.map fun f => (r.cell f).resolved (s.fieldCell f e)

end PlanRow

namespace Plan

variable {s : Schema} {p : Plan} {t : Table} {ctx : Context}

/-- The columns of a plan are the key of a table and further fields. -/
structure Laid (s : Schema) (t : Table) (p : Plan) : Prop where
  fits : s.Fits t
  key : p.key = s.primaryKey.name
  fields_nodup : p.fields.Nodup
  key_notMem : s.primaryKey.name ∉ p.fields
  declared : ∀ n ∈ p.fields, ∃ f, s.requireField n = .ok f

/-- What makes the statements of a plan mean on a table what they say. No two keys compare as equal,
and a key stands as a literal wherever an arm of a field names it. -/
structure Ready (s : Schema) (t : Table) (p : Plan) : Prop extends Laid s t p where
  writes : ∀ r ∈ p.rows, s.primaryKey.kind.Writes r.key
  bound_key : ∀ r ∈ p.rows, r.key.bound = r.key
  normals_nodup : (p.rows.map fun r => r.key.normal).Nodup
  literal_key : ∀ r ∈ p.rows, ∀ n ∈ p.fields, (∀ v, r.cell n ≠ .value v) →
    Sql.Expr.ofStorage r.key = .literal r.key
  finite : ∀ r ∈ p.rows, ∀ n a, r.cell n = .increment a → Sql.Expr.ofStorage a = .literal a

/-- Keys that are not real are told apart if they differ, and have literals. -/
theorem Laid.ready (h : p.Laid s t) (hkind : s.primaryKey.kind ≠ .real)
    (hwrites : ∀ r ∈ p.rows, s.primaryKey.kind.Writes r.key)
    (hnodup : (p.rows.map PlanRow.key).Nodup)
    (hfinite : ∀ r ∈ p.rows, ∀ n a, r.cell n = .increment a →
      Sql.Expr.ofStorage a = .literal a) : p.Ready s t where
  toLaid := h
  writes := hwrites
  bound_key r hr := Storage.bound_of_notReal (Schema.store_of_writes hkind (hwrites r hr)).1
  normals_nodup := by
    have hkeys : (p.rows.map fun r => r.key.normal) = p.rows.map PlanRow.key :=
      List.map_congr_left fun r hr =>
        Storage.normal_eq_self (Schema.store_of_writes hkind (hwrites r hr)).1
    rw [hkeys]
    exact hnodup
  literal_key r hr _ _ _ := by
    have hreal := (Schema.store_of_writes hkind (hwrites r hr)).1
    cases hk : r.key with
    | real x => exact absurd hk (hreal x)
    | _ => rfl
  finite := hfinite

/-! ## Rows of values -/

theorem binds_bindCell (c : Cell) : Sql.Binds (bindCell c) fun q e =>
    ∀ ctx : Context, ctx.params = q → ∃ f, (ctx.resolver []).resolve e = .ok ⟨.cell c.planned, f⟩ := by
  have null : Sql.Binds (return .literal .null : Sql.Binding Sql.Expr) fun q e =>
      ∀ ctx : Context, ctx.params = q → ∃ f, (ctx.resolver []).resolve e = .ok ⟨.cell .null, f⟩ :=
    Sql.binds_pure fun q ctx _ => ⟨.none, rfl⟩
  cases c with
  | value v =>
      refine (Sql.binds_bindValue v).imp ?_
      rintro q e ⟨n, rfl, hn⟩ ctx rfl
      exact ⟨.none, congrArg (fun v => Except.ok (Resolved.mk (.cell v) .none)) hn⟩
  | increment a => exact null
  | untouched => exact null

theorem binds_bindRow (p : Plan) (r : PlanRow) : Sql.Binds (p.bindRow r) fun q es =>
    ∀ ctx : Context, ctx.params = q →
      (ctx.resolver []).resolveAll es = .ok ((r.planned p).map Term.cell) := by
  unfold bindRow
  refine Sql.binds_bind (binds_bindCell (.value r.key)) fun key => ?_
  refine Sql.binds_bind (Sql.binds_mapM fun f _ => binds_bindCell (r.cell f)) fun es => ?_
  refine Sql.binds_pure fun q hes hkey ctx hq => ?_
  refine Resolver.resolveAll_eq (.cons (hkey ctx hq) ?_)
  rw [List.map_map, List.forall₂_map_right_iff]
  exact (hes.imp fun f e he => he ctx hq).flip

/-- The names of columns of values differ. -/
theorem foldName_column_inj {m n : Nat}
    (h : foldName ("column" ++ toString m) = foldName ("column" ++ toString n)) : m = n := by
  have digits (k : Nat) : (Nat.toDigits 10 k).map Char.toLower = Nat.toDigits 10 k := by
    refine (List.map_congr_left fun c hc => ?_).trans (List.map_id _)
    exact toLower_of_isDigit (Nat.isDigit_of_mem_toDigits (by decide) (by decide) hc)
  have hlist := congrArg String.toList h
  unfold foldName at hlist
  simp only [String.toList_map, String.toList_append, List.map_append, List.append_cancel_left_eq,
    Nat.toString_eq_repr, Nat.toList_repr, digits] at hlist
  apply Nat.repr_injective
  apply String.ext
  rw [Nat.toList_repr, Nat.toList_repr, hlist]

theorem length_planned (p : Plan) (r : PlanRow) : (r.planned p).length = p.columns.length := by
  simp [PlanRow.planned, columns]

/-- The places of planned rows. -/
def plannedSlots (p : Plan) : List Slot :=
  p.columns.map fun c => .ofColumn (some "_rows") c .none

theorem run_valueSlots (n : Nat) : Resolver.Run none (valueSlots n) where
  keys_nodup := by
    unfold valueSlots
    rw [List.map_map]
    refine (List.nodup_range).map fun i j h => ?_
    exact Nat.succ.inj (foldName_column_inj h)
  visible x hx := by
    obtain ⟨i, -, rfl⟩ := List.mem_map.1 hx
    rfl
  inSource _ _ := rfl

theorem outputs_valueColumn {n i : Nat} (hi : i < n) (c : String) :
    outputs (ctx.resolver (valueSlots n))
        (.expr (.column none (.bare ("column" ++ toString (i + 1)))) (some (.quoted c))) =
      .ok [⟨c, .slot i, .none⟩] := by
  refine outputs_labelled (t := ⟨.slot i, .none⟩) ?_
  have hslot : (valueSlots n)[i]? =
      some (.ofColumn none ("column" ++ toString (i + 1)) .none) := by
    simp [valueSlots, hi]
  have hres := Resolver.resolveName_eq (r := ctx.resolver (valueSlots n)) (q := none)
    (.bare ("column" ++ toString (i + 1))) [] [] (by rw [List.append_nil]; rfl) (run_valueSlots n)
    (by simp) (by simp) hslot rfl
  rw [Resolver.resolve, hres]
  simp [Slot.ofColumn]

/-- The columns of the planned rows, as they are taken from rows of values. -/
theorem evalSelect_planned {rows : List PlanRow} {tuples : List (List Sql.Expr)} (hne : rows ≠ [])
    (ht : List.Forall₂ (fun r es => (ctx.resolver []).resolveAll es =
      .ok ((r.planned p).map Term.cell)) rows tuples) :
    evalSelect ctx (.mk (p.columns.mapIdx fun i c =>
        .expr (.column none (.bare ("column" ++ toString (i + 1)))) (some (.quoted c)))
      (some (.values tuples)) none [] none) =
      .ok (p.columns.zipIdx.map fun (c, i) => ⟨c, .slot i, .none⟩,
        rows.map fun r => (r.planned p).toArray) := by
  have hvalues : evalFrom ctx (some (.values tuples)) =
      .ok ⟨valueSlots p.columns.length, rows.map fun r => (r.planned p).toArray⟩ := by
    have hcells : List.Forall₂ (fun es vs => (ctx.resolver []).resolveAll es =
        .ok (vs.map Term.cell)) tuples (rows.map (·.planned p)) := by
      rw [List.forall₂_map_right_iff]
      exact ht.flip
    rw [evalFrom, evalSource, evalValues_eq hcells, List.map_map]
    obtain ⟨r, rows, rfl⟩ := List.exists_cons_of_ne_nil hne
    simp [length_planned, Function.comp_def]
  have hresults : (p.columns.zipIdx.map fun (c, i) =>
      (.expr (.column none (.bare ("column" ++ toString (i + 1)))) (some (.quoted c)) :
        Sql.ResultColumn)).mapM (outputs (ctx.resolver (valueSlots p.columns.length))) =
      .ok (p.columns.zipIdx.map fun (c, i) => [⟨c, .slot i, .none⟩]) := by
    refine Except.mapM_eq_ok (List.forall₂_iff_get.2 ⟨by simp, fun i hi hi' => ?_⟩)
    simp only [List.get_eq_getElem, List.getElem_map, List.getElem_zipIdx, Nat.zero_add]
    exact outputs_valueColumn (by simpa using hi) _
  rw [List.mapIdx_eq_zipIdx_map, evalSelect_results hvalues hresults ?_]
  · rw [flatten_singletons fun (x : String × Nat) => ⟨x.1, .slot x.2, .none⟩]
    congr 2
    unfold project
    rw [List.map_map]
    refine List.map_congr_left fun r _ => ?_
    rw [Function.comp_apply, List.map_map]
    congr 1
    refine List.ext_getElem (by simp [length_planned]) fun i hi hi' => ?_
    simp [Term.eval, hi']
  · rw [List.any_map, List.any_eq_false]
    intro x _
    exact Bool.false_ne_true

/-- The planned rows under the names of the plan's columns. -/
theorem evalSource_planned {rows : List PlanRow} {tuples : List (List Sql.Expr)} (hne : rows ≠ [])
    (ht : List.Forall₂ (fun r es => (ctx.resolver []).resolveAll es =
      .ok ((r.planned p).map Term.cell)) rows tuples) :
    evalSource ctx (p.plannedSource tuples) =
      .ok ⟨p.plannedSlots, rows.map fun r => (r.planned p).toArray⟩ := by
  unfold plannedSource
  rw [evalSource, evalSelect_planned hne ht, Except.ok_bind]
  have hslots : (p.columns.zipIdx.map fun (c, i) => (⟨c, .slot i, .none⟩ : Output)).map
      (fun o => Slot.ofColumn (some "_rows") o.name o.affinity) = p.plannedSlots := by
    rw [List.map_map]
    refine List.ext_getElem (by simp [plannedSlots]) fun i hi hi' => ?_
    simp [plannedSlots]
  exact congrArg (fun slots => Except.ok (Relation.mk slots _)) hslots

end Plan

end StagedStore
