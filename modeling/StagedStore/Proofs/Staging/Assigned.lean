import StagedStore.Proofs.Staging.Update
import StagedStore.Proofs.Update.RowWise

/-!
# Rows that an update assigns

An update from staged rows leaves a row as changes do, if its columns keep the staged cells as the
changes leave them.
-/

namespace StagedStore.Schema

open Memory

variable {s : Schema} {t : Table} {fields : List String}

theorem nodup_assignments (hnodup : fields.Nodup)
    (hdeclared : ∀ n ∈ fields, ∃ g, s.requireField n = .ok g) (names : List String)
    (row : Array Storage) : ((s.assignments names fields row).map Prod.fst).Nodup := by
  unfold assignments
  rw [List.map_map]
  refine List.Nodup.map_on (fun m hm n hn he => ?_) hnodup
  obtain ⟨f, hf⟩ := hdeclared m hm
  obtain ⟨g, hg⟩ := hdeclared n hn
  obtain ⟨hi, rfl⟩ := getElem?_fieldIndex hf
  obtain ⟨hj, rfl⟩ := getElem?_fieldIndex hg
  have hindex : s.fieldIndex f.name = s.fieldIndex g.name := he
  rw [hindex, hj] at hi
  rw [Option.some.inj hi]

theorem notMem_assignments {names : List String} {row : Array Storage} {j : Nat} {f : Field}
    (hdeclared : ∀ n ∈ fields, ∃ g, s.requireField n = .ok g) (hf : s.fields[j]? = some f)
    (hn : f.name ∉ fields) : j ∉ (s.assignments names fields row).map Prod.fst := by
  intro hin
  simp only [assignments, List.map_map, List.mem_map, Function.comp_apply] at hin
  obtain ⟨m, hm, hjm⟩ := hin
  obtain ⟨g, hg⟩ := hdeclared m hm
  obtain ⟨hi, rfl⟩ := getElem?_fieldIndex hg
  rw [hjm, hf] at hi
  exact hn (Option.some.inj hi ▸ hm)

/-- An assigned field keeps its staged cell as its column does. -/
theorem Fits.getElem?_cellsAfter_of_mem (h : s.Fits t) (hnodup : fields.Nodup)
    (hdeclared : ∀ n ∈ fields, ∃ g, s.requireField n = .ok g) {names : List String}
    {row : Array Storage} {e : Entry} (he : e ∈ t.entries) {j : Nat} {f : Field}
    (hf : s.fields[j]? = some f) (hn : f.name ∈ fields) :
    (Revision.cellsAfter t (s.assignments names fields row) e.cells)[j]? =
      some (f.affinity.store (namedCell names row f.name)) := by
  have hj : j < e.cells.size := by
    rw [(h.rows e he).size]
    exact (List.getElem?_eq_some_iff.1 hf).1
  have hmem : (j, namedCell names row f.name) ∈ s.assignments names fields row :=
    List.mem_map.2 ⟨f.name, hn, by rw [fieldIndex_eq hf]⟩
  have hcolumn : t.columns[j]? = some f.toColumn := by
    rw [h.getElem?_columns, hf, Option.map_some]
  rw [Revision.getElem?_cellsAfter_of_mem (nodup_assignments hnodup hdeclared _ _) hmem hcolumn hj]
  rfl

/-- The assigned cells of a row are those that changes leave. -/
theorem Fits.cellsAfter_eq (h : s.Fits t) (hnodup : fields.Nodup)
    (hdeclared : ∀ n ∈ fields, ∃ g, s.requireField n = .ok g) {c : Changes}
    {names : List String} {row : Array Storage} {e : Entry} (he : e ∈ t.entries)
    (hassigned : ∀ n ∈ fields, ∀ f, s.requireField n = .ok f →
      f.affinity.store (namedCell names row n) = c.cellAfter f (s.fieldCell n e))
    (hkept : ∀ n, n ∉ fields → c.get? n = none) :
    Revision.cellsAfter t (s.assignments names fields row) e.cells = (c.applyTo s e).cells := by
  have hrow := h.rows e he
  apply Array.ext_getElem?
  intro j
  cases hf : s.fields[j]? with
  | none =>
      have hj : e.cells.size ≤ j := by
        rw [hrow.size]
        exact List.getElem?_eq_none_iff.1 hf
      rw [Array.getElem?_eq_none (by simpa using hj), Array.getElem?_eq_none]
      simpa [Changes.applyTo] using hj
  | some f =>
      have hj : j < e.cells.size := by
        rw [hrow.size]
        exact (List.getElem?_eq_some_iff.1 hf).1
      have hcell : s.fieldCell f.name e = e.cells[j] := by
        rw [fieldCell, fieldIndex_eq hf, Array.getElem?_eq_getElem hj, Option.getD_some]
      rw [Changes.getElem?_applyTo hf, Array.getElem?_eq_getElem hj, Option.map_some]
      by_cases hn : f.name ∈ fields
      · rw [h.getElem?_cellsAfter_of_mem hnodup hdeclared he hf hn, ← hcell,
          ← hassigned f.name hn f (requireField_eq hf)]
      · rw [Revision.getElem?_cellsAfter_of_notMem (notMem_assignments hdeclared hf hn),
          Array.getElem?_eq_getElem hj, Changes.cellAfter, hkept f.name hn]

end StagedStore.Schema
