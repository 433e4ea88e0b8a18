import StagedStore.Proofs.Memory.Names
import StagedStore.Proofs.Schema.Invariant

/-!
# Fields in rows

Where the cells of a schema's fields stand in the rows of its table, and that names of fields mean
these places.
-/

namespace StagedStore

open Memory

namespace Schema

variable {s : Schema} {t : Table}

/-- The position of the field of a name. -/
def fieldIndex (s : Schema) (name : String) : Nat :=
  (s.fields.map Field.name).idxOf name

/-- The cell of the field of a name in a row. -/
def fieldCell (s : Schema) (name : String) (e : Entry) : Storage :=
  e.cells[s.fieldIndex name]?.getD .null

theorem fieldIndex_eq {i : Nat} {f : Field} (h : s.fields[i]? = some f) :
    s.fieldIndex f.name = i := by
  obtain ⟨hi, hf⟩ := List.getElem?_eq_some_iff.1 h
  have hi' : i < (s.fields.map Field.name).length := by simpa using hi
  have hname : (s.fields.map Field.name)[i] = f.name := by rw [List.getElem_map, hf]
  unfold fieldIndex
  rw [← hname, s.names_nodup.idxOf_getElem]

theorem getElem?_fieldIndex {name : String} {f : Field} (h : s.requireField name = .ok f) :
    s.fields[s.fieldIndex name]? = some f ∧ f.name = name := by
  unfold requireField field? at h
  split at h
  · rename_i g hg
    obtain rfl := Except.ok.inj h
    have hname : g.name = name := by simpa using List.find?_some hg
    obtain ⟨i, hi⟩ := List.getElem?_of_mem (List.mem_of_find?_eq_some hg)
    rw [← hname, fieldIndex_eq hi]
    exact ⟨hi, rfl⟩
  · simp at h

theorem requireField_eq {i : Nat} {f : Field} (h : s.fields[i]? = some f) :
    s.requireField f.name = .ok f := by
  cases hr : s.field? f.name with
  | none =>
      have hmem := List.find?_eq_none.1 hr f (List.mem_of_getElem? h)
      simp at hmem
  | some g =>
      have hok : s.requireField f.name = .ok g := by simp [requireField, hr]
      have hg := (getElem?_fieldIndex hok).1
      rw [fieldIndex_eq h, h] at hg
      rw [hok, Option.some.inj hg]

theorem requireField_of_mem {f : Field} (hf : f ∈ s.fields) : s.requireField f.name = .ok f := by
  obtain ⟨i, hi⟩ := List.getElem?_of_mem hf
  exact requireField_eq hi

theorem fieldIndex_primaryKey (s : Schema) : s.fieldIndex s.primaryKey.name = s.keyIndex :=
  fieldIndex_eq s.getElem?_keyIndex

theorem fieldCell_primaryKey (s : Schema) (e : Entry) :
    s.fieldCell s.primaryKey.name e = s.keyCell e := by
  unfold fieldCell keyCell
  rw [fieldIndex_primaryKey]

namespace Fits

variable (h : s.Fits t)

include h

/-- The names of fields differ in more than the case of their letters. -/
theorem foldName_inj {m n : String} {f g : Field} (hf : s.requireField m = .ok f)
    (hg : s.requireField n = .ok g) (he : foldName m = foldName n) : m = n := by
  obtain ⟨hi, rfl⟩ := getElem?_fieldIndex hf
  obtain ⟨hj, rfl⟩ := getElem?_fieldIndex hg
  have hi' : (s.fields.map fun f => foldName f.name)[s.fieldIndex f.name]? =
      some (foldName f.name) := by
    rw [List.getElem?_map, hi, Option.map_some]
  have hj' : (s.fields.map fun f => foldName f.name)[s.fieldIndex g.name]? =
      some (foldName f.name) := by
    rw [List.getElem?_map, hj, Option.map_some, he]
  have hlt := (List.getElem?_eq_some_iff.1 hi').1
  have hij := (List.getElem?_inj hlt h.names_nodup).1 (hi'.trans hj'.symm)
  rw [← hij, hi] at hj
  rw [Option.some.inj hj]

theorem eq_of_id_eq {e e' : Entry} (he : e ∈ t.entries) (he' : e' ∈ t.entries)
    (hid : e.id = e'.id) : e = e' := by
  have hnodup : (t.entries.map Entry.id).Nodup :=
    List.pairwise_map.2 (h.sorted.imp fun hlt => (Int64.ne_of_lt hlt).symm)
  exact List.inj_on_of_nodup_map hnodup he he' hid

theorem eq_of_normal_key {e e' : Entry} (he : e ∈ t.entries) (he' : e' ∈ t.entries)
    (hkey : (s.keyCell e).normal = (s.keyCell e').normal) : e = e' := by
  have hnodup : (t.entries.map fun e => (s.keyCell e).normal).Nodup :=
    List.pairwise_map.2 h.distinct
  exact List.inj_on_of_nodup_map hnodup he he' hkey

theorem eq_of_keyCell_eq {e e' : Entry} (he : e ∈ t.entries) (he' : e' ∈ t.entries)
    (hkey : s.keyCell e = s.keyCell e') : e = e' :=
  h.eq_of_normal_key he he' (congrArg Storage.normal hkey)

theorem columns_nodup : (t.columns.map fun c => foldName c.name).Nodup := by
  rw [h.columns, List.map_map]
  exact h.names_nodup

theorem columnIndex?_field {i : Nat} {f : Field} (hf : s.fields[i]? = some f) :
    t.columnIndex? f.name = some i := by
  refine Table.columnIndex?_eq h.columns_nodup (c := f.toColumn) ?_ rfl
  rw [h.columns, List.getElem?_map, hf, Option.map_some]

/-- The name of a field means its place, whatever other sources stand around the table. -/
theorem resolve_field {r : Resolver} {q : Option Part} (pre post : List Slot) (source : String)
    {i : Nat} {f : Field} (hslots : r.slots = pre ++ (t.slots source ++ post))
    (hq : ∀ p ∈ q, foldName p.name = foldName source)
    (hpre : ∀ x ∈ pre, Resolver.picks q f.name x = false)
    (hpost : ∀ x ∈ post, Resolver.picks q f.name x = false)
    (hf : s.fields[i]? = some f) :
    r.resolve (.column q (.quoted f.name)) =
      .ok ⟨.slot (pre.length + 1 + i), f.affinity⟩ := by
  have hsplit : r.slots =
      (pre ++ [Slot.hidden source]) ++ (t.columnSlots source ++ post) := by
    rw [hslots, Table.slots_eq]
    simp
  have hi : (t.columnSlots source)[i]? =
      some (.ofColumn (some source) f.name f.affinity) := by
    unfold Table.columnSlots
    rw [h.columns, List.map_map, List.getElem?_map, hf]
    rfl
  have hbefore : ∀ x ∈ pre ++ [Slot.hidden source], Resolver.picks q f.name x = false := by
    intro x hx
    rcases List.mem_append.1 hx with hx | hx
    · exact hpre x hx
    · rw [List.mem_singleton.1 hx]
      exact Resolver.picks_hidden rfl
  rw [Resolver.resolve, Resolver.resolveName_eq (.quoted f.name) _ _ hsplit
    (Table.run_columnSlots hq h.columns_nodup) hbefore hpost hi rfl]
  simp [Slot.ofColumn]

end Fits

end Schema

namespace Memory.Table

/-- A cell of a row behind the cells of other sources. -/
theorem getElem?_append_rowOf {l : Array Storage} {n : Nat} (hl : l.size = n) (e : Entry)
    (i : Nat) : (l ++ rowOf e)[n + 1 + i]? = e.cells[i]? := by
  rw [Array.getElem?_append_right (by omega), rowOf, Array.getElem?_append_right (by simp; omega)]
  congr 1
  simp only [List.size_toArray, List.length_cons, List.length_nil]
  omega

end Memory.Table

end StagedStore
