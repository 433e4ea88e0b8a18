import StagedStore.Proofs.Action
import StagedStore.Proofs.Text.Quoted
import StagedStore.Schema.Basic

/-!
# Characters of names

The parts of an identifier that was read consist of characters of its text, so no null character
stands in a name of a schema that was built.
-/

namespace StagedStore

theorem Quoted.subset_of_read? {quote : Char} {cs name rest : List Char}
    (h : Quoted.read? quote cs = some (name, rest)) : name ⊆ cs ∧ rest ⊆ cs := by
  obtain ⟨rfl, -⟩ := eq_of_read? h
  exact ⟨fun c hc => by simp [mem_double, hc], fun c hc => by simp [hc]⟩

theorem Part.toList_of_ofWord {cs : List Char} {p : Part} (h : ofWord cs = .ok p) :
    p.name.toList = cs := by
  unfold ofWord at h
  split at h
  · simp at h
  · split at h
    · split at h
      · simp at h
      · rw [← Except.ok.inj h, name, String.toList_ofList]
    · simp at h

theorem Part.subset_of_read {cs rest : List Char} {p : Part} (h : Part.read cs = .ok (p, rest)) :
    p.name.toList ⊆ cs ∧ rest ⊆ cs := by
  unfold Part.read at h
  split at h
  · rename_i body
    split at h
    · simp at h
    · simp at h
    · rename_i n t _ hread
      obtain ⟨rfl, rfl⟩ := Prod.mk.inj (Except.ok.inj h)
      obtain ⟨hname, hrest⟩ := Quoted.subset_of_read? hread
      rw [name, String.toList_ofList]
      exact ⟨List.Subset.trans hname (List.subset_cons_self ..),
        List.Subset.trans hrest (List.subset_cons_self ..)⟩
  · obtain ⟨q, hq, hp⟩ := Except.bind_eq_ok_iff.1 h
    obtain ⟨rfl, rfl⟩ := Prod.mk.inj (Except.ok.inj hp)
    rw [toList_of_ofWord hq]
    exact ⟨(List.takeWhile_sublist _).subset, (List.dropWhile_sublist _).subset⟩

namespace Identifier

theorem subset_of_readParts {fuel : Nat} {cs : List Char} {i : Identifier}
    (h : readParts fuel cs = .ok i) : ∀ p ∈ i.parts, p.name.toList ⊆ cs := by
  induction fuel generalizing cs i with
  | zero => simp [readParts] at h
  | succ n ih =>
      obtain ⟨⟨p, rest⟩, hp, hrest⟩ := Except.bind_eq_ok_iff.1 h
      obtain ⟨hname, hsub⟩ := Part.subset_of_read hp
      dsimp only at hrest
      split at hrest
      · obtain rfl := Except.ok.inj hrest
        simpa [ofPart] using hname
      · simp at hrest
      · rename_i next _
        obtain ⟨j, hj, hi⟩ := Except.bind_eq_ok_iff.1 hrest
        obtain rfl := Except.ok.inj hi
        have hnext : next ⊆ cs := List.Subset.trans (List.subset_cons_self ..) hsub
        intro q hq
        rcases List.mem_cons.1 hq with rfl | hq
        · exact hname
        · exact List.Subset.trans (ih hj q hq) hnext
      · simp at hrest

theorem nul_notMem_of_parse {s : String} {i : Identifier} (h : parse s = .ok i) :
    ∀ p ∈ i.parts, '\x00' ∉ p.name.toList := by
  unfold parse at h
  have hread : read s = .ok i := by
    cases hr : read s with
    | error f => simp [hr, Except.mapError] at h
    | ok j => simpa [hr, Except.mapError] using h
  unfold read at hread
  split at hread
  · simp at hread
  · split at hread
    · simp at hread
    · rename_i hnul
      intro p hp hin
      exact hnul (List.contains_iff_mem.2 (subset_of_readParts hread p hp hin))

end Identifier

/-- No null character stands in the name of a field. -/
theorem Schema.nul_notMem_field {s : Schema} {name : String} {f : Field}
    (h : s.requireField name = .ok f) : '\x00' ∉ name.toList := by
  unfold requireField at h
  split at h
  · rename_i g hg
    have hname : g.name = name := by simpa using List.find?_some hg
    have hvalid := s.names_valid g (List.mem_of_find?_eq_some hg)
    unfold Identifier.nameFault? at hvalid
    rw [hname] at hvalid
    split at hvalid
    · simp at hvalid
    · split at hvalid
      · simp at hvalid
      · rename_i hnul
        simpa using hnul
  · simp at h

/-- No null character stands in the table's name of a schema that was built. -/
theorem SchemaBuilder.nul_notMem_table {b : SchemaBuilder} {s : Schema} (h : b.build = .ok s) :
    ∀ p ∈ s.table.parts, '\x00' ∉ p.name.toList := by
  obtain ⟨i, hi, hs⟩ := Except.bind_eq_ok_iff.1 h
  have htable : s.table = i := by
    split at hs
    · simp at hs
    · split at hs
      · simp at hs
      · split at hs
        · rw [← Except.ok.inj hs]
        · simp at hs
  rw [htable]
  exact Identifier.nul_notMem_of_parse hi

end StagedStore
