import Mathlib.Data.List.Induction
import StagedStore.Proofs.Keyed
import StagedStore.Store.Patch

/-!
# Changes call by call

Changes are built by calls, each of which says what happens to one field. The last call for a field
is the one that counts, and the fields stand in the order in which they were first mentioned.
-/

namespace StagedStore

/-! ## Names in the order of their first mention -/

theorem eraseDups_concat (xs : List String) (x : String) :
    (xs ++ [x]).eraseDups = if x ∈ xs then xs.eraseDups else xs.eraseDups ++ [x] := by
  rw [List.eraseDups_append]
  by_cases hx : x ∈ xs
  · have hnone : [x].removeAll xs = [] := by simp [List.removeAll, hx]
    simp [hx, hnone]
  · have hone : [x].removeAll xs = [x] := by simp [List.removeAll, hx]
    rw [if_neg hx, hone]
    rfl

theorem nodup_eraseDups (xs : List String) : xs.eraseDups.Nodup := by
  induction xs using List.reverseRecOn with
  | nil => exact .nil
  | append_singleton xs x ih =>
      rw [eraseDups_concat]
      split
      · exact ih
      · rename_i hx
        rw [← List.mem_eraseDups] at hx
        exact List.nodup_append_comm.1 (List.nodup_cons.2 ⟨hx, ih⟩)

theorem eraseDups_eq_nil {xs : List String} : xs.eraseDups = [] ↔ xs = [] := by
  cases xs with
  | nil => simp
  | cons x xs => simp [List.eraseDups_cons]

/-- Names that were mentioned among themselves before do not change the order. -/
theorem eraseDups_append_eraseDups (xs ys : List String) :
    (xs ++ ys.eraseDups).eraseDups = (xs ++ ys).eraseDups := by
  induction ys using List.reverseRecOn with
  | nil => rfl
  | append_singleton ys y ih =>
      rw [eraseDups_concat, ← List.append_assoc xs ys, eraseDups_concat, ← ih]
      by_cases hy : y ∈ ys
      · simp [hy]
      · rw [if_neg hy, ← List.append_assoc, eraseDups_concat]
        simp [List.mem_eraseDups]

/-- Names met one after the other, the last met first. -/
theorem foldl_met_eq (xs ys : List String) :
    ys.foldl (fun met n => if met.contains n then met else n :: met) xs.eraseDups.reverse =
      (xs ++ ys).eraseDups.reverse := by
  induction ys generalizing xs with
  | nil => rw [List.append_nil, List.foldl_nil]
  | cons y ys ih =>
      have hmet : (if xs.eraseDups.reverse.contains y then xs.eraseDups.reverse
          else y :: xs.eraseDups.reverse) = (xs ++ [y]).eraseDups.reverse := by
        rw [eraseDups_concat]
        by_cases hy : y ∈ xs <;> simp [hy]
      rw [List.foldl_cons, hmet, ih, List.append_assoc, List.singleton_append]

theorem eraseDups_append_congr {xs ys : List String} (h : xs.eraseDups = ys.eraseDups)
    (zs : List String) : (xs ++ zs).eraseDups = (ys ++ zs).eraseDups := by
  rw [← List.reverse_inj, ← foldl_met_eq, h, foldl_met_eq]

/-- Mentions that are told batch by batch, each batch without its repetitions. -/
theorem eraseDups_flatMap_eraseDups (xss : List (List String)) :
    (xss.flatMap List.eraseDups).eraseDups = xss.flatten.eraseDups := by
  have hbehind (before : List String) :
      (before ++ xss.flatMap List.eraseDups).eraseDups = (before ++ xss.flatten).eraseDups := by
    induction xss generalizing before with
    | nil => rfl
    | cons xs xss ih =>
        rw [List.flatMap_cons, List.flatten_cons, ← List.append_assoc, ← List.append_assoc, ih]
        exact eraseDups_append_congr (eraseDups_append_eraseDups before xs) xss.flatten
  exact hbehind []

namespace Changes

/-! ## Deltas of fields -/

theorem mem_of_get? {c : Changes} {name : String} {d : Delta} (h : c.get? name = some d) :
    (name, d) ∈ c.entries := by
  obtain ⟨before, behind, hentries, -⟩ := List.lookup_eq_some_iff.1 h
  rw [hentries]
  simp

theorem get?_of_mem {c : Changes} {d : String × Delta} (h : d ∈ c.entries) :
    c.get? d.1 = some d.2 := by
  obtain ⟨before, behind, hentries⟩ := List.append_of_mem h
  have hnodup := c.names_nodup
  rw [hentries, List.map_append, List.map_cons] at hnodup
  refine List.lookup_eq_some_iff.2 ⟨before, behind, hentries, fun x hx => bne_iff_ne.2 fun he => ?_⟩
  refine (List.nodup_append.1 hnodup).2.2 x.1 (List.mem_map_of_mem hx) d.1 List.mem_cons_self ?_
  exact he.symm

theorem get?_eq_none {c : Changes} {n : String} (h : n ∉ c.entries.map Prod.fst) :
    c.get? n = none := by
  refine List.lookup_eq_none_iff.2 fun d hd => bne_iff_ne.2 fun he => ?_
  exact h (he ▸ List.mem_map_of_mem hd)

theorem mem_incremented {c : Changes} {n : String} :
    n ∈ c.incremented ↔ ∃ v, (n, .increment v) ∈ c.entries := by
  unfold incremented
  rw [List.mem_filterMap]
  constructor
  · rintro ⟨⟨m, d⟩, hd, hm⟩
    cases d with
    | increment v =>
        obtain rfl := Option.some.inj hm
        exact ⟨v, hd⟩
    | _ => simp at hm
  · rintro ⟨v, hv⟩
    exact ⟨_, hv, rfl⟩

theorem nodup_incremented (c : Changes) : c.incremented.Nodup := by
  have hsub : c.incremented.Sublist (c.entries.map Prod.fst) := by
    unfold incremented
    induction c.entries with
    | nil => exact .slnil
    | cons d ds ih =>
        obtain ⟨n, d⟩ := d
        cases d with
        | increment v => exact ih.cons_cons n
        | _ => exact ih.cons n
  exact hsub.nodup c.names_nodup

/-! ## Calls -/

/-- The changes that calls build, one after the other. -/
def ofCalls (calls : List (String × Delta)) : Changes :=
  calls.foldl (fun c (field, d) => c.withDelta field d) .empty

theorem ofCalls_concat (calls : List (String × Delta)) (field : String) (d : Delta) :
    ofCalls (calls ++ [(field, d)]) = (ofCalls calls).withDelta field d := by
  rw [ofCalls, List.foldl_concat]
  rfl

theorem get?_withDelta (c : Changes) (field name : String) (d : Delta) :
    (c.withDelta field d).get? name = if name = field then some d else c.get? name := by
  unfold get?
  change (assign field d c.entries).lookup name = _
  induction c.entries with
  | nil => rw [assign, Keyed.lookup_cons_eq]
  | cons e es ih =>
      obtain ⟨n, e⟩ := e
      by_cases hn : n = field
      · subst hn
        rw [assign, if_pos rfl, Keyed.lookup_cons_eq, Keyed.lookup_cons_eq]
        split <;> rfl
      · rw [assign, if_neg hn, Keyed.lookup_cons_eq, Keyed.lookup_cons_eq, ih]
        by_cases h : name = n
        · rw [if_pos h, if_pos h, if_neg (h ▸ hn)]
        · rw [if_neg h, if_neg h]

/-- The last call for a field is what happens to it. -/
theorem get?_ofCalls (calls : List (String × Delta)) (name : String) :
    (ofCalls calls).get? name = calls.reverse.lookup name := by
  induction calls using List.reverseRecOn with
  | nil => rfl
  | append_singleton calls call ih =>
      obtain ⟨field, d⟩ := call
      rw [ofCalls_concat, get?_withDelta, ih, List.reverse_concat, Keyed.lookup_cons_eq]

/-- The fields stand in the order of their first call. -/
theorem map_fst_ofCalls (calls : List (String × Delta)) :
    (ofCalls calls).entries.map Prod.fst = (calls.map Prod.fst).eraseDups := by
  induction calls using List.reverseRecOn with
  | nil => rfl
  | append_singleton calls call ih =>
      obtain ⟨field, d⟩ := call
      rw [ofCalls_concat, List.map_append, List.map_singleton, eraseDups_concat, ← ih]
      change (assign field d (ofCalls calls).entries).map Prod.fst = _
      rw [map_fst_assign, ih]
      simp only [List.mem_eraseDups]

end Changes

end StagedStore
