import Mathlib.Data.List.Nodup
import StagedStore.Keyed

/-!
# Sorted fields

Fields under different names are sorted without loss, and fields that stand in order already stay as
they are.
-/

namespace StagedStore.Keyed

variable {α : Type} {n : String} {v : α} {fields : List (String × α)}

/-- Names that ascend. -/
def Sorted (fields : List (String × α)) : Prop :=
  (fields.map Prod.fst).Pairwise (· < ·)

theorem Sorted.nodup (h : Sorted fields) : (fields.map Prod.fst).Nodup := by
  refine h.imp fun {m n} hlt he => ?_
  rw [he] at hlt
  exact String.lt_irrefl n hlt

theorem fst_mem_insert {x : String × α} (hx : x ∈ insert n v fields) :
    x.1 = n ∨ x ∈ fields := by
  induction fields with
  | nil => exact .inl (congrArg Prod.fst (List.mem_singleton.1 hx))
  | cons f fields ih =>
      obtain ⟨m, w⟩ := f
      rw [insert] at hx
      split at hx
      · rcases List.mem_cons.1 hx with rfl | hx
        · exact .inl rfl
        · exact .inr hx
      · split at hx
        · rcases List.mem_cons.1 hx with rfl | hx
          · exact .inl rfl
          · exact .inr (List.mem_cons_of_mem _ hx)
        · rcases List.mem_cons.1 hx with rfl | hx
          · exact .inr List.mem_cons_self
          · exact (ih hx).imp_right (List.mem_cons_of_mem _)

theorem sorted_insert (h : Sorted fields) : Sorted (insert n v fields) := by
  induction fields with
  | nil => exact List.pairwise_singleton ..
  | cons f fields ih =>
      obtain ⟨m, w⟩ := f
      obtain ⟨hm, hrest⟩ := List.pairwise_cons.1 h
      rw [insert]
      split
      · rename_i hlt
        refine List.pairwise_cons.2 ⟨fun k hk => ?_, h⟩
        rcases List.mem_cons.1 hk with rfl | hk
        · exact hlt
        · exact String.lt_trans hlt (hm k hk)
      · rename_i hnlt
        split
        · rename_i heq
          exact heq ▸ h
        · rename_i hne
          refine List.pairwise_cons.2 ⟨fun k hk => ?_, ih hrest⟩
          obtain ⟨x, hx, rfl⟩ := List.mem_map.1 hk
          rcases fst_mem_insert hx with hx | hx
          · rw [hx]
            refine Decidable.byContradiction fun hmn => hne ?_
            exact String.le_antisymm (String.not_lt.1 hmn) (String.not_lt.1 hnlt)
          · exact hm x.1 (List.mem_map_of_mem hx)

theorem sorted_ofList (fields : List (String × α)) : Sorted (ofList fields) := by
  have hfoldl : ∀ (fields done : List (String × α)), Sorted done →
      Sorted (fields.foldl (fun r f => insert f.1 f.2 r) done) := by
    intro fields
    induction fields with
    | nil => exact fun _ h => h
    | cons f fields ih => exact fun done h => ih _ (sorted_insert h)
  exact hfoldl fields [] .nil

theorem lookup_cons_eq (name field : String) (d : α) (es : List (String × α)) :
    ((field, d) :: es).lookup name = if name = field then some d else es.lookup name := by
  rw [List.lookup_cons]
  by_cases h : name = field
  · simp [h]
  · rw [beq_eq_false_iff_ne.2 h, if_neg h]

theorem lookup_insert (n m : String) (v : α) (fields : List (String × α)) :
    (insert n v fields).lookup m = if m = n then some v else fields.lookup m := by
  induction fields with
  | nil => rw [insert, lookup_cons_eq]
  | cons f fields ih =>
      obtain ⟨l, w⟩ := f
      rw [insert]
      split
      · rw [lookup_cons_eq]
      · split
        · rename_i hn
          subst hn
          rw [lookup_cons_eq, lookup_cons_eq]
          split <;> rfl
        · rename_i hn
          rw [lookup_cons_eq, lookup_cons_eq, ih]
          by_cases h : m = l
          · have hne : m ≠ n := fun he => hn (he.symm.trans h)
            rw [if_pos h, if_neg hne, if_pos h]
          · rw [if_neg h, if_neg h]

/-- Under a new name a value is put beside the others. -/
theorem insert_perm (h : n ∉ fields.map Prod.fst) :
    (insert n v fields).Perm ((n, v) :: fields) := by
  induction fields with
  | nil => exact .refl _
  | cons f fields ih =>
      obtain ⟨m, w⟩ := f
      have hne : n ≠ m := fun he => h (he ▸ List.mem_cons_self)
      rw [insert, if_neg hne]
      split
      · exact .refl _
      · exact ((ih fun hin => h (List.mem_cons_of_mem _ hin)).cons (m, w)).trans (.swap ..)

/-- Values under different names are sorted without loss. -/
theorem ofList_perm (h : (fields.map Prod.fst).Nodup) : (ofList fields).Perm fields := by
  have hfoldl : ∀ (fields done : List (String × α)),
      ((done ++ fields).map Prod.fst).Nodup →
        (fields.foldl (fun r f => insert f.1 f.2 r) done).Perm (done ++ fields) := by
    intro fields
    induction fields with
    | nil => exact fun done _ => .of_eq (List.append_nil done).symm
    | cons f fields ih =>
        obtain ⟨n, v⟩ := f
        intro done hnodup
        have hmiddle : (done ++ (n, v) :: fields).Perm ((n, v) :: (done ++ fields)) :=
          List.perm_middle
        have hnodup' : (((n, v) :: (done ++ fields)).map Prod.fst).Nodup :=
          (hmiddle.map Prod.fst).nodup_iff.1 hnodup
        have hfresh : n ∉ done.map Prod.fst := fun hin => by
          refine (List.nodup_cons.1 hnodup').1 ?_
          rw [List.map_append]
          exact List.mem_append_left _ hin
        have hinsert : (insert n v done ++ fields).Perm ((n, v) :: (done ++ fields)) :=
          (insert_perm hfresh).append_right fields
        exact (ih _ ((hinsert.map Prod.fst).nodup_iff.2 hnodup')).trans
          (hinsert.trans hmiddle.symm)
  exact hfoldl fields [] h

/-- Behind smaller names a value is put at the end. -/
theorem insert_eq_append (h : ∀ m ∈ fields.map Prod.fst, m < n) :
    insert n v fields = fields ++ [(n, v)] := by
  induction fields with
  | nil => rfl
  | cons f fields ih =>
      obtain ⟨m, w⟩ := f
      obtain ⟨hm, hrest⟩ := List.forall_mem_cons.1 h
      have hne : n ≠ m := fun he => String.lt_irrefl _ (he ▸ hm)
      rw [insert, if_neg (String.lt_asymm hm), if_neg hne, ih hrest, List.cons_append]

end StagedStore.Keyed
