import StagedStore.Chunks

/-!
# Ranges of chunks

Where the chunks of a list start and end.  Together they hold every place of the list once and in
order, and all but the last have the same length.
-/

namespace StagedStore

variable {α β : Type}

/-- The part of a list in a range. -/
def slice (xs : List α) (r : Nat × Nat) : List α :=
  (xs.drop r.1).take (r.2 - r.1)

/-- The places that a range holds. -/
def places (r : Nat × Nat) : List Nat :=
  List.range' r.1 (r.2 - r.1)

/-- The ranges of chunks, the first of which starts at a place. -/
def rangesFrom (start : Nat) : List (List α) → List (Nat × Nat)
  | [] => []
  | c :: cs => (start, start + c.length) :: rangesFrom (start + c.length) cs

/-- A list cut into chunks of one length, the last perhaps shorter. -/
structure Chunked (size : Nat) (xs : List α) (ranges : List (Nat × Nat)) (chunks : List (List α)) :
    Prop where
  nonempty : ∀ r ∈ ranges, r.1 < r.2
  /-- One range after the other, each place of the list is held once. -/
  covers : ranges.flatMap places = List.range xs.length
  even : ∀ r ∈ ranges.dropLast, r.2 = r.1 + size
  bounded : ∀ r ∈ ranges, r.2 ≤ r.1 + size
  slices : chunks = ranges.map (slice xs)

variable {n start : Nat} {xs : List α} {chunks : List (List α)} {ranges : List (Nat × Nat)}

theorem Chunked.eq_nil_iff (h : Chunked n xs ranges chunks) : ranges = [] ↔ xs = [] := by
  constructor
  · rintro rfl
    exact List.length_eq_zero_iff.1 (List.range_eq_nil.1 h.covers.symm)
  · rintro rfl
    cases ranges with
    | nil => rfl
    | cons r ranges =>
        have hr := h.nonempty r List.mem_cons_self
        have hnone := (List.flatMap_eq_nil_iff.1 h.covers) r List.mem_cons_self
        rw [places, List.range'_eq_nil_iff] at hnone
        omega

theorem Chunked.length_slice (h : Chunked n xs ranges chunks) {r : Nat × Nat} (hr : r ∈ ranges) :
    (slice xs r).length = r.2 - r.1 := by
  have hlt := h.nonempty r hr
  have hmem : r.2 - 1 ∈ ranges.flatMap places := by
    refine List.mem_flatMap.2 ⟨r, hr, ?_⟩
    rw [places, List.mem_range'_1]
    omega
  rw [h.covers, List.mem_range] at hmem
  rw [slice, List.length_take, List.length_drop]
  omega

/-! ## Where chunks lie -/

theorem covers_rangesFrom (start : Nat) (chunks : List (List α)) :
    (rangesFrom start chunks).flatMap places = List.range' start chunks.flatten.length := by
  induction chunks generalizing start with
  | nil => rfl
  | cons c cs ih =>
      rw [rangesFrom, List.flatMap_cons, ih, places, Nat.add_sub_cancel_left,
        List.range'_append_1, List.flatten_cons, List.length_append]

theorem slices_rangesFrom (front : List α) (chunks : List (List α)) :
    (rangesFrom front.length chunks).map (slice (front ++ chunks.flatten)) = chunks := by
  induction chunks generalizing front with
  | nil => rfl
  | cons c cs ih =>
      have hrest := ih (front ++ c)
      rw [List.append_assoc, List.length_append] at hrest
      rw [rangesFrom, List.map_cons, List.flatten_cons, hrest, slice, Nat.add_sub_cancel_left,
        List.drop_left, List.take_left]

theorem exists_of_mem_rangesFrom {r : Nat × Nat} (h : r ∈ rangesFrom start chunks) :
    ∃ c ∈ chunks, r.2 = r.1 + c.length := by
  induction chunks generalizing start with
  | nil => cases h
  | cons c cs ih =>
      rcases List.mem_cons.1 h with rfl | h
      · exact ⟨c, List.mem_cons_self, rfl⟩
      · obtain ⟨d, hd, hr⟩ := ih h
        exact ⟨d, List.mem_cons_of_mem c hd, hr⟩

theorem rangesFrom_eq_nil_iff : rangesFrom start chunks = [] ↔ chunks = [] := by
  cases chunks <;> simp [rangesFrom]

theorem even_rangesFrom (start : Nat) (xs : List α) :
    ∀ r ∈ (rangesFrom start (chunksOf n xs)).dropLast, r.2 = r.1 + n := by
  induction xs using chunksOf.induct n generalizing start with
  | case1 xs h =>
      rw [chunksOf, if_pos h]
      simp [rangesFrom]
  | case2 xs h ih =>
      rw [chunksOf, if_neg h, rangesFrom]
      by_cases hrest : chunksOf n (xs.drop n) = []
      · simp [hrest, rangesFrom]
      -- a chunk that is not the last one is full
      have hfull : (xs.take n).length = n := by
        have hdrop : xs.drop n ≠ [] := fun hnil => hrest (by rw [hnil, chunksOf, if_pos (.inr rfl)])
        have hlt := List.length_pos_iff.2 hdrop
        rw [List.length_drop] at hlt
        rw [List.length_take]
        omega
      rw [List.dropLast_cons_of_ne_nil (mt rangesFrom_eq_nil_iff.1 hrest), List.forall_mem_cons]
      exact ⟨by rw [hfull], ih _⟩

/-- The chunks of a list lie in ranges. -/
theorem chunked_chunksOf (hn : n ≠ 0) (xs : List α) :
    Chunked n xs (rangesFrom 0 (chunksOf n xs)) (chunksOf n xs) where
  nonempty := by
    intro r hr
    obtain ⟨c, hc, hr⟩ := exists_of_mem_rangesFrom hr
    have hpos := List.length_pos_iff.2 (ne_nil_of_mem_chunksOf hc)
    omega
  covers := by rw [covers_rangesFrom, flatten_chunksOf n hn, List.range_eq_range']
  even := even_rangesFrom 0 xs
  bounded := by
    intro r hr
    obtain ⟨c, hc, hr⟩ := exists_of_mem_rangesFrom hr
    have hle := length_le_of_mem_chunksOf hc
    omega
  slices := by
    have hslices := slices_rangesFrom [] (chunksOf n xs)
    rw [List.nil_append, flatten_chunksOf n hn] at hslices
    exact hslices.symm

end StagedStore
