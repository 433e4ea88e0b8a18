/-!
# Chunks

A list cut into pieces of at most a given length.
-/

namespace StagedStore

variable {α : Type}

/-- Pieces of `n` elements, the last perhaps shorter; no pieces when `n` is zero. -/
def chunksOf (n : Nat) (xs : List α) : List (List α) :=
  if n = 0 ∨ xs = [] then [] else xs.take n :: chunksOf n (xs.drop n)
termination_by xs.length
decreasing_by
  rename_i h
  have : xs.length ≠ 0 := fun e => h (.inr (List.length_eq_zero_iff.1 e))
  simp only [List.length_drop]
  omega

/-- Nothing is lost and the order stays. -/
theorem flatten_chunksOf (n : Nat) (hn : n ≠ 0) (xs : List α) : (chunksOf n xs).flatten = xs := by
  induction xs using chunksOf.induct n with
  | case1 xs h =>
    rw [chunksOf, if_pos h]
    simp_all
  | case2 xs h ih => rw [chunksOf, if_neg h, List.flatten_cons, ih, List.take_append_drop]

theorem length_le_of_mem_chunksOf {n : Nat} {xs c : List α} (h : c ∈ chunksOf n xs) :
    c.length ≤ n := by
  induction xs using chunksOf.induct n with
  | case1 xs hx =>
    rw [chunksOf, if_pos hx] at h
    simp at h
  | case2 xs hx ih =>
    rw [chunksOf, if_neg hx] at h
    rcases List.mem_cons.1 h with rfl | h
    · simp only [List.length_take]
      omega
    · exact ih h

theorem ne_nil_of_mem_chunksOf {n : Nat} {xs c : List α} (h : c ∈ chunksOf n xs) : c ≠ [] := by
  induction xs using chunksOf.induct n with
  | case1 xs hx =>
    rw [chunksOf, if_pos hx] at h
    simp at h
  | case2 xs hx ih =>
    rw [not_or] at hx
    rw [chunksOf, if_neg (not_or.2 hx)] at h
    rcases List.mem_cons.1 h with rfl | h
    · rw [ne_eq, List.take_eq_nil_iff, not_or]
      exact hx
    · exact ih h

end StagedStore
