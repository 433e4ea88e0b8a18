import StagedStore.Proofs.Recovery.Memory
import StagedStore.Proofs.Recovery.NoTrace

/-!
# Failed removals

A removal runs a transaction for each chunk of keys. When it ends in an error the chunks before the
failing one are removed and nothing else has happened; a removal of one chunk leaves no trace.
-/

namespace StagedStore

theorem chunksOf_take {α : Type} {n : Nat} (hn : n ≠ 0) (k : Nat) (xs : List α) :
    chunksOf n (xs.take (k * n)) = (chunksOf n xs).take k := by
  induction k generalizing xs with
  | zero =>
      rw [Nat.zero_mul, List.take_zero, List.take_zero, chunksOf, if_pos (.inr rfl)]
  | succ k ih =>
      cases xs with
      | nil => rw [List.take_nil, chunksOf, if_pos (.inr rfl), List.take_nil]
      | cons x xs =>
          have hsize : (k + 1) * n = n + k * n := by rw [Nat.succ_mul, Nat.add_comm]
          have hne : ¬(n = 0 ∨ x :: xs = []) := by simp [hn]
          have hne' : ¬(n = 0 ∨ (x :: xs).take (n + k * n) = []) := by simp [hn]
          rw [hsize, chunksOf.eq_def n (x :: xs), if_neg hne, List.take_succ_cons, ← ih, chunksOf,
            if_neg hne', List.take_take, Nat.min_eq_left (Nat.le_add_right ..), List.drop_take,
            Nat.add_sub_cancel_left]

theorem mul_lt_of_lt_length_chunksOf {α : Type} {n k : Nat} (hn : n ≠ 0) {xs : List α}
    (h : k < (chunksOf n xs).length) : k * n < xs.length := by
  by_contra hle
  have hall := chunksOf_take hn k xs
  rw [List.take_of_length_le (Nat.not_lt.1 hle)] at hall
  have hlength := congrArg List.length hall
  rw [List.length_take] at hlength
  omega

section Chunks

variable {δ τ ε : Type} [Database δ] [Entity ε] {R : Recovery δ τ} {s : Schema}
  {t : StagingTable} {p p' : Pool δ} {e : Error}

/-- Each chunk before the failing one is removed. -/
theorem removeChunks_error {chunks : List (List Value)} {done : Deleted}
    (h : outcome (Pool.removeChunks s t done chunks) p = (.error e, p')) :
    ∃ k < chunks.length, ∃ d p₁,
      outcome (Pool.removeChunks s t done (chunks.take k)) p = (.ok d, p₁) ∧
        Untouched R.toSnapshots p₁ p' := by
  induction chunks generalizing p done with
  | nil => exact absurd (congrArg Prod.fst h) (by simp [Pool.removeChunks])
  | cons keys rest ih =>
      rw [Pool.removeChunks] at h
      rcases Action.outcome_bind_eq_error_iff.1 h with h | ⟨⟨q, params⟩, p₁, hq, h⟩
      · obtain ⟨-, rfl⟩ := Prod.mk.inj h
        exact ⟨0, Nat.zero_lt_succ _, done, _, rfl, .refl _ _⟩
      · have hpool := hq
        obtain ⟨-, rfl⟩ := Prod.mk.inj hq
        rcases Action.outcome_bind_eq_error_iff.1 h with h | ⟨part, p₂, hpart, h⟩
        · exact ⟨0, Nat.zero_lt_succ _, done, _, rfl,
            untouched_of_transaction_error (fresh_deleteSelected t s q params).ordinary h⟩
        · obtain ⟨k, hk, d, p₃, hrun, hsame⟩ := ih h
          refine ⟨k + 1, Nat.succ_lt_succ hk, d, p₃, ?_, hsame⟩
          rw [List.take_succ_cons, Pool.removeChunks]
          exact Action.outcome_bind_eq_ok_iff.2 ⟨_, _, hpool,
            Action.outcome_bind_eq_ok_iff.2 ⟨part, p₂, hpart, hrun⟩⟩

theorem keysOf_take {items : List ε} {keys : List Value} (h : keysOf s items = .ok keys)
    (n : Nat) : keysOf s (items.take n) = .ok (keys.take n) :=
  Except.mapM_eq_ok_iff.2 (List.forall₂_take n (Except.mapM_eq_ok_iff.1 h))

theorem removed_of_keysOf {items : List ε} {keys : List Value} (h : keysOf s items = .ok keys) :
    outcome (Pool.remove s t items) p =
      outcome (Pool.removeChunks s t .none (chunksOf Plan.maxParams keys)) p := by
  rw [Pool.remove, h]
  rfl

theorem remove_nil : outcome (Pool.remove s t ([] : List ε)) p = (.ok .none, p) := by
  have hkeys : keysOf s ([] : List ε) = .ok [] := rfl
  rw [removed_of_keysOf hkeys, chunksOf, if_pos (.inr rfl)]
  rfl

/-- A removal that ends in an error has removed some whole chunks of items before the failing one,
and nothing else; a removal of no more than one chunk leaves no trace. -/
theorem removal_stops_between_chunks (R : Recovery δ τ) {items : List ε}
    (h : outcome (Pool.remove s t items) p = (.error e, p')) :
    (∃ k d p₁, k * Plan.maxParams < items.length ∧
      outcome (Pool.remove s t (items.take (k * Plan.maxParams))) p = (.ok d, p₁) ∧
        Untouched R.toSnapshots p₁ p') ∧
    (items.length ≤ Plan.maxParams → Untouched R.toSnapshots p p') := by
  suffices hstop : ∃ k d p₁, k * Plan.maxParams < items.length ∧
      outcome (Pool.remove s t (items.take (k * Plan.maxParams))) p = (.ok d, p₁) ∧
        Untouched R.toSnapshots p₁ p' by
    refine ⟨hstop, fun hone => ?_⟩
    obtain ⟨k, d, p₁, hk, hrun, hsame⟩ := hstop
    obtain rfl : k = 0 := by
      simp only [Plan.maxParams] at hk hone
      omega
    rw [Nat.zero_mul, List.take_zero, remove_nil] at hrun
    obtain ⟨-, rfl⟩ := Prod.mk.inj hrun
    exact hsame
  cases hkeys : keysOf s items with
  | error e' =>
      have hlength : 0 < items.length := by
        refine List.length_pos_iff.2 ?_
        rintro rfl
        simp [keysOf] at hkeys
      have hsame : p' = p := by
        rw [Pool.remove, hkeys] at h
        exact (Prod.mk.inj h).2.symm
      refine ⟨0, .none, p, by rwa [Nat.zero_mul], ?_, hsame ▸ .refl _ _⟩
      rw [Nat.zero_mul, List.take_zero, remove_nil]
  | ok keys =>
      have hlength : items.length = keys.length := (Except.mapM_eq_ok_iff.1 hkeys).length_eq
      rw [removed_of_keysOf hkeys] at h
      obtain ⟨k, hk, d, p₁, hrun, hsame⟩ := removeChunks_error (R := R) h
      refine ⟨k, d, p₁, ?_, ?_, hsame⟩
      · rw [hlength]
        exact mul_lt_of_lt_length_chunksOf (by decide) hk
      · rw [removed_of_keysOf (keysOf_take hkeys _), chunksOf_take (by decide)]
        exact hrun

end Chunks

theorem Leftover.remove_fails :
    (outcome (Pool.remove schema staging [item]) pool).1 = .error missing :=
  eq_of_isMissing (by with_unfolding_all decide)

open Leftover in
/-- The removal of one item meets the missing table. -/
theorem removal_stops_of_missing_table :
    let removed := outcome (Pool.remove schema staging [item]) pool
    removed.1 = .error missing ∧
      Untouched MemoryDatabase.recovery.toSnapshots pool removed.2 := by
  intro removed
  have main := @removal_stops_between_chunks _ _ _ _ _ schema staging pool _ _
    MemoryDatabase.recovery [item] (Prod.ext remove_fails rfl)
  exact ⟨remove_fails, main.2 (by decide)⟩

end StagedStore
