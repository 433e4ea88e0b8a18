import StagedStore.Proofs.Memory.Cells
import StagedStore.Schema.Codec

/-!
# Whole numbers in integer fields

An integer field reads the number of 64 bits that is nearest to the whole number in a cell. This is the
number of the cell itself as long as it has 64 bits, and a bound otherwise.
-/

namespace StagedStore

theorem toInt_clampInt64 (n : Int) :
    (clampInt64 n).toInt = max Int64.minValue.toInt (min n Int64.maxValue.toInt) := by
  have hmin : Int64.minValue.toInt = -2 ^ 63 := by decide
  have hmax : Int64.maxValue.toInt = 2 ^ 63 - 1 := by decide
  unfold clampInt64
  split
  · omega
  · split
    · omega
    · rw [Int64.toInt_ofInt_of_le (by omega) (by omega)]
      omega

theorem toInt_clampInt64_eq_iff {n : Int} : (clampInt64 n).toInt = n ↔ fitsInt64 n = true := by
  have hbounds : Int64.minValue.toInt ≤ Int64.maxValue.toInt := by decide
  rw [toInt_clampInt64, fitsInt64, Bool.and_eq_true, decide_eq_true_iff, decide_eq_true_iff]
  omega

theorem clampInt64_toInt (n : Int64) : clampInt64 n.toInt = n := by
  refine Int64.toInt_inj.1 (toInt_clampInt64_eq_iff.2 ?_)
  rw [fitsInt64, Bool.and_eq_true, decide_eq_true_iff, decide_eq_true_iff]
  exact ⟨Int64.minValue_le_toInt n, Int64.toInt_le n⟩

namespace Storage

/-- The whole number in a cell, if there is one. -/
def wholeNumber? : Storage → Option Int
  | .integer n => some n.toInt
  | .real x => x.toInt?
  | _ => none

variable {w : Storage} {n : Int}

/-- A cell compares as equal to an integer if this is its whole number. -/
theorem cmp_integer_eq_iff {m : Int64} : w.cmp (.integer m) = .eq ↔ w.wholeNumber? = some m.toInt := by
  cases w with
  | integer k =>
      rw [cmp, Int.compare_eq_eq]
      exact Option.some_inj.symm
  | real x =>
      rw [cmp]
      exact ⟨toInt?_of_compareInt, compareInt_of_toInt?⟩
  | _ => simp [cmp, rank, wholeNumber?, compare, compareOfLessAndEq]

/-- The nearest number of 64 bits is the number of the cell if that has 64 bits. -/
theorem cmp_clampInt64_iff (h : w.wholeNumber? = some n) :
    w.cmp (.integer (clampInt64 n)) = .eq ↔ fitsInt64 n = true := by
  rw [cmp_integer_eq_iff, h, Option.some_inj, eq_comm, toInt_clampInt64_eq_iff]

/-- What an integer field reads from a cell: null from null, and from a whole number the nearest
number of 64 bits. -/
def ReadsAs (w : Storage) (v : Value) : Prop :=
  w = .null ∧ v = .null ∨ ∃ n, w.wholeNumber? = some n ∧ v = .integer (clampInt64 n)

end Storage

namespace Field

variable {f : Field} {w : Storage} {v : Value}

theorem decode_eq_error (hkind : f.kind = .integer) (hnull : w.isNull = false)
    (h : w.wholeNumber? = none) :
    f.decode w = .error (.decode f.name (.mismatch .integer w.className)) := by
  obtain ⟨name, kind, nullable⟩ := f
  cases hkind
  cases w with
  | null => cases hnull
  | integer n => cases h
  | real x =>
      change x.toInt? = none at h
      simp only [decode, h]
  | _ => rfl

theorem decode_eq_ok_iff (hkind : f.kind = .integer) : f.decode w = .ok v ↔ w.ReadsAs v := by
  obtain ⟨name, kind, nullable⟩ := f
  cases hkind
  cases hw : w.wholeNumber? with
  | none =>
      cases hnull : w.isNull with
      | true =>
          obtain rfl : w = .null := by cases w <;> first | rfl | cases hnull
          simp [decode, Storage.ReadsAs, Storage.wholeNumber?, eq_comm]
      | false =>
          rw [decode_eq_error rfl hnull hw]
          refine iff_of_false (by simp) ?_
          rintro (⟨rfl, -⟩ | ⟨n, hn, -⟩)
          · cases hnull
          · rw [hw] at hn
            cases hn
  | some n =>
      have hdecode : decode ⟨name, .integer, nullable⟩ w = .ok (.integer (clampInt64 n)) := by
        cases w with
        | integer k =>
            obtain rfl : k.toInt = n := Option.some.inj hw
            rw [clampInt64_toInt]
            rfl
        | real x =>
            change x.toInt? = some n at hw
            simp only [decode, hw]
        | _ => cases hw
      have hne : w ≠ .null := by
        rintro rfl
        cases hw
      simp [hdecode, Storage.ReadsAs, hw, hne, eq_comm]

end Field

end StagedStore
