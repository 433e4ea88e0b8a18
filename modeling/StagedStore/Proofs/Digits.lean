import Mathlib.Data.List.Induction
import Mathlib.Tactic.Ring
import StagedStore.Decimal.Reader

/-!
# Decimal digits

The digits of a number stand for it, and so do they behind zeros. Digits that stand for the same
number are the same if they are as many.
-/

namespace StagedStore

theorem takeWhile_digits_append {ds r : List Char} (hds : ∀ c ∈ ds, c.isDigit = true)
    (hr : ∀ c ∈ r.head?, c.isDigit = false) :
    (ds ++ r).takeWhile Char.isDigit = ds ∧ (ds ++ r).dropWhile Char.isDigit = r := by
  have hrest : r.takeWhile Char.isDigit = [] ∧ r.dropWhile Char.isDigit = r := by
    cases r with
    | nil => exact ⟨rfl, rfl⟩
    | cons c r => simp [hr c rfl]
  rw [List.takeWhile_append_of_pos hds, List.dropWhile_append_of_pos hds, hrest.1, hrest.2]
  exact ⟨List.append_nil _, rfl⟩

theorem isDigit_of_mem_toDigits {n : Nat} {c : Char} (hc : c ∈ Nat.toDigits 10 n) :
    c.isDigit = true :=
  Nat.isDigit_of_mem_toDigits (by decide) (by decide) hc

theorem toLower_of_isDigit {c : Char} (h : c.isDigit = true) : c.toLower = c := by
  have hc : ¬(c.val ≥ 'A'.val ∧ c.val ≤ 'Z'.val) := by
    intro hu
    simp only [Char.isDigit, Bool.and_eq_true, decide_eq_true_eq] at h
    have hle := h.2
    have hge := hu.1
    simp only [ge_iff_le, UInt32.le_iff_toNat_le] at hle hge
    have : 'A'.val.toNat = 65 ∧ '9'.val.toNat = 57 := by decide
    omega
  unfold Char.toLower
  rw [dif_neg hc]

theorem takeWhile_digits {n : Nat} {r : List Char} (hr : ∀ c ∈ r.head?, c.isDigit = false) :
    (Nat.toDigits 10 n ++ r).takeWhile Char.isDigit = Nat.toDigits 10 n ∧
      (Nat.toDigits 10 n ++ r).dropWhile Char.isDigit = r :=
  takeWhile_digits_append (fun _ => isDigit_of_mem_toDigits) hr

theorem digitsValue_toDigits (n : Nat) : digitsValue (Nat.toDigits 10 n) = n := by
  have h : Nat.ofDigitChars 10 (Nat.toDigits 10 n) 0 = n := Nat.ofDigitChars_ten_toDigits
  rwa [Nat.ofDigitChars_eq_foldl] at h

theorem notMem_toDigits {n : Nat} {c : Char} (hc : c.isDigit = false) : c ∉ Nat.toDigits 10 n := by
  intro hin
  rw [isDigit_of_mem_toDigits hin] at hc
  exact Bool.noConfusion hc

theorem digitsValue_concat (ds : List Char) (c : Char) :
    digitsValue (ds ++ [c]) = 10 * digitsValue ds + (c.toNat - '0'.toNat) := by
  rw [digitsValue, List.foldl_append]
  rfl

theorem digitsValue_append (ds es : List Char) :
    digitsValue (ds ++ es) = digitsValue ds * 10 ^ es.length + digitsValue es := by
  induction es using List.reverseRecOn with
  | nil => simp [digitsValue]
  | append_singleton es c ih =>
      rw [← List.append_assoc, digitsValue_concat, ih, digitsValue_concat, List.length_append,
        List.length_singleton, Nat.pow_succ]
      ring

theorem digitsValue_zeros (n : Nat) : digitsValue (List.replicate n '0') = 0 := by
  induction n with
  | zero => rfl
  | succ n ih => rw [List.replicate_succ', digitsValue_concat, ih]; rfl

theorem digitsValue_lt {ds : List Char} (h : ∀ c ∈ ds, c.isDigit = true) :
    digitsValue ds < 10 ^ ds.length := by
  induction ds using List.reverseRecOn with
  | nil => simp [digitsValue]
  | append_singleton ds c ih =>
      have hds := ih fun d hd => h d (List.mem_append_left _ hd)
      have hc : '0'.toNat ≤ c.toNat ∧ c.toNat ≤ '0'.toNat + 9 :=
        Char.isDigit_iff_toNat.1 (h c (by simp))
      rw [digitsValue_concat, List.length_append, List.length_singleton, Nat.pow_succ]
      omega

/-- Digits are known by their count and the number they stand for. -/
theorem eq_of_digitsValue_eq {ds es : List Char} (hds : ∀ c ∈ ds, c.isDigit = true)
    (hes : ∀ c ∈ es, c.isDigit = true) (hlength : ds.length = es.length)
    (hvalue : digitsValue ds = digitsValue es) : ds = es := by
  induction ds using List.reverseRecOn generalizing es with
  | nil => exact (List.length_eq_zero_iff.1 hlength.symm).symm
  | append_singleton ds c ih =>
      cases es using List.reverseRecOn with
      | nil => simp at hlength
      | append_singleton es d =>
          have hc : '0'.toNat ≤ c.toNat ∧ c.toNat ≤ '0'.toNat + 9 :=
            Char.isDigit_iff_toNat.1 (hds c (by simp))
          have hd : '0'.toNat ≤ d.toNat ∧ d.toNat ≤ '0'.toNat + 9 :=
            Char.isDigit_iff_toNat.1 (hes d (by simp))
          rw [digitsValue_concat, digitsValue_concat] at hvalue
          have hlast : c.toNat = d.toNat := by omega
          have hfirst : ds = es := by
            refine ih (fun x hx => hds x (List.mem_append_left _ hx))
              (fun x hx => hes x (List.mem_append_left _ hx)) ?_ (by omega)
            simpa using hlength
          rw [hfirst, Char.toNat_inj.1 hlast]

end StagedStore
