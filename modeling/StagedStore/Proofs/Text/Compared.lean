import Mathlib.Data.Char
import Mathlib.Order.Compare
import StagedStore.Proofs.Digits

/-!
# Texts in order

Texts stand as the first of their characters that differ, and texts of ASCII characters as the first
of their bytes that do. Digits stand as the numbers that they stand for, if they are as many.
-/

namespace StagedStore

/-! ## One comparison behind another -/

section Then

variable {α : Type} [LinearOrder α] {a b : α} {o p : Ordering}

/-- A first comparison decides, and a second one where both sides are equal. -/
theorem compare_then (hlt : a < b → p = .lt) (hgt : b < a → p = .gt) (heq : a = b → o = p) :
    (compare a b).then o = p := by
  rcases lt_trichotomy a b with h | h | h
  · rw [compare_lt_iff_lt.2 h, hlt h]
    rfl
  · rw [compare_eq_iff_eq.2 h, heq h]
    rfl
  · rw [compare_gt_iff_gt.2 h, hgt h]
    rfl

theorem compare_eq_of (hlt : a < b → p = .lt) (hgt : b < a → p = .gt) (heq : a = b → p = .eq) :
    compare a b = p := by
  rw [← @Ordering.then_eq (compare a b)]
  exact compare_then hlt hgt fun h => (heq h).symm

end Then

/-- A number and a digit behind it. -/
theorem compare_digit {k m n i j : Nat} (hi : i < k) (hj : j < k) :
    (compare m n).then (compare i j) = compare (k * m + i) (k * n + j) := by
  refine compare_then (fun h => compare_lt_iff_lt.2 ?_) (fun h => compare_gt_iff_gt.2 ?_) ?_
  · have hle : k * (m + 1) ≤ k * n := Nat.mul_le_mul_left k h
    rw [Nat.mul_succ] at hle
    omega
  · have hle : k * (n + 1) ≤ k * m := Nat.mul_le_mul_left k h
    rw [Nat.mul_succ] at hle
    omega
  · rintro rfl
    exact compare_eq_of (fun h => compare_lt_iff_lt.2 (by omega))
      (fun h => compare_gt_iff_gt.2 (by omega)) fun h => compare_eq_iff_eq.2 (by omega)

/-! ## Lists -/

section Lists

variable {α β : Type} [Ord α] [Ord β]

theorem compare_append {as bs : List α} (h : as.length = bs.length) (cs ds : List α) :
    compare (as ++ cs) (bs ++ ds) = (compare as bs).then (compare cs ds) := by
  induction as generalizing bs with
  | nil =>
      obtain rfl := List.length_eq_zero_iff.1 h.symm
      rfl
  | cons a as ih =>
      cases bs with
      | nil => cases h
      | cons b bs =>
          have hrest := ih (Nat.succ.inj h)
          simp only [List.cons_append, List.compare_cons_cons, hrest, Ordering.then_assoc]

theorem compare_map {f : α → β} {as bs : List α}
    (h : ∀ a ∈ as, ∀ b ∈ bs, compare (f a) (f b) = compare a b) :
    compare (as.map f) (bs.map f) = compare as bs := by
  induction as generalizing bs with
  | nil => cases bs <;> rfl
  | cons a as ih =>
      cases bs with
      | nil => rfl
      | cons b bs =>
          have hhead := h a (List.mem_cons_self ..) b (List.mem_cons_self ..)
          have hrest := ih fun x hx y hy =>
            h x (List.mem_cons_of_mem _ hx) y (List.mem_cons_of_mem _ hy)
          rw [List.map_cons, List.map_cons, List.compare_cons_cons, List.compare_cons_cons, hhead,
            hrest]

end Lists

/-! ## Characters and bytes -/

theorem compare_eq_lt_iff {cs ds : List Char} : compare cs ds = .lt ↔ cs < ds := by
  induction cs generalizing ds with
  | nil => cases ds <;> simp
  | cons c cs ih =>
      cases ds with
      | nil => simp
      | cons d ds =>
          rw [List.compare_cons_cons, Ordering.then_eq_lt, ih, compare_lt_iff_lt,
            compare_eq_iff_eq, List.cons_lt_cons_iff]

theorem compare_ofList (cs ds : List Char) :
    compare (String.ofList cs) (String.ofList ds) = compare cs ds := by
  have hlt : String.ofList cs < String.ofList ds ↔ compare cs ds = .lt := by
    rw [String.lt_iff, String.toList_ofList, String.toList_ofList, compare_eq_lt_iff]
  have heq : String.ofList cs = String.ofList ds ↔ compare cs ds = .eq := by
    rw [Std.compare_eq_iff_eq]
    exact String.ofList_inj
  change compareOfLessAndEq (String.ofList cs) (String.ofList ds) = _
  unfold compareOfLessAndEq
  simp only [hlt, heq]
  cases compare cs ds <;> rfl

theorem compare_toNat (c d : Char) : compare c.toNat d.toNat = compare c d := by
  refine compare_eq_of (fun h => (compare_lt_iff_lt (α := Char)).2 ?_)
    (fun h => (compare_gt_iff_gt (α := Char)).2 ?_) fun h => (compare_eq_iff_eq (α := Char)).2 ?_
  · exact Char.lt_def.2 (UInt32.lt_iff_toNat_lt.2 h)
  · exact Char.lt_def.2 (UInt32.lt_iff_toNat_lt.2 h)
  · exact Char.toNat_inj.1 h

/-- The bytes of a text. -/
def utf8Bytes (s : String) : List UInt8 :=
  s.toUTF8.data.toList

/-- The character takes one byte. -/
def IsAscii (c : Char) : Prop :=
  c.toNat < 128

instance (c : Char) : Decidable (IsAscii c) :=
  inferInstanceAs (Decidable (_ < _))

theorem isAscii_of_isDigit {c : Char} (h : c.isDigit = true) : IsAscii c := by
  have hc : '0'.toNat ≤ c.toNat ∧ c.toNat ≤ '0'.toNat + 9 := Char.isDigit_iff_toNat.1 h
  exact Nat.lt_of_le_of_lt hc.2 (by decide)

theorem utf8Bytes_ofList {cs : List Char} (h : ∀ c ∈ cs, IsAscii c) :
    utf8Bytes (String.ofList cs) = cs.map fun c => c.val.toUInt8 := by
  have hbytes : cs.flatMap String.utf8EncodeChar = cs.map fun c => c.val.toUInt8 := by
    induction cs with
    | nil => rfl
    | cons c cs ih =>
        have hsize : c.utf8Size = 1 := by
          rw [Char.utf8Size_eq_one_iff, UInt32.le_iff_toNat_le]
          exact Nat.le_of_lt_succ (h c (List.mem_cons_self ..))
        rw [List.flatMap_cons, List.map_cons, String.utf8EncodeChar_eq_singleton hsize,
          ih fun d hd => h d (List.mem_cons_of_mem _ hd)]
        rfl
  rw [utf8Bytes, String.toUTF8_eq_toByteArray, String.toByteArray_ofList, List.utf8Encode, hbytes]
  exact List.toList_data_toByteArray

theorem compare_toUInt8 {c d : Char} (hc : IsAscii c) (hd : IsAscii d) :
    compare c.val.toUInt8 d.val.toUInt8 = compare c d := by
  have hnat {e : Char} (he : IsAscii e) : e.val.toUInt8.toNat = e.toNat := by
    rw [UInt32.toNat_toUInt8]
    exact Nat.mod_eq_of_lt (Nat.lt_trans he (by decide))
  rw [UInt8.compare_eq_toNat_compare_toNat, hnat hc, hnat hd, compare_toNat]

/-- Texts of ASCII characters stand as their bytes do. -/
theorem compare_utf8Bytes {cs ds : List Char} (hcs : ∀ c ∈ cs, IsAscii c)
    (hds : ∀ c ∈ ds, IsAscii c) :
    compare (utf8Bytes (String.ofList cs)) (utf8Bytes (String.ofList ds)) =
      compare (String.ofList cs) (String.ofList ds) := by
  rw [utf8Bytes_ofList hcs, utf8Bytes_ofList hds, compare_ofList]
  exact compare_map fun c hc d hd => compare_toUInt8 (hcs c hc) (hds d hd)

/-! ## Digits -/

theorem compare_digits {ds es : List Char} (hds : ∀ c ∈ ds, c.isDigit = true)
    (hes : ∀ c ∈ es, c.isDigit = true) (hlength : ds.length = es.length) :
    compare ds es = compare (digitsValue ds) (digitsValue es) := by
  induction ds using List.reverseRecOn generalizing es with
  | nil =>
      obtain rfl := List.length_eq_zero_iff.1 hlength.symm
      rfl
  | append_singleton ds c ih =>
      cases es using List.reverseRecOn with
      | nil => simp at hlength
      | append_singleton es d =>
          have hc : '0'.toNat ≤ c.toNat ∧ c.toNat ≤ '0'.toNat + 9 :=
            Char.isDigit_iff_toNat.1 (hds c (by simp))
          have hd : '0'.toNat ≤ d.toNat ∧ d.toNat ≤ '0'.toNat + 9 :=
            Char.isDigit_iff_toNat.1 (hes d (by simp))
          have hinit : ds.length = es.length := by simpa using hlength
          have hfirst := ih (fun x hx => hds x (List.mem_append_left _ hx))
            (fun x hx => hes x (List.mem_append_left _ hx)) hinit
          have hlast : compare [c] [d] =
              compare (c.toNat - '0'.toNat) (d.toNat - '0'.toNat) := by
            rw [List.compare_cons_cons, Std.compare_self, Ordering.then_eq, ← compare_toNat]
            exact compare_eq_of (fun h => compare_lt_iff_lt.2 (by omega))
              (fun h => compare_gt_iff_gt.2 (by omega)) fun h => compare_eq_iff_eq.2 (by rw [h])
          rw [compare_append hinit, hfirst, hlast, digitsValue_concat, digitsValue_concat]
          exact compare_digit (by omega) (by omega)

end StagedStore
