import StagedStore.Json.Reader
import StagedStore.Proofs.Digits
import StagedStore.Proofs.Keyed

/-!
# Documents as texts

The compact text of a document is read as this document, if its numbers are integers of 64 bits, its
objects are sorted and not too many arrays and objects stand inside one another.
-/

namespace StagedStore.Json

mutual

/-- At most so many arrays and objects stand inside one another, the numbers are integers of 64
bits, signed or not, and the fields of each object are sorted by name. -/
def Within : Nat → Json → Prop
  | _, .null => True
  | _, .bool _ => True
  | _, .integer n => Int64.minValue.toInt ≤ n ∧ n < UInt64.size
  | _, .real _ => False
  | _, .text _ => True
  | 0, .array _ => False
  | depth + 1, .array items => AllWithin depth items
  | 0, .object _ => False
  | depth + 1, .object fields => Keyed.Sorted fields ∧ FieldsWithin depth fields

def AllWithin : Nat → List Json → Prop
  | _, [] => True
  | depth, j :: js => Within depth j ∧ AllWithin depth js

def FieldsWithin : Nat → List (String × Json) → Prop
  | _, [] => True
  | depth, (_, v) :: fs => Within depth v ∧ FieldsWithin depth fs

end

/-- What may stand behind a value. -/
def Ends (r : List Char) : Prop :=
  ∀ c ∈ r.head?, c = ',' ∨ c = ']' ∨ c = '\x7d'

/-! ## Strings -/

theorem readUnit?_control {n : Nat} (hn : n < 32) :
    ∃ a b c d, List.replicate (4 - (Nat.toDigits 16 n).length) '0' ++ Nat.toDigits 16 n =
      [a, b, c, d] ∧ readUnit? a b c d = some n := by
  have hall : ∀ n : Fin 32, ∃ a b c d : Char, List.replicate
      (4 - (Nat.toDigits 16 n.val).length) '0' ++ Nat.toDigits 16 n.val = [a, b, c, d] ∧
        readUnit? a b c d = some n.val := by
    intro n
    refine ⟨'0', '0', Hex.digit false (n.val / 16), Hex.digit false (n.val % 16), ?_⟩
    revert n
    decide
  exact hall ⟨n, hn⟩

/-- A character is read from what it is written as. -/
theorem readString?_escapeChar (c : Char) (r : List Char) :
    readString? (escapeChar c ++ r) = (readString? r).map fun (s, r') => (c :: s, r') := by
  by_cases hletter : c ∈ ['"', '\\', '\x08', '\t', '\n', '\x0c', '\r']
  · simp only [List.mem_cons, List.not_mem_nil, or_false] at hletter
    rcases hletter with rfl | rfl | rfl | rfl | rfl | rfl | rfl <;> rfl
  · simp only [List.mem_cons, List.not_mem_nil, or_false, not_or] at hletter
    obtain ⟨hquote, hbackslash, h8, ht, hn, hf, hr⟩ := hletter
    unfold escapeChar
    rw [if_neg hquote, if_neg hbackslash, if_neg h8, if_neg ht, if_neg hn, if_neg hf, if_neg hr]
    split
    · rename_i hcontrol
      obtain ⟨a, b, x, d, hdigits, hunit⟩ := readUnit?_control hcontrol
      dsimp only
      rw [hdigits, List.cons_append, List.cons_append, List.cons_append, List.cons_append,
        List.cons_append, List.cons_append, List.nil_append, readString?, hunit]
      dsimp only
      rw [if_pos (by omega), Char.ofNat_toNat]
    · rename_i hprintable
      rw [List.singleton_append, readString?.eq_def]
      split <;> simp_all

theorem readString?_escaped (s r : List Char) :
    readString? (s.flatMap escapeChar ++ '"' :: r) = some (s, r) := by
  induction s with
  | nil => rfl
  | cons c s ih => rw [List.flatMap_cons, List.append_assoc, readString?_escapeChar, ih]; rfl

theorem quoted_append (s : String) (r : List Char) :
    quoted s ++ r = '"' :: (s.toList.flatMap escapeChar ++ '"' :: r) := by
  rw [quoted, List.cons_append, List.append_assoc, List.singleton_append]

/-! ## Numbers -/

theorem le_digitsValue_from (ds : List Char) (n : Nat) :
    n ≤ ds.foldl (fun n c => 10 * n + (c.toNat - '0'.toNat)) n := by
  induction ds generalizing n with
  | nil => exact Nat.le_refl n
  | cons d ds ih =>
      rw [List.foldl_cons]
      exact Nat.le_trans (by omega) (ih _)

/-- Digits are taken while their number fits. -/
theorem absorb_eq (ds : List Char) (n : Nat)
    (h : ds.foldl (fun n c => 10 * n + (c.toNat - '0'.toNat)) n ≤ maxUnsigned) :
    absorb n ds = (ds.foldl (fun n c => 10 * n + (c.toNat - '0'.toNat)) n, []) := by
  induction ds generalizing n with
  | nil => rfl
  | cons d ds ih =>
      rw [List.foldl_cons] at h ⊢
      have hle := le_digitsValue_from ds (10 * n + (d.toNat - '0'.toNat))
      rw [absorb, if_neg (by omega), ih _ h]

theorem absorb_toDigits {n : Nat} (hn : n < UInt64.size) :
    absorb 0 (Nat.toDigits 10 n) = (n, []) := by
  have hvalue : (Nat.toDigits 10 n).foldl (fun n c => 10 * n + (c.toNat - '0'.toNat)) 0 = n :=
    digitsValue_toDigits n
  have habsorb := absorb_eq (Nat.toDigits 10 n) 0 (by rw [hvalue, maxUnsigned]; omega)
  rwa [hvalue] at habsorb

/-- No digit stands behind a zero in front. -/
theorem length_of_head_toDigits {n : Nat} (h : (Nat.toDigits 10 n).head? = some '0') :
    (Nat.toDigits 10 n).length = 1 := by
  obtain ⟨ds, hds⟩ : ∃ ds, Nat.toDigits 10 n = '0' :: ds := List.head?_eq_some_iff.1 h
  cases hempty : ds with
  | nil => rw [hds, hempty]; rfl
  | cons d r =>
      have hpos : 0 < ds.length := by rw [hempty, List.length_cons]; omega
      have hlt : n < 10 ^ ds.length := by
        have hvalue := digitsValue_toDigits n
        rw [hds] at hvalue
        rw [← hvalue]
        have hzero : digitsValue ('0' :: ds) = digitsValue ds := rfl
        rw [hzero]
        refine digitsValue_lt fun c hc => isDigit_of_mem_toDigits (n := n) ?_
        rw [hds]
        exact List.mem_cons_of_mem _ hc
      have hle := (Nat.length_toDigits_le_iff (by decide) hpos).2 hlt
      rw [hds, List.length_cons] at hle
      omega

theorem Ends.cases {r : List Char} (hr : Ends r) :
    r = [] ∨ ∃ r', r = ',' :: r' ∨ r = ']' :: r' ∨ r = '\x7d' :: r' := by
  cases r with
  | nil => exact .inl rfl
  | cons c r => rcases hr c rfl with rfl | rfl | rfl <;> simp

theorem Ends.isDigit {r : List Char} (hr : Ends r) : ∀ c ∈ r.head?, c.isDigit = false := by
  intro c hc
  rcases hr c hc with rfl | rfl | rfl <;> rfl

/-- The whole digits of a number are all of it. -/
theorem readNumber?_digits {n : Nat} {r : List Char} (hr : Ends r) :
    readNumber? (Nat.toDigits 10 n ++ r) = (NumberText.value?
        ⟨false, Nat.toDigits 10 n, none, none⟩).map (·, r) ∧
      readNumber? ('-' :: (Nat.toDigits 10 n ++ r)) = (NumberText.value?
        ⟨true, Nat.toDigits 10 n, none, none⟩).map (·, r) := by
  obtain ⟨htake, hdrop⟩ := takeWhile_digits (n := n) hr.isDigit
  have hguard : Nat.toDigits 10 n ≠ [] ∧ ((Nat.toDigits 10 n).head? = some '0' →
      (Nat.toDigits 10 n).length = 1) :=
    ⟨Nat.toDigits_ne_nil, length_of_head_toDigits⟩
  obtain ⟨d, ds, hds⟩ := List.exists_cons_of_ne_nil (Nat.toDigits_ne_nil (n := n) (b := 10))
  have hdash : d ≠ '-' := by
    rintro rfl
    exact absurd (isDigit_of_mem_toDigits (n := n) (by rw [hds]; exact List.mem_cons_self)) (by decide)
  have hhead : ∀ t, Nat.toDigits 10 n ++ r ≠ '-' :: t := by
    intro t ht
    rw [hds] at ht
    exact hdash (List.cons.inj ht).1
  have hpair (v : Option Json) (r : List Char) : (v >>= fun j => some (j, r)) = v.map (·, r) := by
    cases v <;> rfl
  constructor
  · unfold readNumber?
    split
    rename_i hsign
    split at hsign
    · exact absurd ‹_› (hhead _)
    · obtain ⟨rfl, rfl⟩ := Prod.mk.inj hsign
      simp only [htake, hdrop, guard, if_pos hguard]
      generalize NumberText.value? = value
      rcases hr.cases with rfl | ⟨r', rfl | rfl | rfl⟩ <;> exact hpair _ _
  · unfold readNumber?
    simp only [htake, hdrop, guard, if_pos hguard]
    generalize NumberText.value? = value
    rcases hr.cases with rfl | ⟨r', rfl | rfl | rfl⟩ <;> exact hpair _ _

/-- An integer of 64 bits is read from its text. -/
theorem readNumber?_integer {n : Int} (hmin : Int64.minValue.toInt ≤ n) (hmax : n < UInt64.size)
    {r : List Char} (hr : Ends r) :
    readNumber? ((toString n).toList ++ r) = some (.integer n, r) := by
  cases n with
  | ofNat n =>
      have hn : n < UInt64.size := Int.ofNat_lt.1 hmax
      have htext : (toString (Int.ofNat n)).toList = Nat.toDigits 10 n := Nat.toList_repr
      rw [htext, (readNumber?_digits hr).1]
      simp only [NumberText.value?, absorb_toDigits hn, List.isEmpty_nil, if_true]
      rfl
  | negSucc n =>
      have hn : 2 * (n + 1) ≤ UInt64.size := by
        have hlimit : Int64.minValue.toInt = -2 ^ 63 := rfl
        have hsize : UInt64.size = 2 ^ 64 := rfl
        omega
      have htext : (toString (Int.negSucc n)).toList = '-' :: Nat.toDigits 10 (n + 1) := by
        change ("-" ++ (n + 1).repr).toList = _
        rw [String.toList_append, Nat.toList_repr]
        rfl
      have hfits : n + 1 < UInt64.size := by
        have hsize : UInt64.size = 2 ^ 64 := rfl
        omega
      rw [htext, List.cons_append, (readNumber?_digits hr).2]
      simp only [NumberText.value?, absorb_toDigits hfits, List.isEmpty_nil, if_true]
      rw [if_pos ⟨by omega, hn⟩]
      rfl

/-! ## Values -/

section Words

variable {fuel depth : Nat} {r : List Char}

theorem readValue?_null : readValue? (fuel + 1) depth ('n' :: 'u' :: 'l' :: 'l' :: r) =
    some (.null, r) := by
  with_unfolding_all rfl

theorem readValue?_true : readValue? (fuel + 1) depth ('t' :: 'r' :: 'u' :: 'e' :: r) =
    some (.bool true, r) := by
  with_unfolding_all rfl

theorem readValue?_false : readValue? (fuel + 1) depth ('f' :: 'a' :: 'l' :: 's' :: 'e' :: r) =
    some (.bool false, r) := by
  with_unfolding_all rfl

theorem readValue?_quoted (s : String) :
    readValue? (fuel + 1) depth (quoted s ++ r) = some (.text s, r) := by
  rw [quoted_append, readValue?, readString?_escaped]
  exact congrArg (fun s => some (Json.text s, r)) String.ofList_toList

/-- A text that starts with a digit or a dash is read as a number. -/
theorem readValue?_number {c : Char} (hc : c.isDigit = true ∨ c = '-') :
    readValue? (fuel + 1) depth (c :: r) = readNumber? (c :: r) := by
  have hne : ∀ d ∈ ['n', 't', 'f', '"', '[', '\x7b'], c ≠ d := by
    rintro d hd rfl
    simp only [List.mem_cons, List.not_mem_nil, or_false] at hd
    rcases hd with rfl | rfl | rfl | rfl | rfl | rfl <;> revert hc <;> decide
  unfold readValue?
  split <;> first | rfl | exact absurd (List.cons.inj ‹_›).1 (hne _ (by simp))

end Words

theorem ends_writeItems (js : List Json) (r : List Char) : Ends (writeItems js ++ r) := by
  cases js with
  | nil => simp [Ends, writeItems]
  | cons j js => simp [Ends, writeItems]

theorem ends_writeFields (fs : List (String × Json)) (r : List Char) :
    Ends (writeFields fs ++ r) := by
  cases fs with
  | nil => simp [Ends, writeFields]
  | cons f fs => simp [Ends, writeFields]

theorem exists_toString_eq_cons (n : Int) :
    ∃ c r, (toString n).toList = c :: r ∧ (c.isDigit = true ∨ c = '-') := by
  cases n with
  | ofNat n =>
      obtain ⟨c, r, hcons⟩ := List.exists_cons_of_ne_nil (Nat.toDigits_ne_nil (n := n) (b := 10))
      have htext : (toString (Int.ofNat n)).toList = Nat.toDigits 10 n := Nat.toList_repr
      have hc : c ∈ Nat.toDigits 10 n := hcons ▸ List.mem_cons_self
      exact ⟨c, r, htext.trans hcons, .inl (isDigit_of_mem_toDigits hc)⟩
  | negSucc n =>
      have htext : (toString (Int.negSucc n)).toList = '-' :: (n + 1).repr.toList := by
        change ("-" ++ (n + 1).repr).toList = _
        rw [String.toList_append]
        rfl
      exact ⟨_, _, htext, .inr rfl⟩

/-- A value does not start with a blank or a closing bracket. -/
theorem exists_write_eq_cons {depth : Nat} {j : Json} (h : Within depth j) :
    ∃ c r, write j = c :: r ∧ isBlank c = false ∧ c ≠ ']' := by
  cases j with
  | integer n =>
      obtain ⟨c, r, hcons, hc⟩ := exists_toString_eq_cons n
      refine ⟨c, r, hcons, Bool.eq_false_iff.2 fun hblank => ?_, ?_⟩
      · simp only [isBlank, Bool.or_eq_true, decide_eq_true_iff] at hblank
        rcases hblank with ((rfl | rfl) | rfl) | rfl <;> revert hc <;> decide
      · rintro rfl
        revert hc
        decide
  | real x => simp [Within] at h
  | bool b => cases b <;> exact ⟨_, _, rfl, rfl, by decide⟩
  | array js => cases js <;> exact ⟨_, _, rfl, rfl, by decide⟩
  | object fs => cases fs <;> exact ⟨_, _, rfl, rfl, by decide⟩
  | _ => exact ⟨_, _, rfl, rfl, by decide⟩

theorem skipBlanks_cons {c : Char} {r : List Char} (hc : isBlank c = false) :
    skipBlanks (c :: r) = c :: r :=
  List.dropWhile_cons_of_neg (by simp [hc])

theorem skipBlanks_write {depth : Nat} {j : Json} (h : Within depth j) (r : List Char) :
    skipBlanks (write j ++ r) = write j ++ r := by
  obtain ⟨c, cs, hcons, hblank, -⟩ := exists_write_eq_cons h
  rw [hcons, List.cons_append, skipBlanks_cons hblank]

theorem skipBlanks_quoted (s : String) (r : List Char) :
    skipBlanks (quoted s ++ r) = quoted s ++ r := by
  rw [quoted_append, skipBlanks_cons rfl]

/-- The first item of an array is not its end. -/
theorem readValue?_array {fuel depth : Nat} {j : Json} (h : Within depth j) (r : List Char) :
    readValue? (fuel + 1) (depth + 1) ('[' :: (write j ++ r)) =
      readItems? fuel depth [] (write j ++ r) := by
  obtain ⟨c, cs, hcons, -, hne⟩ := exists_write_eq_cons h
  have hskip := skipBlanks_write h r
  rw [hcons, List.cons_append] at hskip ⊢
  rw [readValue?, hskip]
  split
  · exact absurd (List.cons.inj ‹_›).1 hne
  · rfl

theorem readValue?_object {fuel depth : Nat} (k : String) (r : List Char) :
    readValue? (fuel + 1) (depth + 1) ('\x7b' :: (quoted k ++ r)) =
      readFields? fuel depth [] (quoted k ++ r) := by
  rw [readValue?, skipBlanks_quoted, quoted_append]
  rfl

/-- An array ends behind the item that a closing bracket follows. -/
theorem readItems?_last {fuel depth : Nat} {before : List Json} {cs r : List Char} {j : Json}
    (h : readValue? fuel depth cs = some (j, ']' :: r)) :
    readItems? (fuel + 1) depth before cs = some (.array (j :: before).reverse, r) := by
  rw [readItems?, h]
  rfl

theorem readItems?_more {fuel depth : Nat} {before : List Json} {cs r : List Char} {j : Json}
    (h : readValue? fuel depth cs = some (j, ',' :: r)) :
    readItems? (fuel + 1) depth before cs =
      readItems? fuel depth (j :: before) (skipBlanks r) := by
  rw [readItems?, h]
  rfl

/-- An object ends behind the field that a closing brace follows. -/
theorem readFields?_last {fuel depth : Nat} {before : List (String × Json)} {k : String}
    {cs r : List Char} {j : Json}
    (h : readValue? fuel depth (skipBlanks cs) = some (j, '\x7d' :: r)) :
    readFields? (fuel + 1) depth before (quoted k ++ ':' :: cs) =
      some (.object (Keyed.insert k j before), r) := by
  rw [quoted_append, readFields?, readString?_escaped]
  dsimp only
  rw [skipBlanks_cons rfl, String.ofList_toList]
  simp only [h]
  rfl

theorem readFields?_more {fuel depth : Nat} {before : List (String × Json)} {k : String}
    {cs r : List Char} {j : Json}
    (h : readValue? fuel depth (skipBlanks cs) = some (j, ',' :: r)) :
    readFields? (fuel + 1) depth before (quoted k ++ ':' :: cs) =
      readFields? fuel depth (Keyed.insert k j before) (skipBlanks r) := by
  rw [quoted_append, readFields?, readString?_escaped]
  dsimp only
  rw [skipBlanks_cons rfl, String.ofList_toList]
  simp only [h]
  rfl

mutual

/-- A value is read from its text, wherever it stands. -/
theorem readValue?_write {fuel depth : Nat} {j : Json} {r : List Char} (h : Within depth j)
    (hfuel : 2 * (write j).length ≤ fuel) (hr : Ends r) :
    readValue? fuel depth (write j ++ r) = some (j, r) := by
  obtain ⟨c, cs, hcons, -, -⟩ := exists_write_eq_cons h
  have hpos : 0 < fuel := by
    rw [hcons, List.length_cons] at hfuel
    omega
  obtain ⟨fuel, rfl⟩ := Nat.exists_eq_add_of_le' hpos
  cases j with
  | null => exact readValue?_null
  | bool b =>
      cases b with
      | false => exact readValue?_false
      | true => exact readValue?_true
  | integer n =>
      obtain ⟨c, cs, hcons, hc⟩ := exists_toString_eq_cons n
      rw [Within] at h
      rw [write, ← readNumber?_integer h.1 h.2 hr, hcons]
      exact readValue?_number hc
  | real x => simp [Within] at h
  | text s => exact readValue?_quoted s
  | array js =>
      cases depth with
      | zero => simp [Within] at h
      | succ depth =>
          rw [Within] at h
          cases js with
          | nil => rfl
          | cons j js =>
              rw [AllWithin] at h
              rw [write, List.length_cons, List.length_append] at hfuel
              rw [write, List.cons_append, List.append_assoc, readValue?_array h.1,
                readItems?_write h.1 h.2 (by omega)]
              rfl
  | object fs =>
      cases depth with
      | zero => simp [Within] at h
      | succ depth =>
          rw [Within] at h
          cases fs with
          | nil => rfl
          | cons f fs =>
              obtain ⟨k, v⟩ := f
              obtain ⟨hsorted, hfields⟩ := h
              rw [FieldsWithin] at hfields
              simp only [write, List.length_cons, List.length_append] at hfuel
              simp only [write, List.cons_append, List.append_assoc]
              rw [readValue?_object, readFields?_write hfields.1 hfields.2 hsorted (by omega)]
              rfl
termination_by fuel

/-- Items are read from their texts, behind those that were read before. -/
theorem readItems?_write {fuel depth : Nat} {j : Json} {js before : List Json} {r : List Char}
    (hj : Within depth j) (hjs : AllWithin depth js)
    (hfuel : 2 * ((write j).length + (writeItems js).length) + 1 ≤ fuel) :
    readItems? fuel depth before (write j ++ (writeItems js ++ r)) =
      some (.array (before.reverse ++ j :: js), r) := by
  obtain ⟨fuel, rfl⟩ := Nat.exists_eq_add_of_le' (Nat.le_trans (Nat.le_add_left ..) hfuel)
  have hread : readValue? fuel depth (write j ++ (writeItems js ++ r)) =
      some (j, writeItems js ++ r) :=
    readValue?_write hj (by omega) (ends_writeItems js r)
  cases js with
  | nil =>
      rw [readItems?_last hread, List.reverse_cons]
      rfl
  | cons j' js =>
      rw [AllWithin] at hjs
      rw [writeItems, List.length_cons, List.length_append] at hfuel
      rw [writeItems, List.cons_append, List.append_assoc] at hread ⊢
      rw [readItems?_more hread, skipBlanks_write hjs.1, readItems?_write hjs.1 hjs.2 (by omega),
        List.reverse_cons, List.append_assoc, List.singleton_append]
termination_by fuel

/-- Fields are read from their texts, behind those that were read before. -/
theorem readFields?_write {fuel depth : Nat} {k : String} {v : Json}
    {fs before : List (String × Json)} {r : List Char} (hv : Within depth v)
    (hfs : FieldsWithin depth fs) (hsorted : Keyed.Sorted (before ++ (k, v) :: fs))
    (hfuel : 2 * ((quoted k).length + (write v).length + (writeFields fs).length) + 1 ≤ fuel) :
    readFields? fuel depth before (quoted k ++ ':' :: (write v ++ (writeFields fs ++ r))) =
      some (.object (before ++ (k, v) :: fs), r) := by
  obtain ⟨fuel, rfl⟩ := Nat.exists_eq_add_of_le' (Nat.le_trans (Nat.le_add_left ..) hfuel)
  -- the keys come in order, so each field goes behind those that are there
  have hinsert : Keyed.insert k v before = before ++ [(k, v)] := by
    refine Keyed.insert_eq_append fun m hm => ?_
    have hall := hsorted
    rw [Keyed.Sorted, List.map_append, List.pairwise_append] at hall
    exact hall.2.2 m hm k List.mem_cons_self
  have hread : readValue? fuel depth (skipBlanks (write v ++ (writeFields fs ++ r))) =
      some (v, writeFields fs ++ r) := by
    rw [skipBlanks_write hv]
    exact readValue?_write hv (by omega) (ends_writeFields fs r)
  cases fs with
  | nil =>
      rw [readFields?_last hread, hinsert]
      rfl
  | cons f fs =>
      obtain ⟨k', v'⟩ := f
      rw [FieldsWithin] at hfs
      simp only [writeFields, List.length_cons, List.length_append] at hfuel
      simp only [writeFields, List.cons_append, List.append_assoc] at hread ⊢
      rw [readFields?_more hread, hinsert, skipBlanks_quoted,
        readFields?_write hfs.1 hfs.2 (by simpa using hsorted) (by omega),
        List.append_assoc, List.singleton_append]
termination_by fuel

end

/-- The compact text of a document is read as the document. -/
theorem ofText?_toText {j : Json} (h : Within maxDepth j) : ofText? j.toText = some j := by
  have hread : readValue? (2 * (write j).length + 2) maxDepth (write j ++ []) = some (j, []) :=
    readValue?_write h (by omega) (by simp [Ends])
  rw [List.append_nil] at hread
  have hskip := skipBlanks_write h []
  rw [List.append_nil] at hskip
  unfold ofText? toText
  rw [String.toList_ofList]
  dsimp only
  rw [hskip, hread]
  rfl

end StagedStore.Json
