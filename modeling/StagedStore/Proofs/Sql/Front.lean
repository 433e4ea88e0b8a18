import StagedStore.Proofs.Literal
import StagedStore.Proofs.Sql.Lexing
import StagedStore.Sql.Reader

/-!
# Names and literals in front of a text

A name or a text in quotes is the first token of what begins with it, unless its own quote stands
directly behind. A reader of literals finds the cell that was written and leaves what follows. Cells
with one literal are equal, but for reals, which share none with a cell of another class.
-/

namespace StagedStore

namespace Sql

open Token

variable {r : List Char}

/-- The cell that a literal at the front of a text stands for, and what stands behind it. The minus
in front of a number belongs to it. -/
def readLiteral? (cs : List Char) : Option (Storage × List Char) :=
  match front? cs with
  | some (.symbol '-', r) =>
    match front? r with
    | some (.number d isInteger, r) => some (numberLiteral true d isInteger, r)
    | _ => none
  | some (.number d isInteger, r) => some (numberLiteral false d isInteger, r)
  | some (.text s, r) => some (.text s, r)
  | some (.blob bytes, r) => some (.blob bytes, r)
  | some (.keyword .null, r) => some (.null, r)
  | _ => none

/-! ## Quotes -/

/-- What is left behind a token in quotes does not begin with its quote. -/
theorem head?_next_quote {quote : Char} (h : quote = '"' ∨ quote = '\'') (cs : List Char) :
    (next quote cs).2.head? ≠ some quote := by
  have hread : ∀ s t, Quoted.read? quote cs = some (s, t) → t.head? ≠ some quote :=
    fun _ _ hs => (Quoted.eq_of_read? hs).2
  rcases h with rfl | rfl
  all_goals
    simp only [next, isBlank, Char.reduceEq, decide_false, Bool.or_self, if_false,
      if_true, false_and, Bool.false_eq_true]
    split
    · exact hread _ _ ‹_›
    · simp

/-- A name in quotes is read as it is and leaves what follows it, unless a quote follows, with which
the name would go on. -/
theorem front?_quoteName_iff {n : String} :
    front? ((quoteName n).toList ++ r) = some (.name n, r) ↔ r.head? ≠ some '"' := by
  refine ⟨fun h => ?_, front?_quoteName⟩
  rw [quoteName, String.toList_ofList, Quoted.wrap, List.cons_append] at h
  have hrest := head?_next_quote (.inl rfl) (Quoted.double '"' n.toList ++ ['"'] ++ r)
  rwa [next_of_front? h] at hrest

theorem front?_quoteText_iff {s : String} :
    front? ((quoteText s).toList ++ r) = some (.text s, r) ↔ r.head? ≠ some '\'' := by
  rw [quoteText, String.toList_ofList, Quoted.wrap, List.cons_append]
  refine ⟨fun h => ?_, fun hr => ?_⟩
  · have hrest := head?_next_quote (.inr rfl) (Quoted.double '\'' s.toList ++ ['\''] ++ r)
    rwa [next_of_front? h] at hrest
  · rw [List.append_assoc]
    refine front?_of_next ?_
    simp [next, isBlank, Quoted.read?_double hr]

/-! ## Literals -/

theorem numberLiteral_of_toInt {n : Int64} {negative : Bool} {digits : Nat}
    (h : (if negative then -(digits : Int) else digits) = n.toInt) :
    numberLiteral negative ⟨false, digits, 0⟩ true = .integer n := by
  unfold numberLiteral
  dsimp only
  rw [h, if_pos ⟨rfl, Int64.minValue_le_toInt n, Int64.toInt_le n⟩, Int64.ofInt_toInt]

theorem readLiteral?_integer {n : Int64} (hr : startsApart r = true) :
    readLiteral? ((Storage.integer n).literal.toList ++ r) = some (.integer n, r) := by
  have hrest := continuesWord_of_startsApart hr
  rw [Storage.literal]
  cases hn : n.toInt with
  | ofNat k =>
      rw [toList_toString_ofNat, readLiteral?, front?_toDigits hrest]
      exact congrArg (fun v => some (v, r)) (numberLiteral_of_toInt hn.symm)
  | negSucc k =>
      obtain ⟨c, q, hc, hdigit⟩ := exists_toDigits (k + 1)
      have hnumber := front?_toDigits (n := k + 1) hrest
      rw [hc, List.cons_append] at hnumber
      rw [toList_toString_negSucc, List.cons_append, hc, List.cons_append, readLiteral?,
        front?_minus hdigit]
      simp only [hnumber]
      exact congrArg (fun v => some (v, r)) (numberLiteral_of_toInt hn.symm)

theorem front?_blob (bytes : List UInt8) :
    front? ((Storage.blob bytes).literal.toList ++ r) = some (.blob bytes, r) := by
  have hdigits : ∀ c ∈ Hex.encode true bytes, decide (c ≠ '\'') = true := by
    intro c hc
    rw [decide_eq_true_eq]
    rintro rfl
    exact Hex.quote_notMem_encode bytes hc
  have hblob : readBlob (Hex.encode true bytes ++ '\'' :: r) = (.blob bytes, r) := by
    unfold readBlob
    rw [List.takeWhile_append_of_pos hdigits, List.dropWhile_append_of_pos hdigits]
    simp [Hex.decode?_encode]
  rw [Storage.toList_literal_blob, List.cons_append, List.cons_append, List.append_assoc]
  refine front?_of_next ?_
  simp [next, isBlank, hblob]

theorem readLiteral?_blob (bytes : List UInt8) :
    readLiteral? ((Storage.blob bytes).literal.toList ++ r) = some (.blob bytes, r) := by
  rw [readLiteral?, front?_blob]

/-- A literal that is not a real's is read as its cell, up to what follows. -/
theorem readLiteral?_literal {v : Storage} (hv : ∀ x, v ≠ .real x) (hr : startsApart r = true) :
    readLiteral? (v.literal.toList ++ r) = some (v, r) := by
  cases v with
  | null =>
      have hfront : front? ('N' :: (['U', 'L', 'L'] ++ r)) = some (.keyword .null, r) := by
        rw [front?_word (by decide) (by decide) (endsWord_of_startsApart hr)]
        exact congrArg (fun t => some (t, r)) (ofWord_spelling ("NULL", .null) (by decide)).2
      rw [readLiteral?, show Storage.null.literal.toList ++ r = 'N' :: (['U', 'L', 'L'] ++ r) from rfl,
        hfront]
  | integer n => exact readLiteral?_integer hr
  | real x => exact absurd rfl (hv x)
  | text s =>
      have hquote : r.head? ≠ some '\'' := fun h => by simp [startsApart, h] at hr
      rw [readLiteral?, show (Storage.text s).literal = quoteText s from rfl,
        front?_quoteText_iff.2 hquote]
  | blob bytes => exact readLiteral?_blob bytes

/-- Names and texts in quotes are read back, whatever they hold and whatever follows but a quote.
Literals are read back, and no two cells share one but reals. -/
theorem literals_are_read_back_and_differ :
    (∀ (n : String) (r : List Char),
      front? ((quoteName n).toList ++ r) = some (.name n, r) ↔ r.head? ≠ some '"') ∧
    (∀ (s : String) (r : List Char),
      front? ((quoteText s).toList ++ r) = some (.text s, r) ↔ r.head? ≠ some '\'') ∧
    (∀ (v : Storage) (c : Char) (r : List Char), (∀ x, v ≠ .real x) → c = ' ' ∨ c = ',' ∨ c = ')' →
      readLiteral? (v.literal.toList ++ c :: r) = some (v, c :: r)) ∧
    ∀ v w : Storage, v.HasLiteral → w.HasLiteral → v.literal = w.literal →
      v.className = w.className ∧ ((∀ x, v ≠ .real x) → v = w) := by
  refine ⟨fun _ _ => front?_quoteName_iff, fun _ _ => front?_quoteText_iff, ?_, ?_⟩
  · intro v c r hv hc
    refine readLiteral?_literal hv ?_
    rcases hc with rfl | rfl | rfl <;> rfl
  · intro v w hv hw h
    have hclass := Storage.className_eq_of_literal_eq hv hw h
    refine ⟨hclass, fun hreal => ?_⟩
    rcases v.null_or_real with rfl | ⟨x, rfl⟩ | ⟨hnull, -⟩
    · exact (Storage.eq_null_of_className hclass.symm).symm
    · exact absurd rfl (hreal x)
    · exact (Storage.eq_of_literal_eq hnull hreal h.symm).symm

/-- A name that is a quote, a text that would end its statement, the least integer, and an integer
beside the text and the real that look like it. -/
theorem literals_are_read_back_and_differ_of_quotes :
    front? ((quoteName "\"").toList ++ [')']) = some (.name "\"", [')']) ∧
    front? ((quoteText "'';--").toList ++ []) = some (.text "'';--", []) ∧
    readLiteral? ((Storage.integer Int64.minValue).literal.toList ++ [',', '1']) =
      some (.integer Int64.minValue, [',', '1']) ∧
    (Storage.integer 0).literal ≠ (Storage.text "0").literal ∧
    (Storage.integer 0).literal ≠ (Storage.real (.zero false)).literal := by
  obtain ⟨hname, htext, hread, hdiffer⟩ := literals_are_read_back_and_differ
  refine ⟨(hname _ _).2 (by decide), (htext _ _).2 nofun, hread _ _ _ nofun (.inr (.inl rfl)),
    fun h => ?_, fun h => ?_⟩
  · exact absurd (hdiffer (.integer 0) (.text "0") trivial trivial h).1 (by decide)
  · exact absurd (hdiffer (.integer 0) (.real (.zero false)) trivial rfl h).1 (by decide)

end Sql

end StagedStore
