import StagedStore.Literal
import StagedStore.Proofs.Decimal.Rounding
import StagedStore.Proofs.Text.Quoted
import StagedStore.Proofs.Uuid

/-!
# Literals tell cells apart

An integer, a text and a blob are written as literals that no other cell has. Quotes and the letter
of a blob tell texts and blobs from numbers, and a real has a point or an exponent, which an integer
never has.
-/

namespace StagedStore

/-! ## Integers -/

theorem toList_toString_ofNat (n : Nat) : (toString (Int.ofNat n)).toList = Nat.toDigits 10 n :=
  Nat.toList_repr

theorem toList_toString_negSucc (n : Nat) :
    (toString (Int.negSucc n)).toList = '-' :: Nat.toDigits 10 (n + 1) := by
  change ("-" ++ (n + 1).repr).toList = _
  rw [String.toList_append, Nat.toList_repr]
  rfl

theorem mem_toString_int {n : Int} {c : Char} (h : c ∈ (toString n).toList) :
    c.isDigit = true ∨ c = '-' := by
  cases n with
  | ofNat n =>
      rw [toList_toString_ofNat] at h
      exact .inl (isDigit_of_mem_toDigits h)
  | negSucc n =>
      rw [toList_toString_negSucc] at h
      rcases List.mem_cons.1 h with rfl | h
      · exact .inr rfl
      · exact .inl (isDigit_of_mem_toDigits h)

theorem toDigits_inj {m n : Nat} (h : Nat.toDigits 10 m = Nat.toDigits 10 n) : m = n := by
  rw [← digitsValue_toDigits m, h, digitsValue_toDigits]

theorem toString_int_inj {m n : Int} (h : toString m = toString n) : m = n := by
  have hlist := congrArg String.toList h
  have hminus (k : Nat) : '-' ∉ Nat.toDigits 10 k := notMem_toDigits rfl
  cases m with
  | ofNat m =>
      cases n with
      | ofNat n =>
          rw [toList_toString_ofNat, toList_toString_ofNat] at hlist
          rw [toDigits_inj hlist]
      | negSucc n =>
          rw [toList_toString_ofNat, toList_toString_negSucc] at hlist
          exact absurd (hlist ▸ List.mem_cons_self) (hminus m)
  | negSucc m =>
      cases n with
      | ofNat n =>
          rw [toList_toString_negSucc, toList_toString_ofNat] at hlist
          exact absurd (hlist ▸ List.mem_cons_self) (hminus n)
      | negSucc n =>
          rw [toList_toString_negSucc, toList_toString_negSucc] at hlist
          rw [Nat.succ.inj (toDigits_inj (List.cons.inj hlist).2)]

/-! ## Reals -/

namespace Binary64

theorem isDigits_of_onGrid? {x : Binary64} {leading : List Char} {count : Nat} {s : Significant}
    (h : x.onGrid? leading count = some s) : s.IsDigits := by
  obtain ⟨n, e, rfl, -⟩ := exists_of_onGrid? h
  exact Significant.isDigits_ofDecimal n e

theorem isDigits_shortest (x : Binary64) : x.shortest.IsDigits := by
  unfold shortest
  dsimp only
  cases hfind : (List.range 17).findSome? fun i => x.onGrid? x.expansion (i + 1) with
  | none => exact Significant.isDigits_ofDecimal _ _
  | some s =>
      obtain ⟨i, -, hi⟩ := List.exists_of_findSome?_eq_some hfind
      exact isDigits_of_onGrid? hi

end Binary64

/-- A character of a real's text. -/
def IsRealChar (c : Char) : Prop :=
  c.isDigit = true ∨ c = '.' ∨ c = 'e' ∨ c = '-'

/-- A text of reals: it has a point or an exponent. -/
structure IsRealText (cs : List Char) : Prop where
  chars : ∀ c ∈ cs, IsRealChar c
  marked : '.' ∈ cs ∨ 'e' ∈ cs

theorem IsRealText.minus {cs : List Char} (h : IsRealText cs) : IsRealText ('-' :: cs) where
  chars := List.forall_mem_cons.2 ⟨.inr (.inr (.inr rfl)), h.chars⟩
  marked := h.marked.imp (List.mem_cons_of_mem _) (List.mem_cons_of_mem _)

namespace NumberLayout

theorem isRealChar_of_mem_zeros {n : Nat} {c : Char} (h : c ∈ List.replicate n '0') :
    IsRealChar c :=
  .inl (by rw [List.eq_of_mem_replicate h]; rfl)

theorem isRealText_positional {s : Significant} (h : s.IsDigits) :
    IsRealText (positional s) := by
  have hdigits : ∀ c ∈ s.digits, IsRealChar c := fun c hc => .inl (h c hc)
  have hpoint : IsRealChar '.' := .inr (.inl rfl)
  have hzero : IsRealChar '0' := .inl rfl
  unfold positional
  dsimp only
  split
  · refine ⟨?_, .inl (by simp)⟩
    simp only [List.forall_mem_cons, List.forall_mem_append]
    exact ⟨hzero, hpoint, fun c => isRealChar_of_mem_zeros, hdigits⟩
  · split
    · refine ⟨?_, .inl (by simp)⟩
      simp only [List.forall_mem_cons, List.forall_mem_append]
      exact ⟨⟨hdigits, fun c => isRealChar_of_mem_zeros⟩, hpoint, hzero, by simp⟩
    · refine ⟨?_, .inl (by simp)⟩
      simp only [List.forall_mem_cons, List.forall_mem_append]
      exact ⟨fun c hc => hdigits c (List.mem_of_mem_take hc), hpoint,
        fun c hc => hdigits c (List.mem_of_mem_drop hc)⟩

theorem isRealChar_of_mem_exponent {e : Int} {c : Char}
    (h : c ∈ Binary64.plainLayout.exponent e) : IsRealChar c := by
  have hdigits : ∀ c ∈ List.replicate (Binary64.plainLayout.exponentDigits -
      (Nat.toDigits 10 e.natAbs).length) '0' ++ Nat.toDigits 10 e.natAbs, IsRealChar c := by
    rw [List.forall_mem_append]
    exact ⟨fun c => isRealChar_of_mem_zeros, fun c hc => .inl (isDigit_of_mem_toDigits hc)⟩
  unfold exponent at h
  dsimp only at h
  split at h
  · rcases List.mem_cons.1 h with rfl | h
    · exact .inr (.inr (.inr rfl))
    · exact hdigits c h
  · exact hdigits c h

theorem isRealText_scientific {s : Significant} (h : s.IsDigits) :
    IsRealText (Binary64.plainLayout.scientific s) := by
  unfold scientific
  dsimp only
  refine ⟨?_, .inr (by simp)⟩
  simp only [List.forall_mem_cons, List.forall_mem_append]
  refine ⟨⟨fun c hc => .inl (h c (List.mem_of_mem_take hc)), ?_⟩, .inr (.inr (.inl rfl)),
    fun c => isRealChar_of_mem_exponent⟩
  split
  · simp [Binary64.plainLayout]
  · refine List.forall_mem_cons.2 ⟨.inr (.inl rfl), fun c hc => ?_⟩
    exact .inl (h c (List.mem_of_mem_drop hc))

theorem isRealText_write {digits : Binary64 → Significant} {x : Binary64}
    (hx : x.isFinite = true) (h : (digits x).IsDigits) :
    IsRealText (Binary64.plainLayout.write digits x).toList := by
  cases x with
  | nan => cases hx
  | infinite negative => cases hx
  | finite negative m e hc =>
      unfold write
      dsimp only
      generalize digits (.finite negative m e hc) = d at h
      split
      · split
        · exact ⟨by simp [IsRealChar], by decide⟩
        · exact ⟨by simp [IsRealChar], by decide⟩
      · rw [String.toList_ofList]
        have hbody : IsRealText (if (Binary64.plainLayout.lowest ≤ d.point &&
            d.point ≤ Binary64.plainLayout.highest) = true then positional d
            else Binary64.plainLayout.scientific d) := by
          split
          · exact isRealText_positional h
          · exact isRealText_scientific h
        split
        · exact hbody.minus
        · exact hbody

end NumberLayout

theorem Binary64.isRealText_toText {x : Binary64} (h : x.isFinite = true) :
    IsRealText x.toText.toList :=
  NumberLayout.isRealText_write h x.isDigits_shortest

/-! ## Literals -/

namespace Storage

theorem toList_literal_text (s : String) :
    (Storage.text s).literal.toList = '\'' :: (Quoted.double '\'' s.toList ++ ['\'']) := by
  rw [literal, quoteText, String.toList_ofList]
  rfl

theorem toList_literal_blob (bytes : List UInt8) :
    (Storage.blob bytes).literal.toList = 'X' :: '\'' :: (Hex.encode true bytes ++ ['\'']) := by
  simp [literal]

/-- The literal of a number and of null has no quotes. -/
theorem quote_notMem_literal {v : Storage} (htext : ∀ s, v ≠ .text s) (hblob : ∀ b, v ≠ .blob b) :
    '\'' ∉ v.literal.toList := by
  cases v with
  | null => decide
  | integer n =>
      intro h
      rcases mem_toString_int h with h | h <;> revert h <;> decide
  | real x =>
      rw [literal]
      split
      · rename_i hx
        intro h
        rcases (Binary64.isRealText_toText hx).chars _ h with h | h | h | h <;> revert h <;> decide
      · decide
  | text s => exact absurd rfl (htext s)
  | blob b => exact absurd rfl (hblob b)

/-- The literal of a real is no integer's. -/
theorem literal_real_ne_integer (x : Binary64) (n : Int64) :
    (Storage.real x).literal ≠ (Storage.integer n).literal := by
  intro h
  have hmem : ∀ c ∈ (Storage.real x).literal.toList, c.isDigit = true ∨ c = '-' := by
    intro c hc
    rw [h] at hc
    exact mem_toString_int hc
  rw [literal] at hmem
  split at hmem
  · rename_i hx
    rcases (Binary64.isRealText_toText hx).marked with hc | hc
    · exact absurd (hmem _ hc) (by decide)
    · exact absurd (hmem _ hc) (by decide)
  · exact absurd (hmem 'N' (by decide)) (by decide)

theorem literal_null_ne_integer (n : Int64) : Storage.null.literal ≠ (Storage.integer n).literal := by
  intro h
  have hmem : 'N' ∈ (Storage.integer n).literal.toList := h ▸ by decide
  exact absurd (mem_toString_int hmem) (by decide)

theorem literal_real_ne_null {x : Binary64} (hx : x.isFinite = true) :
    (Storage.real x).literal ≠ Storage.null.literal := by
  intro h
  have hmem : 'N' ∈ (Storage.real x).literal.toList := h ▸ by decide
  rw [literal, if_pos hx] at hmem
  rcases (Binary64.isRealText_toText hx).chars _ hmem with h | h | h | h <;> revert h <;> decide

/-- No other cell has the literal of an integer, a text or a blob. -/
theorem eq_of_literal_eq {v w : Storage} (hnull : w.isNull = false) (hreal : ∀ x, w ≠ .real x)
    (h : v.literal = w.literal) : v = w := by
  have hlist := congrArg String.toList h
  have hquote (s : List Char) (hs : '\'' ∈ s) {u : Storage} (hu : u.literal.toList = s) :
      (∃ t, u = .text t) ∨ ∃ b, u = .blob b := by
    by_contra hno
    rw [not_or, not_exists, not_exists] at hno
    exact quote_notMem_literal hno.1 hno.2 (hu ▸ hs)
  cases w with
  | null => cases hnull
  | real x => exact absurd rfl (hreal x)
  | integer n =>
      cases v with
      | null => exact absurd h (literal_null_ne_integer n)
      | real x => exact absurd h (literal_real_ne_integer x n)
      | integer m => exact congrArg Storage.integer (Int64.toInt.inj (toString_int_inj h))
      | text t =>
          obtain ⟨s, hs⟩ | ⟨b, hb⟩ := hquote _ (by rw [toList_literal_text]; simp) hlist.symm
          · cases hs
          · cases hb
      | blob b =>
          obtain ⟨s, hs⟩ | ⟨b, hb⟩ := hquote _ (by rw [toList_literal_blob]; simp) hlist.symm
          · cases hs
          · cases hb
  | text t =>
      rw [toList_literal_text] at hlist
      obtain ⟨s, rfl⟩ | ⟨b, rfl⟩ := hquote _ (by simp) hlist
      · rw [toList_literal_text] at hlist
        have hread := congrArg (Quoted.read? '\'') (List.cons.inj hlist).2
        rw [Quoted.read?_double (by simp), Quoted.read?_double (by simp)] at hread
        exact congrArg Storage.text (String.toList_inj.1 (Prod.mk.inj (Option.some.inj hread)).1)
      · rw [toList_literal_blob] at hlist
        exact absurd (List.cons.inj hlist).1 (by decide)
  | blob b =>
      rw [toList_literal_blob] at hlist
      obtain ⟨s, rfl⟩ | ⟨c, rfl⟩ := hquote _ (by simp) hlist
      · rw [toList_literal_text] at hlist
        exact absurd (List.cons.inj hlist).1 (by decide)
      · rw [toList_literal_blob] at hlist
        have hdigits := List.append_cancel_right (List.cons.inj (List.cons.inj hlist).2).2
        have hread := congrArg Hex.decode? hdigits
        rw [Hex.decode?_encode, Hex.decode?_encode] at hread
        exact congrArg Storage.blob (Option.some.inj hread)

/-- A cell is written as it is; a real that is infinite or no number has no literal of its own. -/
def HasLiteral : Storage → Prop
  | .real x => x.isFinite = true
  | _ => True

theorem null_or_real (v : Storage) :
    v = .null ∨ (∃ x, v = .real x) ∨ v.isNull = false ∧ ∀ x, v ≠ .real x := by
  cases v with
  | null => exact .inl rfl
  | real x => exact .inr (.inl ⟨x, rfl⟩)
  | integer n => exact .inr (.inr ⟨rfl, nofun⟩)
  | text s => exact .inr (.inr ⟨rfl, nofun⟩)
  | blob bytes => exact .inr (.inr ⟨rfl, nofun⟩)

theorem eq_null_of_className {v : Storage} (h : v.className = Storage.null.className) : v = .null := by
  cases v with
  | null => rfl
  | _ => exact absurd h (by simp [className])

/-- Cells with one literal are of one class. -/
theorem className_eq_of_literal_eq {v w : Storage} (hv : v.HasLiteral) (hw : w.HasLiteral)
    (h : v.literal = w.literal) : v.className = w.className := by
  rcases w.null_or_real with rfl | ⟨y, rfl⟩ | ⟨hnull, hreal⟩
  · rcases v.null_or_real with rfl | ⟨x, rfl⟩ | ⟨hnull, hreal⟩
    · rfl
    · exact absurd h (literal_real_ne_null hv)
    · rw [eq_of_literal_eq hnull hreal h.symm]
  · rcases v.null_or_real with rfl | ⟨x, rfl⟩ | ⟨hnull, hreal⟩
    · exact absurd h.symm (literal_real_ne_null hw)
    · rfl
    · rw [eq_of_literal_eq hnull hreal h.symm]
  · rw [eq_of_literal_eq hnull hreal h]

end Storage

end StagedStore
