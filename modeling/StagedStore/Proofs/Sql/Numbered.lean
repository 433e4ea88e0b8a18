import StagedStore.Proofs.Sql.Lexing
import StagedStore.Sql.Reader

/-!
# Numbers of parameters

Parameters without a number take the next one after the largest before them, so tokens in front
matter only by their largest number. A text without a semicolon is a single statement.
-/

namespace StagedStore.Sql

variable {m : Nat} {ts us : List Token}

/-- A token as it is cut from a text, in which parameters have a largest number. -/
def Token.limited : Token → Token
  | .param (some n) => paramToken n
  | t => t

@[simp] theorem Token.limited_numbered (n : Nat) : (param (some n)).limited = paramToken n :=
  rfl

@[simp] theorem Token.limited_symbol (c : Char) : (symbol c).limited = symbol c :=
  rfl

@[simp] theorem Token.limited_keyword (k : Keyword) : (keyword k).limited = keyword k :=
  rfl

@[simp] theorem Token.limited_name (n : String) : (name n).limited = name n :=
  rfl

/-- A token inside of a statement, a parameter only if its number is one of some. -/
@[simp] def Token.IsClosed (numbers : Nat → Prop) : Token → Prop
  | .param none => False
  | .param (some n) => numbers n
  | .symbol c => c ≠ ';'
  | _ => True

/-- Tokens inside of a statement whose parameters all have numbers of some. -/
def ClosedBy (numbers : Nat → Prop) (ts : List Token) : Prop :=
  ∀ t ∈ ts, t.IsClosed numbers

/-- Tokens inside of a statement whose parameters all have numbers. -/
abbrev Closed : List Token → Prop :=
  ClosedBy fun _ => True

section

variable {numbers : Nat → Prop}

@[simp] theorem closed_nil : ClosedBy numbers [] :=
  nofun

@[simp] theorem closed_cons {t : Token} :
    ClosedBy numbers (t :: ts) ↔ t.IsClosed numbers ∧ ClosedBy numbers ts :=
  List.forall_mem_cons

@[simp] theorem closed_append :
    ClosedBy numbers (ts ++ us) ↔ ClosedBy numbers ts ∧ ClosedBy numbers us :=
  List.forall_mem_append

theorem ClosedBy.semicolon_notMem (h : ClosedBy numbers ts) : .symbol ';' ∉ ts :=
  fun hin => h _ hin rfl

/-- Tokens without parameters are as they were cut. -/
theorem ClosedBy.limited (h : ClosedBy (fun _ => False) ts) : ts.map Token.limited = ts := by
  refine (List.map_congr_left fun t ht => ?_).trans (List.map_id ts)
  have hclosed := h t ht
  cases t with
  | param n => cases n <;> exact hclosed.elim
  | _ => rfl

theorem closed_intercalate {tss : List (List Token)} (h : ∀ ts ∈ tss, ClosedBy numbers ts) :
    ClosedBy numbers (List.intercalate [.symbol ','] tss) := by
  induction tss with
  | nil => simp
  | cons ts tss ih =>
      cases tss with
      | nil => simpa using h
      | cons us tss =>
          rw [List.intercalate_cons_cons, closed_append, closed_append]
          exact ⟨⟨h ts (by simp), by simp⟩, ih fun us hus => h us (by simp [hus])⟩

end

/-- The largest number of a parameter, those without one numbered behind `m`. -/
def largestParam (m : Nat) : List Token → Nat
  | [] => m
  | .param none :: r => largestParam (m + 1) r
  | .param (some n) :: r => largestParam (max m n) r
  | _ :: r => largestParam m r

theorem numberParams_append :
    numberParams m (ts ++ us) = numberParams m ts ++ numberParams (largestParam m ts) us := by
  induction ts generalizing m with
  | nil => rfl
  | cons t ts ih =>
      cases t with
      | param i => cases i <;> simp only [List.cons_append, numberParams, largestParam, ih]
      | _ => simp only [List.cons_append, numberParams, largestParam, ih]

theorem largestParam_append :
    largestParam m (ts ++ us) = largestParam (largestParam m ts) us := by
  induction ts generalizing m with
  | nil => rfl
  | cons t ts ih =>
      cases t with
      | param i => cases i <;> simp only [List.cons_append, largestParam, ih]
      | _ => simp only [List.cons_append, largestParam, ih]

theorem largestParam_intercalate (tss : List (List Token)) :
    largestParam m (List.intercalate [.symbol ','] tss) = tss.foldl largestParam m := by
  induction tss generalizing m with
  | nil => rfl
  | cons ts tss ih =>
      cases tss with
      | nil => simp
      | cons us tss =>
          rw [List.intercalate_cons_cons, largestParam_append, largestParam_append, ih]
          rfl

theorem map_limited_intercalate (tss : List (List Token)) :
    (List.intercalate [.symbol ','] tss).map Token.limited =
      List.intercalate [.symbol ','] (tss.map (List.map Token.limited)) := by
  induction tss with
  | nil => rfl
  | cons ts tss ih =>
      cases tss with
      | nil => simp
      | cons us tss => simpa [List.intercalate_cons_cons] using ih

theorem numberParams_closed {numbers : Nat → Prop} (h : ClosedBy numbers ts) :
    numberParams m ts = ts := by
  induction ts generalizing m with
  | nil => rfl
  | cons t ts ih =>
      obtain ⟨ht, hrest⟩ := closed_cons.1 h
      cases t with
      | param i =>
          cases i with
          | none => exact ht.elim
          | some n => rw [numberParams, ih hrest]
      | _ => simp only [numberParams, ih hrest]

theorem illegal_mem_numberParams (h : Token.illegal ∈ ts) : Token.illegal ∈ numberParams m ts := by
  induction ts generalizing m with
  | nil => simp at h
  | cons t ts ih =>
      rcases List.mem_cons.1 h with rfl | hrest
      · simp [numberParams]
      · cases t with
        | param i => cases i <;> simp [numberParams, ih hrest]
        | _ => simp [numberParams, ih hrest]

theorem semicolon_notMem_limited (h : .symbol ';' ∉ ts) : .symbol ';' ∉ ts.map Token.limited := by
  intro hin
  obtain ⟨t, ht, hlimited⟩ := List.mem_map.1 hin
  unfold Token.limited at hlimited
  split at hlimited
  · unfold paramToken at hlimited
    split at hlimited <;> simp at hlimited
  · exact h (hlimited ▸ ht)

/-- Parameters with numbers that a statement may use are as they were cut. -/
theorem map_limited_of_legal (h : Token.illegal ∉ ts.map Token.limited) :
    ts.map Token.limited = ts := by
  refine (List.map_congr_left fun t ht => ?_).trans (List.map_id ts)
  have hlegal : t.limited ≠ .illegal := fun he => h (List.mem_map.2 ⟨t, ht, he⟩)
  unfold Token.limited at hlegal ⊢
  split at hlegal
  · unfold paramToken at hlegal ⊢
    split at hlegal
    · rename_i hlimit
      exact if_pos hlimit
    · exact absurd rfl hlegal
  · rfl

/-! ## Tokens that stay -/

/-- Tokens that mean the same wherever they stand in a statement. -/
def Token.isFixed : Token → Bool
  | .param _ | .illegal => false
  | .symbol c => c ≠ ';'
  | _ => true

/-- Tokens that all mean the same wherever they stand. -/
def Fixed (ts : List Token) : Prop :=
  ∀ t ∈ ts, t.isFixed = true

@[simp] theorem fixed_nil : Fixed [] := by
  simp [Fixed]

@[simp] theorem fixed_cons {t : Token} : Fixed (t :: ts) ↔ t.isFixed = true ∧ Fixed ts := by
  simp [Fixed]

@[simp] theorem fixed_append : Fixed (ts ++ us) ↔ Fixed ts ∧ Fixed us := by
  simp [Fixed, or_imp, forall_and]

theorem Fixed.closed (h : Fixed ts) : Closed ts := by
  intro t ht
  have hfixed := h t ht
  cases t <;> simp_all [Token.isFixed]

theorem Fixed.semicolon_notMem (h : Fixed ts) : .symbol ';' ∉ ts :=
  h.closed.semicolon_notMem

theorem Token.limited_of_isFixed {t : Token} (h : t.isFixed = true) : t.limited = t := by
  cases t with
  | param n => simp [Token.isFixed] at h
  | _ => rfl

theorem Fixed.limited (h : Fixed ts) : ts.map Token.limited = ts :=
  (List.map_congr_left fun t ht => Token.limited_of_isFixed (h t ht)).trans (List.map_id ts)

theorem Fixed.largestParam (h : Fixed ts) : largestParam m ts = m := by
  induction ts generalizing m with
  | nil => rfl
  | cons t ts ih =>
      obtain ⟨ht, hrest⟩ := fixed_cons.1 h
      cases t with
      | param n => simp [Token.isFixed] at ht
      | _ => exact ih hrest

theorem Fixed.numberParams (h : Fixed ts) :
    numberParams m (ts ++ us) = ts ++ numberParams m us := by
  rw [numberParams_append, numberParams_closed h.closed, h.largestParam]

theorem fixed_intercalate {tss : List (List Token)} (h : ∀ ts ∈ tss, Fixed ts) :
    Fixed (List.intercalate [.symbol ','] tss) := by
  induction tss with
  | nil => simp
  | cons ts tss ih =>
      cases tss with
      | nil => simpa using h
      | cons us tss =>
          rw [List.intercalate_cons_cons, fixed_append, fixed_append]
          exact ⟨⟨h ts (by simp), by simp [Token.isFixed]⟩, ih fun us hus => h us (by simp [hus])⟩

/-! ## Scripts of one statement -/

theorem splitStatements_single {begun : List Token} (hts : .symbol ';' ∉ ts)
    (hne : begun.reverse ++ ts ≠ []) : splitStatements begun ts = [begun.reverse ++ ts] := by
  induction ts generalizing begun with
  | nil =>
      have hbegun : begun ≠ [] := by simpa using hne
      simp [splitStatements, hbegun]
  | cons t ts ih =>
      simp only [List.mem_cons, not_or] at hts
      rw [splitStatements, ih hts.2 (by simp)]
      · simp
      · rintro rfl
        exact hts.1 rfl

/-- A text without a semicolon is read as one statement. -/
theorem readScript_single {text : String} (htext : Token.scan text = ts) (hne : ts ≠ [])
    (hts : .symbol ';' ∉ ts) : readScript text = [ofTokens? (numberParams 0 ts)] := by
  rw [readScript, htext, splitStatements_single hts (by simpa using hne)]
  rfl

end StagedStore.Sql
