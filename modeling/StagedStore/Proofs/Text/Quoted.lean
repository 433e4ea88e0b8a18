import StagedStore.Text.Quoted

/-!
# Texts in quotes are read as they were written

What `Quoted.read?` finds behind an opening quote is a text whose quotes were doubled, up to a
closing quote with no other quote behind it.
-/

namespace StagedStore.Quoted

variable {quote c : Char} {cs name rest : List Char}

theorem mem_double : c ∈ double quote cs ↔ c ∈ cs := by
  induction cs with
  | nil => rfl
  | cons d cs ih =>
      rw [double]
      split
      · rename_i hd
        simp [hd, ih]
      · simp [ih]

/-- A text without the quote is written as it is. -/
theorem double_of_notMem (h : quote ∉ cs) : double quote cs = cs := by
  induction cs with
  | nil => rfl
  | cons d cs ih =>
      rw [List.mem_cons, not_or] at h
      rw [double, if_neg fun hd => h.1 hd.symm, ih h.2]

theorem read?_double (hrest : rest.head? ≠ some quote) :
    read? quote (double quote cs ++ quote :: rest) = some (cs, rest) := by
  induction cs with
  | nil =>
      cases rest with
      | nil => simp [double, read?]
      | cons d r =>
          have hd : d ≠ quote := by simpa using hrest
          simp [double, read?, hd]
  | cons c cs ih =>
      rw [double]
      by_cases hc : c = quote
      · rw [if_pos hc, List.cons_append, List.cons_append, read?, if_pos rfl, if_pos rfl, ih, hc]
        rfl
      · rw [if_neg hc, List.cons_append]
        obtain ⟨d, q, hq⟩ : ∃ d q, double quote cs ++ quote :: rest = d :: q := by
          cases hcs : double quote cs with
          | nil => exact ⟨_, _, rfl⟩
          | cons d q => exact ⟨_, _, rfl⟩
        rw [hq, read?, if_neg hc, ← hq, ih]
        rfl

theorem eq_of_read? (h : read? quote cs = some (name, rest)) :
    cs = double quote name ++ quote :: rest ∧ rest.head? ≠ some quote := by
  fun_induction read? quote cs generalizing name with
  | case1 => simp at h
  | case2 =>
      obtain ⟨rfl, rfl⟩ := Prod.mk.inj (Option.some.inj h)
      simp [double]
  | case3 => simp at h
  | case4 r ih =>
      obtain ⟨⟨s, t⟩, hr, he⟩ := Option.map_eq_some_iff.1 h
      obtain ⟨rfl, rfl⟩ := Prod.mk.inj he
      obtain ⟨rfl, hrest⟩ := ih hr
      simp [double, hrest]
  | case5 d r hd =>
      obtain ⟨rfl, rfl⟩ := Prod.mk.inj (Option.some.inj h)
      simp [double, hd]
  | case6 c d r hc ih =>
      obtain ⟨⟨s, t⟩, hr, he⟩ := Option.map_eq_some_iff.1 h
      obtain ⟨rfl, rfl⟩ := Prod.mk.inj he
      obtain ⟨hcs, hrest⟩ := ih hr
      simp [double, hc, hcs, hrest]

theorem read?_eq_some_iff : read? quote cs = some (name, rest) ↔
    cs = double quote name ++ quote :: rest ∧ rest.head? ≠ some quote := by
  refine ⟨eq_of_read?, ?_⟩
  rintro ⟨rfl, hrest⟩
  exact read?_double hrest

end StagedStore.Quoted
