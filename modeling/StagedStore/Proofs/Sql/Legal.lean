import StagedStore.Proofs.Sql.Selects

/-!
# Legal tokens

Readers take tokens from the front, and no illegal token is among those that they take. So a query
that is read holds none: its parameters all have numbers that a statement may use.
-/

namespace StagedStore.Sql

/-- Tokens are others behind tokens that are legal. -/
def Takes (ts r : List Token) : Prop :=
  ∃ pre, ts = pre ++ r ∧ Token.illegal ∉ pre

namespace Takes

variable {ts us r : List Token}

theorem refl (ts : List Token) : Takes ts ts :=
  ⟨[], rfl, List.not_mem_nil⟩

theorem trans (h : Takes ts us) (h' : Takes us r) : Takes ts r := by
  obtain ⟨pre, rfl, hpre⟩ := h
  obtain ⟨mid, rfl, hmid⟩ := h'
  exact ⟨pre ++ mid, by simp, by simp [hpre, hmid]⟩

theorem cons {t : Token} (ht : t ≠ .illegal) (h : Takes ts r) : Takes (t :: ts) r := by
  obtain ⟨pre, rfl, hpre⟩ := h
  exact ⟨t :: pre, rfl, by simp [hpre, ht.symm]⟩

theorem one {t : Token} (ht : t ≠ .illegal) : Takes (t :: r) r :=
  cons ht (refl r)

theorem legal (h : Takes ts []) : Token.illegal ∉ ts := by
  obtain ⟨pre, rfl, hpre⟩ := h
  rwa [List.append_nil]

end Takes

/-- A reader takes legal tokens only. -/
def Legally {α : Type} (read : List Token → Option (α × List Token)) : Prop :=
  ∀ {ts x r}, read ts = some (x, r) → Takes ts r

variable {n : Nat} {ts r : List Token}

/-! ## Names and words -/

theorem ne_illegal_of_part {t : Token} {p : Part} (h : partOfToken? t = some p) : t ≠ .illegal := by
  rintro rfl
  simp [partOfToken?] at h

theorem takes_expect {t : Token} (ht : t ≠ .illegal) (h : expect t ts = some r) : Takes ts r := by
  cases ts with
  | nil => simp [expect] at h
  | cons u us =>
      rw [expect] at h
      split at h
      · rename_i hu
        obtain rfl := Option.some.inj h
        exact .one (hu ▸ ht)
      · simp at h

theorem legally_part : Legally readPart? := by
  intro ts p r h
  cases ts with
  | nil => simp [readPart?] at h
  | cons t ts =>
      obtain ⟨q, hq, he⟩ := Option.map_eq_some_iff.1 h
      obtain ⟨rfl, rfl⟩ := Prod.mk.inj he
      exact .one (ne_illegal_of_part hq)

theorem legally_tableName : Legally readTableName? := by
  intro ts i r h
  obtain ⟨⟨a, us⟩, ha, h⟩ := Option.bind_eq_some_iff.1 h
  have htakes := legally_part ha
  dsimp only at h
  split at h
  · obtain ⟨⟨b, vs⟩, hb, h⟩ := Option.bind_eq_some_iff.1 h
    obtain ⟨-, rfl⟩ := Prod.mk.inj (Option.some.inj h)
    exact htakes.trans (.cons (by simp) (legally_part hb))
  · obtain ⟨-, rfl⟩ := Prod.mk.inj (Option.some.inj h)
    exact htakes

theorem legally_alias : Legally readAlias? := by
  intro ts a r h
  unfold readAlias? at h
  split at h
  · obtain ⟨⟨p, us⟩, hp, he⟩ := Option.map_eq_some_iff.1 h
    obtain ⟨-, rfl⟩ := Prod.mk.inj he
    exact .cons (by simp) (legally_part hp)
  · obtain ⟨-, rfl⟩ := Prod.mk.inj (Option.some.inj h)
    exact .refl _

/-! ## Expressions and lists of them -/

theorem legally_expr : Legally (readExpr? n) := by
  intro ts x r h
  obtain ⟨pre, rfl, hpre⟩ := disjoined_of_read h
  exact ⟨pre, rfl, hpre.legal⟩

theorem legally_exprs {before : List Expr} : Legally (readExprs? n before) := by
  intro ts xs r h
  obtain ⟨pre, rfl, hlegal, -⟩ := (readAgain n).exprs h
  exact ⟨pre, rfl, hlegal⟩

theorem legally_tuples {d : Nat} {before : List (List Expr)} : Legally (readTuples? d before) := by
  have htuple : ∀ {n}, Legally (readTuple? n) := by
    intro n ts es r h
    obtain ⟨us, hus, h⟩ := Option.bind_eq_some_iff.1 h
    obtain ⟨⟨es', vs⟩, hes, h⟩ := Option.bind_eq_some_iff.1 h
    obtain ⟨ws, hws, h⟩ := Option.bind_eq_some_iff.1 h
    obtain ⟨-, rfl⟩ := Prod.mk.inj (Option.some.inj h)
    exact (takes_expect (by simp) hus).trans ((legally_exprs hes).trans
      (takes_expect (by simp) hws))
  intro ts xs r h
  induction d generalizing before ts with
  | zero => simp [readTuples?] at h
  | succ d ih =>
      unfold readTuples? at h
      split at h
      · rename_i hes
        exact (htuple hes).trans (.cons (by simp) (ih h))
      · rename_i hes
        obtain ⟨-, rfl⟩ := Prod.mk.inj (Option.some.inj h)
        exact htuple hes
      · simp at h

theorem legally_columns {before : List ResultColumn} : Legally (readColumns? n before) := by
  intro ts cs r h
  induction n generalizing before ts with
  | zero => simp [readColumns?] at h
  | succ n ih =>
      have hfurther {c : ResultColumn} {us : List Token}
          (h : readFurther? n (c :: before) us = some (cs, r)) : Takes us r := by
        unfold readFurther? at h
        split at h
        · exact .cons (by simp) (ih h)
        · obtain ⟨-, rfl⟩ := Prod.mk.inj (Option.some.inj h)
          exact .refl _
      unfold readColumns? at h
      split at h
      · exact .cons (by simp) (hfurther (readFurther_eq.symm.trans h))
      · obtain ⟨⟨e, us⟩, he, h⟩ := Option.bind_eq_some_iff.1 h
        obtain ⟨⟨a, vs⟩, ha, h⟩ := Option.bind_eq_some_iff.1 h
        exact (legally_expr he).trans ((legally_alias ha).trans
          (hfurther (readFurther_eq.symm.trans h)))

/-! ## Clauses -/

theorem legally_where : Legally (readWhere? n) := by
  intro ts x r h
  unfold readWhere? at h
  split at h
  · obtain ⟨⟨e, us⟩, he, h⟩ := Option.map_eq_some_iff.1 h
    obtain ⟨-, rfl⟩ := Prod.mk.inj h
    exact .cons (by simp) (legally_expr he)
  · obtain ⟨-, rfl⟩ := Prod.mk.inj (Option.some.inj h)
    exact .refl _

theorem legally_orderTerms {before : List OrderTerm} : Legally (readOrderTerms? n before) := by
  intro ts os r h
  induction n generalizing before ts with
  | zero => simp [readOrderTerms?] at h
  | succ n ih =>
      have hfurther {o : OrderTerm} {us : List Token}
          (h : readFurtherTerms? n (o :: before) us = some (os, r)) : Takes us r := by
        unfold readFurtherTerms? at h
        split at h
        · exact .cons (by simp) (ih h)
        · obtain ⟨-, rfl⟩ := Prod.mk.inj (Option.some.inj h)
          exact .refl _
      obtain ⟨⟨e, us⟩, he, h⟩ := Option.bind_eq_some_iff.1 h
      obtain ⟨d, vs, hvs, h⟩ : ∃ d vs, Takes us vs ∧
          readFurtherTerms? n (⟨e, d⟩ :: before) vs = some (os, r) := by
        refine ⟨_, _, ?_, readFurtherTerms_eq.symm.trans h⟩
        split
        · exact .one (by simp)
        · exact .one (by simp)
        · exact .refl _
      exact (legally_expr he).trans (hvs.trans (hfurther h))

theorem legally_order : Legally (readOrder? n) := by
  intro ts os r h
  unfold readOrder? at h
  split at h
  · exact .cons (by simp) (.cons (by simp) (legally_orderTerms h))
  · obtain ⟨-, rfl⟩ := Prod.mk.inj (Option.some.inj h)
    exact .refl _

theorem legally_integer : Legally readInteger? := by
  intro ts k r h
  unfold readInteger? at h
  split at h
  · obtain ⟨-, rfl⟩ := Prod.mk.inj (Option.some.inj h)
    exact .cons (by simp) (.one (by simp))
  · obtain ⟨-, rfl⟩ := Prod.mk.inj (Option.some.inj h)
    exact .one (by simp)
  · simp at h

theorem legally_limit : Legally readLimit? := by
  intro ts l r h
  unfold readLimit? at h
  split at h
  · obtain ⟨⟨k, us⟩, hk, h⟩ := Option.bind_eq_some_iff.1 h
    have htakes := Takes.cons (t := .keyword .limit) (by simp) (legally_integer hk)
    dsimp only at h
    split at h
    · obtain ⟨⟨o, vs⟩, ho, h⟩ := Option.bind_eq_some_iff.1 h
      obtain ⟨-, rfl⟩ := Prod.mk.inj (Option.some.inj h)
      exact htakes.trans (.cons (by simp) (legally_integer ho))
    · obtain ⟨-, rfl⟩ := Prod.mk.inj (Option.some.inj h)
      exact htakes
  · obtain ⟨-, rfl⟩ := Prod.mk.inj (Option.some.inj h)
    exact .refl _

/-! ## Queries -/

/-- What is known of the readers of queries with some steps. -/
structure ReadLegally (n : Nat) : Prop where
  select : Legally (readSelect? n)
  source : Legally (readSource? n)
  plain : Legally (readPlainSource? n)
  joins : ∀ {s}, Legally (readJoins? n s)

theorem readLegally (n : Nat) : ReadLegally n := by
  induction n with
  | zero =>
      refine ⟨?_, ?_, ?_, ?_⟩
      all_goals
        intros
        intro ts x r h
        simp [readSelect?, readSource?, readPlainSource?, readJoins?] at h
  | succ n ih =>
      refine ⟨?_, ?_, ?_, ?_⟩
      · intro ts q r h
        have hclauses {vs : List Token} {cs : List ResultColumn} {s : Option Source} (h : (do
            let c ← readWhere? (n + 1) vs
            let o ← readOrder? (n + 1) c.2
            let l ← readLimit? o.2
            return (.mk cs s c.1 o.1 l.1, l.2)) = some (q, r)) : Takes vs r := by
          obtain ⟨⟨c, xs⟩, hc, h⟩ := Option.bind_eq_some_iff.1 h
          obtain ⟨⟨o, ys⟩, ho, h⟩ := Option.bind_eq_some_iff.1 h
          obtain ⟨⟨l, zs⟩, hl, h⟩ := Option.bind_eq_some_iff.1 h
          obtain ⟨-, rfl⟩ := Prod.mk.inj (Option.some.inj h)
          exact (legally_where hc).trans ((legally_order ho).trans (legally_limit hl))
        obtain ⟨us, hus, h⟩ := Option.bind_eq_some_iff.1 h
        obtain ⟨⟨cs, vs⟩, hcs, h⟩ := Option.bind_eq_some_iff.1 h
        have htakes := (takes_expect (by simp) hus).trans (legally_columns hcs)
        dsimp only at h
        split at h
        · obtain ⟨⟨s, ws⟩, hs, h⟩ := Option.bind_eq_some_iff.1 h
          obtain ⟨⟨s', ws'⟩, hs', he⟩ := Option.map_eq_some_iff.1 hs
          obtain ⟨-, rfl⟩ := Prod.mk.inj he
          exact htakes.trans (.cons (by simp) ((ih.source hs').trans (hclauses h)))
        · exact htakes.trans (hclauses h)
      · intro ts s r h
        unfold readSource? at h
        split at h
        · rename_i hs
          exact (ih.plain hs).trans (ih.joins h)
        · simp at h
      · intro ts s r h
        unfold readPlainSource? at h
        split at h
        · obtain ⟨⟨rows, us⟩, hrows, h⟩ := Option.bind_eq_some_iff.1 h
          obtain ⟨vs, hvs, h⟩ := Option.bind_eq_some_iff.1 h
          obtain ⟨-, rfl⟩ := Prod.mk.inj (Option.some.inj h)
          exact .cons (by simp) (.cons (by simp)
            ((legally_tuples hrows).trans (takes_expect (by simp) hvs)))
        · obtain ⟨⟨q, us⟩, hq, h⟩ := Option.bind_eq_some_iff.1 h
          obtain ⟨vs, hvs, h⟩ := Option.bind_eq_some_iff.1 h
          obtain ⟨⟨a, ws⟩, ha, h⟩ := Option.bind_eq_some_iff.1 h
          obtain ⟨-, rfl⟩ := Prod.mk.inj (Option.some.inj h)
          exact .cons (by simp) ((ih.select hq).trans
            ((takes_expect (by simp) hvs).trans (legally_alias ha)))
        · obtain ⟨⟨i, us⟩, hi, h⟩ := Option.bind_eq_some_iff.1 h
          obtain ⟨⟨a, vs⟩, ha, h⟩ := Option.bind_eq_some_iff.1 h
          obtain ⟨-, rfl⟩ := Prod.mk.inj (Option.some.inj h)
          exact (legally_tableName hi).trans (legally_alias ha)
      · intro s ts s' r h
        have hjoin {us : List Token} (h : (do
            let t ← readPlainSource? n us
            let ws ← expectWord .on t.2
            let e ← readExpr? (n + 1) ws
            readJoins? n (.join s t.1 e.1) e.2) = some (s', r)) : Takes us r := by
          obtain ⟨⟨t, vs⟩, ht, h⟩ := Option.bind_eq_some_iff.1 h
          obtain ⟨ws, hws, h⟩ := Option.bind_eq_some_iff.1 h
          obtain ⟨⟨e, xs⟩, he, h⟩ := Option.bind_eq_some_iff.1 h
          exact (ih.plain ht).trans ((takes_expect (by simp) hws).trans
            ((legally_expr he).trans (ih.joins h)))
        unfold readJoins? at h
        split at h
        · exact .cons (by simp) (.cons (by simp) (hjoin h))
        · exact .cons (by simp) (hjoin h)
        · obtain ⟨-, rfl⟩ := Prod.mk.inj (Option.some.inj h)
          exact .refl _

end StagedStore.Sql
