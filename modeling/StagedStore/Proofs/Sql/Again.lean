import StagedStore.Sql.Reader

/-!
# Reading expressions again

What the readers of expressions give depends on the tokens they take away and hardly on what stands
behind these: whatever does not prolong an expression may stand there instead.  `Token.binding` says
how deep in an expression a token would prolong it.
-/

namespace StagedStore.Sql

/-- The nesting of forms that a token prolongs: operands, sums, comparisons, tests, conjunctions,
alternatives and, last, lists.  Other tokens prolong none. -/
def Token.binding : Token → Nat
  | .less | .lessEqual | .greater | .greaterEqual => 2
  | .equal | .unequal => 3
  | .symbol c =>
    if c = '.' ∨ c = '(' then 0 else if c = '+' then 1 else if c = ',' then 6 else 7
  | .keyword k =>
    match k with
    | .isnull | .notnull | .is | .not | .like | .in | .between => 3
    | .and => 4
    | .or => 5
    | _ => 7
  | _ => 7

/-- The forms that tokens behind an expression prolong. -/
def follow : List Token → Nat
  | [] => 7
  | t :: _ => t.binding

variable {α : Type}

/-- A reader that has taken some tokens away gives the same for them in front of all that prolongs
forms of a level at most, given steps in proportion to the tokens. -/
def Again (read : Nat → List Token → Option (α × List Token)) (level inner base least : Nat)
    (ts : List Token) (x : α) (r : List Token) : Prop :=
  ∃ pre, ts = pre ++ r ∧ Token.illegal ∉ pre ∧ least ≤ pre.length ∧
    ∀ r', level ≤ follow r' → inner ≤ follow (pre ++ r') ∧
      ∀ fuel, 8 * pre.length + base ≤ fuel → read fuel (pre ++ r') = some (x, r')

/-- What is known of all readers with some steps. -/
structure ReadAgain (n : Nat) : Prop where
  expr : ∀ {ts x r}, readExpr? n ts = some (x, r) → Again readExpr? 6 0 6 1 ts x r
  ors : ∀ {a ts x r}, readOrs? n a ts = some (x, r) → Again (readOrs? · a) 6 5 1 0 ts x r
  conjunction : ∀ {ts x r}, readConjunction? n ts = some (x, r) →
    Again readConjunction? 5 0 5 1 ts x r
  ands : ∀ {a ts x r}, readAnds? n a ts = some (x, r) → Again (readAnds? · a) 5 4 1 0 ts x r
  negation : ∀ {ts x r}, readNegation? n ts = some (x, r) → Again readNegation? 4 0 4 1 ts x r
  tests : ∀ {a ts x r}, readTests? n a ts = some (x, r) → Again (readTests? · a) 4 3 2 0 ts x r
  negatable : ∀ {b a ts x r}, readNegatable? n b a ts = some (x, r) →
    Again (readNegatable? · b a) 4 3 1 1 ts x r
  comparison : ∀ {ts x r}, readComparison? n ts = some (x, r) →
    Again readComparison? 3 0 3 1 ts x r
  comparisons : ∀ {a ts x r}, readComparisons? n a ts = some (x, r) →
    Again (readComparisons? · a) 3 2 1 0 ts x r
  sum : ∀ {ts x r}, readSum? n ts = some (x, r) → Again readSum? 2 0 2 1 ts x r
  addends : ∀ {a ts x r}, readAddends? n a ts = some (x, r) →
    Again (readAddends? · a) 2 1 1 0 ts x r
  operand : ∀ {ts x r}, readOperand? n ts = some (x, r) → Again readOperand? 1 0 1 1 ts x r
  arms : ∀ {before ts x r}, readArms? n before ts = some (x, r) →
    Again (readArms? · before) 0 6 1 1 ts x r
  exprs : ∀ {before ts x r}, readExprs? n before ts = some (x, r) →
    Again (readExprs? · before) 7 0 7 1 ts x r

theorem follow_append {pre r : List Token} (h : pre ≠ []) : follow (pre ++ r) = follow pre := by
  cases pre with
  | nil => exact absurd rfl h
  | cons t pre => rfl

namespace Again

variable {β : Type} {read first : Nat → List Token → Option (α × List Token)}
  {next : Nat → List Token → Option (β × List Token)} {level inner base least : Nat}
  {ts r : List Token} {x : β}

/-- A reader that takes nothing away from what does not prolong it. -/
theorem stop (hread : ∀ r' n, level ≤ follow r' → next (n + 1) r' = some (x, r'))
    (hinner : inner ≤ level) : Again next level inner (base + 1) 0 r x r := by
  refine ⟨[], rfl, by simp, Nat.zero_le _, fun r' hr => ⟨Nat.le_trans hinner hr, ?_⟩⟩
  intro fuel hfuel
  obtain ⟨n, rfl⟩ : ∃ n, fuel = n + 1 := ⟨fuel - 1, by simp at hfuel; omega⟩
  exact hread r' n hr

/-- A reader that takes nothing away. -/
theorem rest (level base : Nat) : Again (fun _ ts => some (x, ts)) level level base 0 r x r :=
  ⟨[], rfl, by simp, Nat.zero_le _, fun _ hr => ⟨hr, fun _ _ => rfl⟩⟩

/-- A reader that takes tokens away and leaves the rest to another. -/
theorem behind {read : Nat → List Token → Option (β × List Token)} {l m b : Nat} (pre : List Token)
    (hread : ∀ n ts, read (n + 1) (pre ++ ts) = next n ts) (hpre : pre ≠ [])
    (hlegal : Token.illegal ∉ pre) (hinner : inner ≤ follow pre)
    (h : Again next level m b l ts x r) (hbase : b ≤ 7 + base) (hleast : least ≤ 1 + l) :
    Again read level inner base least (pre ++ ts) x r := by
  obtain ⟨p, rfl, hp, hlen, h⟩ := h
  have hpos : 1 ≤ pre.length := List.length_pos_iff.2 hpre
  refine ⟨pre ++ p, (List.append_assoc ..).symm, by simp [hlegal, hp], by simp; omega, ?_⟩
  intro r' hr
  rw [List.append_assoc]
  refine ⟨by rw [follow_append hpre]; exact hinner, fun fuel hfuel => ?_⟩
  rw [List.length_append] at hfuel
  obtain ⟨n, rfl⟩ : ∃ n, fuel = n + 1 := ⟨fuel - 1, by omega⟩
  rw [hread]
  exact (h r' hr).2 n (by omega)

/-- A reader that takes tokens away and leaves the rest to another if it starts alike. -/
theorem behind_of_head {read : Nat → List Token → Option (β × List Token)} {m b : Nat}
    (pre : List Token)
    (hread : ∀ n ts', ts'.head? = ts.head? → read (n + 1) (pre ++ ts') = next n ts')
    (hpre : pre ≠ []) (hlegal : Token.illegal ∉ pre) (hinner : inner ≤ follow pre)
    (h : Again next level m b 1 ts x r) (hbase : b ≤ 7 + base) :
    Again read level inner base 1 (pre ++ ts) x r := by
  obtain ⟨p, rfl, hp, hlen, h⟩ := h
  have hpos : 1 ≤ pre.length := List.length_pos_iff.2 hpre
  obtain ⟨t, p, rfl⟩ : ∃ t q, p = t :: q := List.exists_cons_of_length_pos hlen
  refine ⟨pre ++ t :: p, (List.append_assoc ..).symm, fun hin => ?_, by simp; omega, fun r' hr => ?_⟩
  · rcases List.mem_append.1 hin with hin | hin
    · exact hlegal hin
    · exact hp hin
  · rw [List.append_assoc]
    refine ⟨by rw [follow_append hpre]; exact hinner, fun fuel hfuel => ?_⟩
    rw [List.length_append] at hfuel
    obtain ⟨n, rfl⟩ : ∃ n, fuel = n + 1 := ⟨fuel - 1, by omega⟩
    rw [hread n (t :: p ++ r') rfl]
    exact (h r' hr).2 n (by omega)

/-- A reader that takes a single token away. -/
theorem single {t : Token} (hread : ∀ r' n, level ≤ follow r' → next (n + 1) (t :: r') = some (x, r'))
    (hlegal : t ≠ .illegal) : Again next level 0 base 1 (t :: r) x r := by
  refine ⟨[t], rfl, by simp [hlegal.symm], by simp, fun r' hr => ⟨Nat.zero_le _, ?_⟩⟩
  intro fuel hfuel
  obtain ⟨n, rfl⟩ : ∃ n, fuel = n + 1 := ⟨fuel - 1, by simp at hfuel; omega⟩
  exact hread r' n hr

/-- What holds in front of all that prolongs forms of a level holds in front of less. -/
theorem above {level' : Nat} (h : Again next level inner base least ts x r)
    (hlevel : level ≤ level') : Again next level' inner base least ts x r := by
  obtain ⟨p, hp, hlegal, hlen, h⟩ := h
  exact ⟨p, hp, hlegal, hlen, fun r' hr => h r' (Nat.le_trans hlevel hr)⟩

/-- A reader that may take nothing away. -/
theorem anyLength (h : Again next level inner base least ts x r) :
    Again next level inner base 0 ts x r := by
  obtain ⟨p, hp, hlegal, -, h⟩ := h
  exact ⟨p, hp, hlegal, Nat.zero_le _, h⟩

/-- A reader that takes a step and leaves all to another. -/
theorem succ {read : Nat → List Token → Option (β × List Token)}
    (hread : ∀ n ts, read (n + 1) ts = next n ts) (h : Again next level inner base least ts x r) :
    Again read level inner (base + 1) least ts x r := by
  obtain ⟨p, rfl, hp, hlen, h⟩ := h
  refine ⟨p, rfl, hp, hlen, fun r' hr => ⟨(h r' hr).1, fun fuel hfuel => ?_⟩⟩
  obtain ⟨n, rfl⟩ : ∃ n, fuel = n + 1 := ⟨fuel - 1, by omega⟩
  rw [hread]
  exact (h r' hr).2 n (by omega)

/-- A reader that leaves all to another for tokens that start alike. -/
theorem succ_of_head {read : Nat → List Token → Option (β × List Token)}
    (hread : ∀ n ts', ts'.head? = ts.head? → read (n + 1) ts' = next n ts')
    (h : Again next level inner base 1 ts x r) : Again read level inner (base + 1) 1 ts x r := by
  obtain ⟨p, rfl, hp, hlen, h⟩ := h
  refine ⟨p, rfl, hp, hlen, fun r' hr => ⟨(h r' hr).1, fun fuel hfuel => ?_⟩⟩
  obtain ⟨n, rfl⟩ : ∃ n, fuel = n + 1 := ⟨fuel - 1, by omega⟩
  obtain ⟨t, p, rfl⟩ : ∃ t q, p = t :: q := List.exists_cons_of_length_pos hlen
  rw [hread n (t :: p ++ r') rfl]
  exact (h r' hr).2 n (by omega)

/-- A reader that hands on to another what a first one has read. -/
theorem chain (rest : α → Nat → List Token → Option (β × List Token)) {a : α} {r₁ : List Token}
    {l b c m : Nat} (h₁ : Again first l 0 b 1 ts a r₁) (h₂ : Again (rest a) level l c m r₁ x r)
    (hb : b ≤ base) (hc : c ≤ 8 + base) :
    Again (fun n ts => (first n ts).bind fun p => rest p.1 n p.2) level 0 base 1 ts x r := by
  obtain ⟨p, rfl, hp, hlen, h₁⟩ := h₁
  obtain ⟨q, rfl, hq, -, h₂⟩ := h₂
  refine ⟨p ++ q, (List.append_assoc ..).symm, by simp [hp, hq], by simp; omega, fun r' hr => ?_⟩
  obtain ⟨hinner, h₂⟩ := h₂ r' hr
  refine ⟨Nat.zero_le _, fun fuel hfuel => ?_⟩
  rw [List.length_append] at hfuel
  dsimp only
  rw [List.append_assoc, (h₁ (q ++ r') hinner).2 fuel (by omega), Option.bind_some]
  exact h₂ fuel (by omega)

/-- A reader that expects some token behind what a first one has read. -/
theorem closed (f : α → Nat → List Token → Option (β × List Token)) {a : α} {u : Token}
    {r₁ : List Token} {l b c m k : Nat} (hu : l ≤ u.binding) (hlegal : u ≠ .illegal)
    (h₁ : Again first l 0 b 1 ts a (u :: r₁)) (h₂ : Again (f a) level m c k r₁ x r)
    (hb : b ≤ base) (hc : c ≤ 16 + base) :
    Again (fun n ts => (first n ts).bind fun p => (expect u p.2).bind (f p.1 n)) level 0 base 1
      ts x r := by
  obtain ⟨p, rfl, hp, hlen, h₁⟩ := h₁
  obtain ⟨q, rfl, hq, -, h₂⟩ := h₂
  refine ⟨p ++ u :: q, by simp, by simp [hp, hq, hlegal.symm], by simp; omega, fun r' hr => ?_⟩
  refine ⟨Nat.zero_le _, fun fuel hfuel => ?_⟩
  rw [List.length_append, List.length_cons] at hfuel
  have hfirst := (h₁ (u :: (q ++ r')) hu).2 fuel (by omega)
  dsimp only
  rw [List.append_assoc, List.cons_append, hfirst, Option.bind_some, expect, if_pos rfl,
    Option.bind_some]
  exact (h₂ r' hr).2 fuel (by omega)

/-- A form of some nesting: what the one below it gives, and then all that prolongs it. -/
theorem level_of {read : Nat → List Token → Option (β × List Token)}
    (rest : α → Nat → List Token → Option (β × List Token)) {l b c m n : Nat}
    (hread : ∀ n ts, read (n + 1) ts = (first n ts).bind fun p => rest p.1 n p.2)
    (h : read (n + 1) ts = some (x, r))
    (hfirst : ∀ {a r₁}, first n ts = some (a, r₁) → Again first l 0 b 1 ts a r₁)
    (hrest : ∀ {a r₁}, rest a n r₁ = some (x, r) → Again (rest a) level l c m r₁ x r)
    (hb : b ≤ base) (hc : c ≤ 8 + base) : Again read level 0 (base + 1) 1 ts x r := by
  rw [hread] at h
  obtain ⟨⟨a, r₁⟩, h₁, h⟩ := Option.bind_eq_some_iff.1 h
  exact .succ hread (.chain rest (hfirst h₁) (hrest h) hb hc)

/-- An operator, what stands behind it, and then all that prolongs the whole. -/
theorem operator {read : Nat → List Token → Option (β × List Token)}
    (rest : α → Nat → List Token → Option (β × List Token)) {t : Token} {l b c m n : Nat}
    (hread : ∀ n ts, read (n + 1) (t :: ts) = (first n ts).bind fun p => rest p.1 n p.2)
    (h : read (n + 1) (t :: ts) = some (x, r)) (hlegal : t ≠ .illegal) (hinner : inner ≤ t.binding)
    (hfirst : ∀ {a r₁}, first n ts = some (a, r₁) → Again first l 0 b 1 ts a r₁)
    (hrest : ∀ {a r₁}, rest a n r₁ = some (x, r) → Again (rest a) level l c m r₁ x r)
    (hb : b ≤ 7 + base) (hc : c ≤ 15 + base) (hleast : least ≤ 2) :
    Again read level inner base least (t :: ts) x r := by
  rw [hread] at h
  obtain ⟨⟨a, r₁⟩, h₁, h⟩ := Option.bind_eq_some_iff.1 h
  exact .behind [t] hread (by simp) (by simpa using hlegal.symm) hinner
    (.chain rest (hfirst h₁) (hrest h) hb (by omega)) (Nat.le_refl _) hleast

/-- A reader that gives a form of what another reads. -/
theorem map {next : Nat → List Token → Option (α × List Token)} {a : α} (f : α → β)
    (h : Again next level inner base least ts a r) :
    Again (fun n ts => (next n ts).map fun p => (f p.1, p.2)) level inner base least ts (f a) r := by
  obtain ⟨p, rfl, hp, hlen, h⟩ := h
  refine ⟨p, rfl, hp, hlen, fun r' hr => ⟨(h r' hr).1, fun fuel hfuel => ?_⟩⟩
  exact congrArg _ ((h r' hr).2 fuel hfuel)

end Again

variable {n : Nat} {a x : Expr} {ts r : List Token}

theorem legal_of_partOfToken? {t : Token} {p : Part} (h : partOfToken? t = some p) :
    t ≠ .illegal := by
  rintro rfl
  simp [partOfToken?] at h

theorem token_of_part {t : Token} {p : Part} (h : partOfToken? t = some p) :
    t = .name p.name ∨ t = .word p.name := by
  unfold partOfToken? at h
  split at h
  · exact .inl (by rw [← Option.some.inj h, Part.name])
  · exact .inr (by rw [← Option.some.inj h, Part.name])
  · simp at h

theorem readTableName_again {i : Identifier} (h : readTableName? ts = some (i, r)) :
    Again (fun _ => readTableName?) 1 0 0 1 ts i r := by
  cases ts with
  | nil => simp [readTableName?, readPart?] at h
  | cons t ts =>
      cases ht : partOfToken? t with
      | none => simp [readTableName?, readPart?, ht] at h
      | some p =>
          have hp := legal_of_partOfToken? ht
          have hone (r' : List Token) (hr : ∀ q, r' ≠ .symbol '.' :: q) :
              readTableName? (t :: r') = some (.ofPart p, r') := by
            simp only [readTableName?, readPart?, ht, Option.map_some, Option.bind_eq_bind,
              Option.bind_some]
            rfl
          by_cases hdot : ∃ q, ts = .symbol '.' :: q
          · obtain ⟨q, rfl⟩ := hdot
            cases q with
            | nil => simp [readTableName?, readPart?, ht] at h
            | cons u q =>
                cases hu : partOfToken? u with
                | none => simp [readTableName?, readPart?, ht, hu] at h
                | some v =>
                    simp only [readTableName?, readPart?, ht, hu, Option.map_some,
                      Option.bind_eq_bind, Option.bind_some, Option.pure_def, Option.some.injEq,
                      Prod.mk.injEq] at h
                    obtain ⟨rfl, rfl⟩ := h
                    refine ⟨[t, .symbol '.', u], rfl, ?_, by simp, fun r' _ => ⟨Nat.zero_le _, ?_⟩⟩
                    · simp [hp.symm, (legal_of_partOfToken? hu).symm]
                    · intro fuel _
                      simp [readTableName?, readPart?, ht, hu]
          · rw [hone ts fun q hq => hdot ⟨q, hq⟩] at h
            obtain ⟨rfl, rfl⟩ := Prod.mk.inj (Option.some.inj h)
            refine ⟨[t], rfl, by simp [hp.symm], by simp, fun r' hr => ⟨Nat.zero_le _, ?_⟩⟩
            intro fuel _
            refine hone r' fun q hq => ?_
            rw [hq] at hr
            simp [follow, Token.binding] at hr

/-! ## One step of the readers -/

theorem readExpr?_succ (n : Nat) (ts : List Token) :
    readExpr? (n + 1) ts = (readConjunction? n ts).bind fun p => readOrs? n p.1 p.2 := by
  rw [readExpr?]
  rcases readConjunction? n ts with _ | ⟨_, _⟩ <;> rfl

theorem readOrs?_or (a : Expr) (n : Nat) (ts : List Token) :
    readOrs? (n + 1) a (.keyword .or :: ts) =
      (readConjunction? n ts).bind fun p => readOrs? n (.or a p.1) p.2 := by
  rw [readOrs?]
  rcases readConjunction? n ts with _ | ⟨_, _⟩ <;> rfl

theorem readConjunction?_succ (n : Nat) (ts : List Token) :
    readConjunction? (n + 1) ts = (readNegation? n ts).bind fun p => readAnds? n p.1 p.2 := by
  rw [readConjunction?]
  rcases readNegation? n ts with _ | ⟨_, _⟩ <;> rfl

theorem readAnds?_and (a : Expr) (n : Nat) (ts : List Token) :
    readAnds? (n + 1) a (.keyword .and :: ts) =
      (readNegation? n ts).bind fun p => readAnds? n (.and a p.1) p.2 := by
  rw [readAnds?]
  rcases readNegation? n ts with _ | ⟨_, _⟩ <;> rfl

theorem readTests?_equal (a : Expr) (n : Nat) (ts : List Token) :
    readTests? (n + 1) a (.equal :: ts) =
      (readComparison? n ts).bind fun p => readTests? n (.compare .eq a p.1) p.2 := by
  rw [readTests?]
  rcases readComparison? n ts with _ | ⟨_, _⟩ <;> rfl

theorem readTests?_unequal (a : Expr) (n : Nat) (ts : List Token) :
    readTests? (n + 1) a (.unequal :: ts) =
      (readComparison? n ts).bind fun p => readTests? n (.compare .ne a p.1) p.2 := by
  rw [readTests?]
  rcases readComparison? n ts with _ | ⟨_, _⟩ <;> rfl

theorem readNegatable?_like (b : Bool) (a : Expr) (n : Nat) (ts : List Token) :
    readNegatable? (n + 1) b a (.keyword .like :: ts) =
      (readComparison? n ts).bind fun p => readTests? n (.like b a p.1) p.2 := by
  rw [readNegatable?]
  rcases readComparison? n ts with _ | ⟨_, _⟩ <;> rfl

theorem readComparison?_succ (n : Nat) (ts : List Token) :
    readComparison? (n + 1) ts = (readSum? n ts).bind fun p => readComparisons? n p.1 p.2 := by
  rw [readComparison?]
  rcases readSum? n ts with _ | ⟨_, _⟩ <;> rfl

/-- The comparison of order that a token stands for. -/
def Token.order? : Token → Option Comparison
  | .less => some .lt
  | .lessEqual => some .le
  | .greater => some .gt
  | .greaterEqual => some .ge
  | _ => none

theorem readComparisons?_order {t : Token} {op : Comparison} (ht : t.order? = some op) (a : Expr)
    (n : Nat) (ts : List Token) :
    readComparisons? (n + 1) a (t :: ts) =
      (readSum? n ts).bind fun p => readComparisons? n (.compare op a p.1) p.2 := by
  unfold Token.order? at ht
  split at ht
  case h_5 => cases ht
  all_goals
    obtain rfl := Option.some.inj ht
    rw [readComparisons?]
    dsimp only
    rcases readSum? n ts with _ | ⟨_, _⟩ <;> rfl

theorem readSum?_succ (n : Nat) (ts : List Token) :
    readSum? (n + 1) ts = (readOperand? n ts).bind fun p => readAddends? n p.1 p.2 := by
  rw [readSum?]
  rcases readOperand? n ts with _ | ⟨_, _⟩ <;> rfl

theorem readAddends?_add (a : Expr) (n : Nat) (ts : List Token) :
    readAddends? (n + 1) a (.symbol '+' :: ts) =
      (readOperand? n ts).bind fun p => readAddends? n (.add a p.1) p.2 := by
  rw [readAddends?]
  rcases readOperand? n ts with _ | ⟨_, _⟩ <;> rfl

/-! ## Readers that stop -/

theorem readOrs_stop (hr : 6 ≤ follow r) : readOrs? (n + 1) a r = some (a, r) := by
  rw [readOrs?]
  rintro r rfl
  simp [follow, Token.binding] at hr

theorem readAnds_stop (hr : 5 ≤ follow r) : readAnds? (n + 1) a r = some (a, r) := by
  rw [readAnds?]
  rintro r rfl
  simp [follow, Token.binding] at hr

theorem readTests_stop (hr : 4 ≤ follow r) : readTests? (n + 1) a r = some (a, r) := by
  rw [readTests?] <;> rintro r rfl <;> simp [follow, Token.binding] at hr

theorem readComparisons_stop (hr : 3 ≤ follow r) : readComparisons? (n + 1) a r = some (a, r) := by
  rw [readComparisons?] <;> rintro r rfl <;> simp [follow, Token.binding] at hr

theorem readAddends_stop (hr : 2 ≤ follow r) : readAddends? (n + 1) a r = some (a, r) := by
  rw [readAddends?]
  rintro r rfl
  simp [follow, Token.binding] at hr

/-- A token that starts no operand, and is no `NOT`, starts no expression. -/
theorem readExpr_eq_none {t : Token} {q : List Token}
    (hoperand : ∀ n, readOperand? n (t :: q) = none) (hnot : t ≠ .keyword .not) :
    readExpr? n (t :: q) = none := by
  have hsum : ∀ n, readSum? n (t :: q) = none := by
    intro n
    cases n with
    | zero => rw [readSum?]
    | succ n => rw [readSum?, hoperand]
  have hcomparison : ∀ n, readComparison? n (t :: q) = none := by
    intro n
    cases n with
    | zero => rw [readComparison?]
    | succ n => rw [readComparison?, hsum]
  have hnegation : ∀ n, readNegation? n (t :: q) = none := by
    intro n
    cases n with
    | zero => rw [readNegation?]
    | succ n =>
        rw [readNegation?, hcomparison]
        exact fun r hr => hnot (List.cons.inj hr).1
  have hconjunction : ∀ n, readConjunction? n (t :: q) = none := by
    intro n
    cases n with
    | zero => rw [readConjunction?]
    | succ n => rw [readConjunction?, hnegation]
  cases n with
  | zero => rw [readExpr?]
  | succ n => rw [readExpr?, hconjunction]

theorem readExprs_eq_none {t : Token} {before : List Expr} {q : List Token}
    (hoperand : ∀ n, readOperand? n (t :: q) = none) (hnot : t ≠ .keyword .not) :
    readExprs? n before (t :: q) = none := by
  cases n with
  | zero => rw [readExprs?]
  | succ n => rw [readExprs?, readExpr_eq_none hoperand hnot]

/-- Some of the tokens that start no operand. -/
def Token.startsNone : Token → Bool
  | .keyword .select | .keyword .not | .symbol '*' | .symbol ')' => true
  | _ => false

theorem readOperand_startsNone {t : Token} (ht : t.startsNone = true) (q : List Token) (n : Nat) :
    readOperand? n (t :: q) = none := by
  unfold Token.startsNone at ht
  split at ht
  case h_5 => cases ht
  all_goals
    cases n with
    | zero => rw [readOperand?]
    | succ n =>
        unfold readOperand?
        split <;> rename_i heq <;> first | (cases heq; rfl) | cases heq

theorem head?_ne_of_readExprs? {t : Token} {before xs : List Expr} (ht : t.startsNone = true)
    (hnot : t ≠ .keyword .not) (h : readExprs? n before ts = some (xs, r)) :
    ts.head? ≠ some t := by
  intro hhead
  obtain ⟨q, rfl⟩ := List.head?_eq_some_iff.1 hhead
  rw [readExprs_eq_none (readOperand_startsNone ht q) hnot] at h
  cases h

/-! ## The readers of each form -/

namespace ReadAgain

theorem readExpr (ih : ReadAgain n) (h : readExpr? (n + 1) ts = some (x, r)) :
    Again readExpr? 6 0 6 1 ts x r :=
  .level_of (fun a n => readOrs? n a) readExpr?_succ h ih.conjunction ih.ors (Nat.le_refl 5)
    (by omega)

theorem readOrs (ih : ReadAgain n) (h : readOrs? (n + 1) a ts = some (x, r)) :
    Again (readOrs? · a) 6 5 1 0 ts x r := by
  have hstep := h
  unfold readOrs? at h
  split at h
  · exact .operator (fun b n => readOrs? n (.or a b)) (readOrs?_or a) hstep (by simp) (by decide)
      ih.conjunction ih.ors (by omega) (by omega) (by omega)
  · obtain ⟨rfl, rfl⟩ := Prod.mk.inj (Option.some.inj h)
    exact .stop (fun _ _ hr => readOrs_stop hr) (by omega)

theorem readConjunction (ih : ReadAgain n) (h : readConjunction? (n + 1) ts = some (x, r)) :
    Again readConjunction? 5 0 5 1 ts x r :=
  .level_of (fun a n => readAnds? n a) readConjunction?_succ h ih.negation ih.ands (Nat.le_refl 4)
    (by omega)

theorem readAnds (ih : ReadAgain n) (h : readAnds? (n + 1) a ts = some (x, r)) :
    Again (readAnds? · a) 5 4 1 0 ts x r := by
  have hstep := h
  unfold readAnds? at h
  split at h
  · exact .operator (fun b n => readAnds? n (.and a b)) (readAnds?_and a) hstep (by simp)
      (by decide) ih.negation ih.ands (by omega) (by omega) (by omega)
  · obtain ⟨rfl, rfl⟩ := Prod.mk.inj (Option.some.inj h)
    exact .stop (fun _ _ hr => readAnds_stop hr) (by omega)

theorem readComparison (ih : ReadAgain n) (h : readComparison? (n + 1) ts = some (x, r)) :
    Again readComparison? 3 0 3 1 ts x r :=
  .level_of (fun a n => readComparisons? n a) readComparison?_succ h ih.sum ih.comparisons
    (Nat.le_refl 2) (by omega)

theorem readSum (ih : ReadAgain n) (h : readSum? (n + 1) ts = some (x, r)) :
    Again readSum? 2 0 2 1 ts x r :=
  .level_of (fun a n => readAddends? n a) readSum?_succ h ih.operand ih.addends (Nat.le_refl 1)
    (by omega)

theorem readAddends (ih : ReadAgain n) (h : readAddends? (n + 1) a ts = some (x, r)) :
    Again (readAddends? · a) 2 1 1 0 ts x r := by
  have hstep := h
  unfold readAddends? at h
  split at h
  · exact .operator (fun b n => readAddends? n (.add a b)) (readAddends?_add a) hstep (by simp)
      (by decide) ih.operand ih.addends (by omega) (by omega) (by omega)
  · obtain ⟨rfl, rfl⟩ := Prod.mk.inj (Option.some.inj h)
    exact .stop (fun _ _ hr => readAddends_stop hr) (by omega)

theorem readComparisons (ih : ReadAgain n) (h : readComparisons? (n + 1) a ts = some (x, r)) :
    Again (readComparisons? · a) 3 2 1 0 ts x r := by
  have step {t : Token} {op : Comparison} {ts : List Token} (ht : t.order? = some op)
      (hlegal : t ≠ .illegal) (hinner : 2 ≤ t.binding)
      (h : readComparisons? (n + 1) a (t :: ts) = some (x, r)) :
      Again (readComparisons? · a) 3 2 1 0 (t :: ts) x r :=
    .operator (fun b n => readComparisons? n (.compare op a b)) (readComparisons?_order ht a) h
      hlegal hinner ih.sum ih.comparisons (by omega) (by omega) (by omega)
  have hstep := h
  unfold readComparisons? at h
  split at h
  · exact step rfl (by simp) (by decide) hstep
  · exact step rfl (by simp) (by decide) hstep
  · exact step rfl (by simp) (by decide) hstep
  · exact step rfl (by simp) (by decide) hstep
  · obtain ⟨rfl, rfl⟩ := Prod.mk.inj (Option.some.inj h)
    exact .stop (fun _ _ hr => readComparisons_stop hr) (by omega)

theorem readNegation (ih : ReadAgain n) (h : readNegation? (n + 1) ts = some (x, r)) :
    Again readNegation? 4 0 4 1 ts x r := by
  unfold readNegation? at h
  split at h
  · split at h
    · rename_i h₁
      obtain ⟨rfl, rfl⟩ := Prod.mk.inj (Option.some.inj h)
      refine .behind [.keyword .not] (fun n ts => ?_) (by simp) (by simp) (Nat.zero_le _)
        ((ih.negation h₁).map Expr.not) (by omega) (by omega)
      rw [List.singleton_append, readNegation?]
      rcases readNegation? n ts with _ | ⟨_, _⟩ <;> rfl
    · simp at h
  · rename_i hnot
    split at h
    · rename_i h₁
      refine .succ_of_head (fun n ts' hhead => ?_) (.chain (fun a n => readTests? n a)
        (ih.comparison h₁) (ih.tests h) (Nat.le_refl 3) (by omega))
      rw [readNegation?]
      · rcases readComparison? n ts' with _ | ⟨_, _⟩ <;> rfl
      · rintro r rfl
        obtain ⟨q, rfl⟩ : ∃ q, ts = .keyword .not :: q := by
          cases ts with
          | nil => simp at hhead
          | cons u q => exact ⟨q, by simpa using hhead.symm⟩
        exact hnot q rfl
    · simp at h

theorem readTests (ih : ReadAgain n) (h : readTests? (n + 1) a ts = some (x, r)) :
    Again (readTests? · a) 4 3 2 0 ts x r := by
  have check (negated : Bool) (pre : List Token) {ts : List Token} (hpre : follow pre = 3)
      (hne : pre ≠ []) (hlegal : Token.illegal ∉ pre)
      (hread : ∀ n ts, readTests? (n + 1) a (pre ++ ts) = readTests? n (.nullCheck negated a) ts)
      (h : readTests? n (.nullCheck negated a) ts = some (x, r)) :
      Again (readTests? · a) 4 3 2 0 (pre ++ ts) x r :=
    .behind pre hread hne hlegal (Nat.le_of_eq hpre.symm) (ih.tests h) (by omega) (by omega)
  have negate (b : Bool) {ts : List Token}
      (hread : ∀ n ts', ts'.head? = ts.head? → readTests? (n + 1) a ts' = readNegatable? n b a ts')
      (h : readNegatable? n b a ts = some (x, r)) : Again (readTests? · a) 4 3 2 0 ts x r :=
    (Again.succ_of_head hread (ih.negatable h)).anyLength
  have same {t : Token} {ts ts' : List Token} (hhead : ts'.head? = (t :: ts).head?) :
      ∃ q, ts' = t :: q := by
    cases ts' with
    | nil => simp at hhead
    | cons u q => exact ⟨q, by simpa using hhead⟩
  have hstep := h
  unfold readTests? at h
  split at h
  · exact .operator (fun b n => readTests? n (.compare .eq a b)) (readTests?_equal a) hstep (by simp)
      (by decide) ih.comparison ih.tests (by omega) (by omega) (by omega)
  · exact .operator (fun b n => readTests? n (.compare .ne a b)) (readTests?_unequal a) hstep
      (by simp) (by decide) ih.comparison ih.tests (by omega) (by omega) (by omega)
  · exact check false [.keyword .isnull] rfl (by simp) (by simp)
      (fun n ts => by rw [List.singleton_append, readTests?]) h
  · exact check true [.keyword .notnull] rfl (by simp) (by simp)
      (fun n ts => by rw [List.singleton_append, readTests?]) h
  · exact check false [.keyword .is, .keyword .null] rfl (by simp) (by simp)
      (fun n ts => by rw [List.cons_append, List.singleton_append, readTests?]) h
  · exact check true [.keyword .is, .keyword .not, .keyword .null] rfl (by simp) (by simp)
      (fun n ts => by simp [readTests?]) h
  · exact check true [.keyword .not, .keyword .null] rfl (by simp) (by simp)
      (fun n ts => by simp [readTests?]) h
  · rename_i ts hnull
    refine (Again.behind_of_head [.keyword .not] (fun n ts' hhead => ?_) (by simp) (by simp)
      (by decide) (ih.negatable h) (by omega)).anyLength
    rw [List.singleton_append, readTests?]
    rintro q rfl
    obtain ⟨q', rfl⟩ := same hhead.symm
    exact hnull q' rfl
  · refine negate false (fun n ts' hhead => ?_) h
    obtain ⟨q, rfl⟩ := same hhead
    rw [readTests?]
  · refine negate false (fun n ts' hhead => ?_) h
    obtain ⟨q, rfl⟩ := same hhead
    rw [readTests?]
  · refine negate false (fun n ts' hhead => ?_) h
    obtain ⟨q, rfl⟩ := same hhead
    rw [readTests?]
  · obtain ⟨rfl, rfl⟩ := Prod.mk.inj (Option.some.inj h)
    exact .stop (fun _ _ hr => readTests_stop hr) (by omega)

theorem readNegatable (ih : ReadAgain n) {b : Bool}
    (h : readNegatable? (n + 1) b a ts = some (x, r)) :
    Again (readNegatable? · b a) 4 3 1 1 ts x r := by
  have hstep := h
  unfold readNegatable? at h
  split at h
  · exact .operator (fun p n => readTests? n (.like b a p)) (readNegatable?_like b a) hstep (by simp)
      (by decide) ih.comparison ih.tests (by omega) (by omega) (by omega)
  · split at h
    · rename_i low r₁ h₁
      split at h
      · rename_i h₂
        refine .behind [.keyword .between] (fun n ts => ?_) (by simp) (by simp) (by decide)
          (.closed (fun l n ts => (readComparison? n ts).bind fun p =>
            readTests? n (.between b a l p.1) p.2) (by decide) (by simp) (ih.comparison h₁)
            (.chain (fun high n => readTests? n (.between b a low high)) (ih.comparison h₂)
              (ih.tests h) (Nat.le_refl 3) (by omega)) (Nat.le_refl 3) (by omega)) (by omega)
          (by omega)
        rw [List.singleton_append, readNegatable?]
        rcases readComparison? n ts with _ | ⟨low, _ | ⟨t, r⟩⟩
        · rfl
        · rfl
        · rw [Option.bind_some, expect]
          by_cases ht : t = .keyword .and
          · subst ht
            rw [if_pos rfl, Option.bind_some]
            dsimp only
            rcases readComparison? n r with _ | ⟨_, _⟩ <;> rfl
          · rw [if_neg ht]
            split <;> simp_all
      · simp at h
    · simp at h
  · exact .behind [.keyword .in, .symbol '(', .symbol ')'] (fun n ts => by simp [readNegatable?])
      (by simp) (by simp) (by decide) (ih.tests h) (by omega) (by omega)
  · rename_i c r₀
    split at h
    · rename_i c' i r₁ hc ht
      have hlegal :
          Token.illegal ∉ [.keyword .in, .symbol '(', .keyword .select, c, .keyword .from] := by
        simp [(legal_of_partOfToken? hc).symm]
      refine .behind [.keyword .in, .symbol '(', .keyword .select, c, .keyword .from]
        (fun n ts => ?_) (by simp) hlegal (by simp [follow, Token.binding])
        (.closed (fun i n => readTests? n (.inTable b a c' i)) (by decide) (by simp)
          (readTableName_again ht) (ih.tests h) (Nat.le_refl 0) (by omega)) (by omega) (by omega)
      simp only [List.cons_append, List.nil_append]
      rw [readNegatable?]
      rcases readTableName? ts with _ | ⟨i, _ | ⟨t, r⟩⟩
      · simp [hc]
      · simp [hc, expect]
      · by_cases ht : t = .symbol ')'
        · simp [hc, expect, ht]
        · simp only [hc, Option.bind_some, expect, if_neg ht, Option.bind_none]
          split <;> simp_all
    · simp at h
  · rename_i r₀ _ _
    split at h
    · rename_i ms r₁ hms
      have hhead : r₀.head? ≠ some (.keyword .select) ∧ r₀.head? ≠ some (.symbol ')') :=
        ⟨head?_ne_of_readExprs? rfl (by simp) hms, head?_ne_of_readExprs? rfl (by simp) hms⟩
      refine .behind_of_head [.keyword .in, .symbol '('] (fun n ts' hts => ?_) (by simp) (by simp)
        (by decide) (.closed (fun ms n => readTests? n (.inList b a ms)) (by decide) (by simp)
          (ih.exprs hms) (ih.tests h) (Nat.le_refl 7) (by omega)) (by omega)
      rw [← hts] at hhead
      simp only [List.cons_append, List.nil_append]
      rw [readNegatable?]
      · rcases readExprs? n [] ts' with _ | ⟨ms, _ | ⟨t, r⟩⟩
        · rfl
        · rfl
        · rw [Option.bind_some, expect]
          by_cases ht : t = .symbol ')'
          · simp [ht]
          · rw [if_neg ht]
            split <;> simp_all
      · rintro q rfl
        simp at hhead
      · rintro c q rfl
        simp at hhead
    · simp at h
  · simp at h

/-- A name is an operand of its own where neither a name of a table nor one of a function. -/
theorem readOperand_column {t : Token} {p : Part} {q : List Token} (ht : partOfToken? t = some p)
    (hdot : ∀ q', q ≠ .symbol '.' :: q') (hopen : ∀ q', q ≠ .symbol '(' :: q') :
    readOperand? (n + 1) (t :: q) = some (.column none p, q) := by
  rcases token_of_part ht with rfl | rfl
  · rw [readOperand?, ht, Option.map_some] <;> simp_all
  · rw [readOperand?, ht, Option.map_some] <;> simp_all

theorem readOperand (ih : ReadAgain n) (h : readOperand? (n + 1) ts = some (x, r)) :
    Again readOperand? 1 0 1 1 ts x r := by
  have fixed (pre : List Token) {ts : List Token} (hpre : pre ≠ []) (hlegal : Token.illegal ∉ pre)
      (hread : ∀ n ts, readOperand? (n + 1) (pre ++ ts) = some (x, ts)) :
      Again readOperand? 1 0 1 1 (pre ++ ts) x ts :=
    .behind pre hread hpre hlegal (Nat.zero_le _)
      (.rest _ 0) (by omega) (by omega)
  unfold readOperand? at h
  split at h
  · obtain ⟨rfl, rfl⟩ := Prod.mk.inj (Option.some.inj h)
    exact fixed [.symbol '-', .number _ _] (by simp) (by simp) fun n ts => by simp [readOperand?]
  · obtain ⟨rfl, rfl⟩ := Prod.mk.inj (Option.some.inj h)
    exact fixed [.number _ _] (by simp) (by simp) fun n ts => by simp [readOperand?]
  · obtain ⟨rfl, rfl⟩ := Prod.mk.inj (Option.some.inj h)
    exact fixed [.text _] (by simp) (by simp) fun n ts => by simp [readOperand?]
  · obtain ⟨rfl, rfl⟩ := Prod.mk.inj (Option.some.inj h)
    exact fixed [.blob _] (by simp) (by simp) fun n ts => by simp [readOperand?]
  · obtain ⟨rfl, rfl⟩ := Prod.mk.inj (Option.some.inj h)
    exact fixed [.keyword .null] (by simp) (by simp) fun n ts => by simp [readOperand?]
  · obtain ⟨rfl, rfl⟩ := Prod.mk.inj (Option.some.inj h)
    exact fixed [.param _] (by simp) (by simp) fun n ts => by simp [readOperand?]
  · split at h
    · rename_i h₁
      obtain ⟨rfl, rfl⟩ := Prod.mk.inj (Option.some.inj h)
      refine .behind [.symbol '('] (fun n ts => ?_) (by simp) (by simp) (Nat.zero_le _)
        (.closed (fun e _ ts => some (.paren e, ts)) (by decide) (by simp) (ih.expr h₁)
          (.rest 1 0) (Nat.le_refl 6) (by omega)) (by omega) (by omega)
      rw [List.singleton_append, readOperand?]
      rcases readExpr? n ts with _ | ⟨e, _ | ⟨t, r⟩⟩
      · rfl
      · rfl
      · rw [Option.bind_some, expect]
        by_cases ht : t = .symbol ')'
        · simp [ht]
        · rw [if_neg ht]
          split <;> simp_all
    · simp at h
  · exact .behind [.keyword .case] (fun n ts => by simp [readOperand?]) (by simp) (by simp)
      (Nat.zero_le _) ((ih.arms h).above (Nat.zero_le _)) (by omega) (by omega)
  · rename_i f r₀
    split at h
    · rename_i hf
      obtain ⟨rfl, rfl⟩ := Prod.mk.inj (Option.some.inj h)
      exact fixed [.word f, .symbol '(', .symbol '*', .symbol ')'] (by simp) (by simp)
        fun n ts => by simp [readOperand?, hf]
    · simp at h
  · obtain ⟨rfl, rfl⟩ := Prod.mk.inj (Option.some.inj h)
    exact fixed [.word _, .symbol '(', .symbol ')'] (by simp) (by simp)
      fun n ts => by simp [readOperand?]
  · rename_i f r₀ _ _
    split at h
    · rename_i args r₁ hargs
      obtain ⟨rfl, rfl⟩ := Prod.mk.inj (Option.some.inj h)
      have hhead : r₀.head? ≠ some (.symbol '*') ∧ r₀.head? ≠ some (.symbol ')') :=
        ⟨head?_ne_of_readExprs? rfl (by simp) hargs, head?_ne_of_readExprs? rfl (by simp) hargs⟩
      refine .behind_of_head [.word f, .symbol '('] (fun n ts' hts => ?_) (by simp) (by simp)
        (Nat.zero_le _) (.closed (fun args _ ts => some (.call f args, ts)) (by decide) (by simp)
          (ih.exprs hargs) (.rest 1 0) (Nat.le_refl 7) (by omega)) (by omega)
      rw [← hts] at hhead
      simp only [List.cons_append, List.nil_append]
      rw [readOperand?]
      · rcases readExprs? n [] ts' with _ | ⟨ms, _ | ⟨t, r⟩⟩
        · rfl
        · rfl
        · rw [Option.bind_some, expect]
          by_cases ht : t = .symbol ')'
          · simp [ht]
          · rw [if_neg ht]
            split <;> simp_all
      · rintro q rfl
        simp at hhead
      · rintro q rfl
        simp at hhead
    · simp at h
  · split at h
    · rename_i hq hc
      obtain ⟨rfl, rfl⟩ := Prod.mk.inj (Option.some.inj h)
      refine fixed [_, .symbol '.', _] (by simp) ?_ fun n ts => ?_
      · simp [(legal_of_partOfToken? hq).symm, (legal_of_partOfToken? hc).symm]
      · simp only [List.cons_append, List.nil_append]
        rcases token_of_part hq with rfl | rfl <;> rw [readOperand?] <;> simp_all
    · simp at h
  · obtain ⟨p, hc, hx⟩ := Option.map_eq_some_iff.1 h
    obtain ⟨rfl, rfl⟩ := Prod.mk.inj hx
    refine .single (fun r' n hr => ?_) (legal_of_partOfToken? hc)
    have hdot : ∀ q, r' ≠ .symbol '.' :: q := by
      rintro q rfl
      simp [follow, Token.binding] at hr
    have hopen : ∀ q, r' ≠ .symbol '(' :: q := by
      rintro q rfl
      simp [follow, Token.binding] at hr
    exact readOperand_column hc hdot hopen
  · simp at h

theorem readArms (ih : ReadAgain n) {before : List (Expr × Expr)}
    (h : readArms? (n + 1) before ts = some (x, r)) : Again (readArms? · before) 0 6 1 1 ts x r := by
  unfold readArms? at h
  split at h
  · split at h
    · rename_i c r₁ h₁
      split at h
      · rename_i h₂
        refine .behind [.keyword .when] (fun n ts => ?_) (by simp) (by simp) (by decide)
          (.closed (fun c n ts => (readExpr? n ts).bind fun p =>
            readArms? n ((c, p.1) :: before) p.2) (by decide) (by simp) (ih.expr h₁)
            (.chain (fun e n => readArms? n ((c, e) :: before)) (ih.expr h₂) (ih.arms h)
              (Nat.le_refl 6) (by omega)) (Nat.le_refl 6) (by omega)) (by omega) (by omega)
        rw [List.singleton_append, readArms?]
        rcases readExpr? n ts with _ | ⟨c, _ | ⟨t, r⟩⟩
        · rfl
        · rfl
        · rw [Option.bind_some, expect]
          by_cases ht : t = .keyword .then
          · subst ht
            rw [if_pos rfl, Option.bind_some]
            dsimp only
            rcases readExpr? n r with _ | ⟨_, _⟩ <;> rfl
          · rw [if_neg ht]
            split <;> simp_all
      · simp at h
    · simp at h
  · split at h
    · rename_i e r₁ h₁
      split at h
      · simp at h
      · rename_i hbefore
        obtain ⟨rfl, rfl⟩ := Prod.mk.inj (Option.some.inj h)
        refine .behind [.keyword .else] (fun n ts => ?_) (by simp) (by simp) (by decide)
          (.closed (fun e _ ts => some (.choose before.reverse e, ts)) (by decide) (by simp)
            (ih.expr h₁) (.rest 0 0) (Nat.le_refl 6) (by omega)) (by omega)
          (by omega)
        rw [List.singleton_append, readArms?]
        rcases readExpr? n ts with _ | ⟨e, _ | ⟨t, r⟩⟩
        · rfl
        · rfl
        · rw [Option.bind_some, expect]
          by_cases ht : t = .keyword .end
          · subst ht
            rw [if_pos rfl, Option.bind_some]
            simp [hbefore]
          · rw [if_neg ht]
            split <;> simp_all
    · simp at h
  · split at h
    · simp at h
    · rename_i hbefore
      obtain ⟨rfl, rfl⟩ := Prod.mk.inj (Option.some.inj h)
      exact .behind [.keyword .end] (fun n ts => by simp [readArms?, hbefore]) (by simp) (by simp)
        (by decide) (.rest 0 0) (by omega) (by omega)
  · simp at h

theorem readExprs (ih : ReadAgain n) {before xs : List Expr}
    (h : readExprs? (n + 1) before ts = some (xs, r)) :
    Again (readExprs? · before) 7 0 7 1 ts xs r := by
  unfold readExprs? at h
  split at h
  · rename_i e r₁ hfirst
    obtain ⟨p, rfl, hp, hlen, h₁⟩ := ih.expr hfirst
    obtain ⟨q, rfl, hq, -, h₂⟩ := ih.exprs h
    refine ⟨p ++ .symbol ',' :: q, by simp, by simp [hp, hq], by simp; omega, fun r' hr => ?_⟩
    refine ⟨Nat.zero_le _, fun fuel hfuel => ?_⟩
    rw [List.length_append, List.length_cons] at hfuel
    obtain ⟨n, rfl⟩ : ∃ n, fuel = n + 1 := ⟨fuel - 1, by omega⟩
    have hagain := (h₁ (.symbol ',' :: (q ++ r')) (Nat.le_refl 6)).2 n (by omega)
    dsimp only
    rw [List.append_assoc, List.cons_append, readExprs?, hagain]
    exact (h₂ r' hr).2 n (by omega)
  · rename_i e _ hcomma h₁
    obtain ⟨rfl, rfl⟩ := Prod.mk.inj (Option.some.inj h)
    obtain ⟨p, rfl, hp, hlen, h₁⟩ := ih.expr h₁
    refine ⟨p, rfl, hp, hlen, fun r' hr => ⟨Nat.zero_le _, fun fuel hfuel => ?_⟩⟩
    obtain ⟨n, rfl⟩ : ∃ n, fuel = n + 1 := ⟨fuel - 1, by omega⟩
    dsimp only
    rw [readExprs?, (h₁ r' (by omega)).2 n (by omega)]
    split
    · rename_i heq
      obtain ⟨-, rfl⟩ := Prod.mk.inj (Option.some.inj heq)
      simp [follow, Token.binding] at hr
    · rename_i heq
      obtain ⟨rfl, rfl⟩ := Prod.mk.inj (Option.some.inj heq)
      rfl
    · rename_i heq
      simp at heq
  · simp at h

end ReadAgain

/-- What a reader gives does not depend on what stands behind the tokens that it takes away. -/
theorem readAgain : ∀ n, ReadAgain n
  | 0 =>
    { expr := by simp [readExpr?]
      ors := by simp [readOrs?]
      conjunction := by simp [readConjunction?]
      ands := by simp [readAnds?]
      negation := by simp [readNegation?]
      tests := by simp [readTests?]
      negatable := by simp [readNegatable?]
      comparison := by simp [readComparison?]
      comparisons := by simp [readComparisons?]
      sum := by simp [readSum?]
      addends := by simp [readAddends?]
      operand := by simp [readOperand?]
      arms := by simp [readArms?]
      exprs := by simp [readExprs?] }
  | n + 1 =>
    have ih := readAgain n
    { expr := ih.readExpr
      ors := ih.readOrs
      conjunction := ih.readConjunction
      ands := ih.readAnds
      negation := ih.readNegation
      tests := ih.readTests
      negatable := ih.readNegatable
      comparison := ih.readComparison
      comparisons := ih.readComparisons
      sum := ih.readSum
      addends := ih.readAddends
      operand := ih.readOperand
      arms := ih.readArms
      exprs := ih.readExprs }

end StagedStore.Sql
