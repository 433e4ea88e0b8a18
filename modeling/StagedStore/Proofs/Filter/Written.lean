import StagedStore.Proofs.Filter.Built
import StagedStore.Proofs.Sql.Written

/-!
# Conditions as texts

The text of the expression that is built for a condition is read back as that expression: wherever
an operator stands, its operands are tests, negations or parentheses.
-/

namespace StagedStore

namespace Sql

namespace Expr

variable {x y : Expr} {name : String} {form : List Token → Expr → Prop}

/-! ## Operators -/

/-- Expressions of their own joined by an operator. -/
theorem written_joinBy {op : Expr → Expr → Expr}
    (hone : ∀ {x : Expr}, x.Written Sole → x.Written form)
    (hop : ∀ {x y : Expr}, x.Written form → y.Written Sole → (op x y).Written form)
    {es : List Expr} (h : ∀ x ∈ es, x.Written Sole) (hx : Condition.joinBy op es = some x) :
    x.Written form := by
  cases es with
  | nil => simp [Condition.joinBy] at hx
  | cons y es =>
      obtain rfl := Option.some.inj hx
      have hy : y.Written form := hone (h y (by simp))
      have hes : ∀ x ∈ es, x.Written Sole := fun x hx => h x (by simp [hx])
      clear h hx
      induction es generalizing y with
      | nil => exact hy
      | cons z es ih =>
          exact ih (op y z) (hop hy (hes z (by simp))) fun x hx => hes x (by simp [hx])

/-! ## Tests -/

theorem written_sole (n : Nat) (ts : List Token) (hread : readNegation? n ts = some (x, []))
    (hlex : Lexes x.render (ts.map Token.limited)) (hopen : Closed ts) :
    x.Written Sole :=
  ⟨ts, hlex, hopen, (readAgain n).negation hread⟩

theorem lexes_paramExpr (n : Nat) : Lexes (param (some n)).render [paramToken n] :=
  lexes_param n

theorem written_truth (b : Bool) : (Condition.truth b).Written Sole := by
  refine written_sole 20 [.number ⟨false, 1, 0⟩ true, .equal,
    .number ⟨false, if b then 1 else 0, 0⟩ true] ?_ ?_ (by simp)
  · cases b <;> rfl
  · cases b with
    | false => exact lexes_equation 1 0
    | true => exact lexes_equation 1 1

variable (hname : '\x00' ∉ name.toList)

include hname

theorem lexes_ofName : Lexes (ofName name).render [.name name] :=
  lexes_quoteName hname

theorem written_test (op : TestOp) (n : Nat) :
    (op.apply (ofName name) (param (some n))).Written Sole := by
  have hcompare (c : Comparison) : (compare c (ofName name) (param (some n))).Written Sole := by
    refine written_sole 20 [.name name, c.token, .param (some n)] ?_ ?_ ?_
    · cases c <;> rfl
    · have htext := (lexes_ofName hname).append
        ((separates_comparison c).append_lexes (lexes_paramExpr n)) (by simp [startsApart])
      have htoken : c.token.limited = c.token := by cases c <;> rfl
      rw [List.map_cons, List.map_cons, htoken]
      simp only [← String.append_assoc] at htext
      exact htext
    · cases c <;> simp [Comparison.token]
  have hlike (negated : Bool) : (like negated (ofName name) (param (some n))).Written Sole := by
    refine written_sole 20 (.name name :: notTokens negated ++ [Token.keyword .like] ++
      [Token.param (some n)]) ?_ ?_ ?_
    · cases negated <;> rfl
    · have hword : Separates "LIKE " [.keyword .like] := separates_keyword "LIKE" (by decide) rfl
      rw [List.map_append, List.map_append, List.map_cons, limited_notTokens]
      exact lexes_negatable (lexes_ofName hname) negated hword (lexes_paramExpr n)
    · cases negated <;> simp [notTokens]
  cases op with
  | like => exact hlike false
  | notLike => exact hlike true
  | _ => exact hcompare _

theorem written_nullCheck (negated : Bool) : (nullCheck negated (ofName name)).Written Sole := by
  refine written_sole 20 (.name name :: .keyword .is :: notTokens negated ++ [Token.keyword .null])
    ?_ ?_ ?_
  · cases negated <;> rfl
  · have hword : Separates " IS " [.keyword .is] := separates_operator "IS" (by decide) rfl
    have hnull : Lexes "NULL" [.keyword .null] := lexes_keyword (by decide)
    have htext := (lexes_ofName hname).append (hword.append_lexes
      ((separates_notWord negated).append_lexes hnull)) (by simp [startsApart])
    rw [← String.append_assoc, ← String.append_assoc] at htext
    rw [List.map_append, List.map_cons, List.map_cons, limited_notTokens]
    exact htext
  · cases negated <;> simp [notTokens]

theorem written_between (negated : Bool) (n m : Nat) :
    (between negated (ofName name) (param (some n)) (param (some m))).Written Sole := by
  refine written_sole 20 (.name name :: notTokens negated ++ [Token.keyword .between] ++
    [Token.param (some n), .keyword .and, .param (some m)]) ?_ ?_ ?_
  · cases negated <;> rfl
  · have hword : Separates "BETWEEN " [.keyword .between] :=
      separates_keyword "BETWEEN" (by decide) rfl
    have hand : Separates " AND " [.keyword .and] := separates_operator "AND" (by decide) rfl
    have hrest := (lexes_paramExpr n).append (hand.append_lexes (lexes_paramExpr m))
      (by simp [startsApart])
    have htext := lexes_negatable (lexes_ofName hname) negated hword hrest
    rw [← String.append_assoc, ← String.append_assoc] at htext
    rw [List.map_append, List.map_append, List.map_cons, limited_notTokens]
    exact htext
  · cases negated <;> simp [notTokens]

theorem written_inList (negated : Bool) {ns : List Nat} (hne : ns ≠ []) :
    (inList negated (ofName name) (ns.map fun n => param (some n))).Written Sole := by
  have hcolumn : (ofName name).Written Operand :=
    written_operand 1 [.name name] rfl (lexes_ofName hname) (by simp)
  have hparam (n : Nat) : (param (some n)).Written Operand :=
    written_operand 1 [.param (some n)] rfl (lexes_paramExpr n) (by simp)
  refine hcolumn.isIn (fun e he => ?_) (by simpa using hne) negated
  obtain ⟨n, -, rfl⟩ := List.mem_map.1 he
  exact (hparam n).of_operand

end Expr

end Sql

/-! ## Conditions -/

namespace Condition

theorem IsTest.written {columns : List String} {y : Sql.Expr} (h : IsTest columns y)
    (hnames : ∀ n ∈ columns, '\x00' ∉ n.toList) : y.Written Sql.Sole := by
  cases h with
  | test hcolumn op n => exact Sql.Expr.written_test (hnames _ hcolumn) op n
  | null hcolumn negated => exact Sql.Expr.written_nullCheck (hnames _ hcolumn) negated
  | member hcolumn negated hne => exact Sql.Expr.written_inList (hnames _ hcolumn) negated hne
  | between hcolumn negated n m => exact Sql.Expr.written_between (hnames _ hcolumn) negated n m
  | truth b => exact Sql.Expr.written_truth b

/-- The text of what is built for a condition is read as what was built; beside an operator it
needs parentheses only if the condition is a group. -/
theorem build_written (c : Condition) (hnames : ∀ n ∈ c.columns, '\x00' ∉ n.toList)
    (hfree : c.hasFragment = false) (htests : c.isEmpty = false) :
    Sql.Binds c.build fun _ x => ∃ y, x = some y ∧ y.Written Sql.Disjoined ∧
      (c.isGroup = false → y.Written Sql.Sole) := by
  have sole {y : Sql.Expr} (h : y.Written Sql.Sole) : ∃ z, some y = some z ∧
      z.Written Sql.Disjoined ∧ (c.isGroup = false → z.Written Sql.Sole) :=
    ⟨y, rfl, h.of_sole, fun _ => h⟩
  have single (h : c.isSingle = true) : Sql.Binds c.build fun _ x => ∃ y, x = some y ∧
      y.Written Sql.Disjoined ∧ (c.isGroup = false → y.Written Sql.Sole) := by
    refine (c.build_isTest h).imp fun q x hx => ?_
    obtain ⟨y, rfl, htest⟩ := hx
    exact sole (htest.written hnames)
  have hmembers {cs : List Condition} (hall : ∀ c ∈ cs, c.isEmpty = false →
      Sql.Binds c.build fun _ x => ∃ y, x = some y ∧ y.Written Sql.Disjoined ∧
        (c.isGroup = false → y.Written Sql.Sole)) :
      Sql.Binds (buildAll cs) fun q xs => List.Forall₂ (fun _ x => x.Written Sql.Sole)
        (cs.filter fun c => !c.isEmpty) xs := by
    refine binds_buildAll fun c hc hne => (hall c hc hne).imp fun q x => ?_
    rintro ⟨y, rfl, hy, hsole⟩
    refine ⟨y, rfl, ?_⟩
    split
    · exact hy.paren
    · rename_i hgroup
      exact hsole (Bool.eq_false_iff.2 hgroup)
  cases c with
  | all cs =>
      rw [build]
      refine Sql.binds_map (hmembers fun c hc => build_written c
        (fun n hn => hnames n (mem_allColumns hc hn)) (hasFragment_of_mem hfree hc)) ?_
      intro q xs hxs
      obtain ⟨y, hy⟩ := joinBy_eq_some .and (ne_nil_of_members htests hxs)
      have hwritten : y.Written Sql.Conjoined :=
        Sql.Expr.written_joinBy (·.imp fun _ h => .one h) .and (forall_right hxs) hy
      exact ⟨y, hy, hwritten.imp fun _ h => .one h, nofun⟩
  | any cs =>
      rw [build]
      refine Sql.binds_map (hmembers fun c hc => build_written c
        (fun n hn => hnames n (mem_allColumns hc hn)) (hasFragment_of_mem hfree hc)) ?_
      intro q xs hxs
      obtain ⟨y, hy⟩ := joinBy_eq_some .or (ne_nil_of_members htests hxs)
      have hwritten : y.Written Sql.Disjoined :=
        Sql.Expr.written_joinBy (·.of_sole) .or (forall_right hxs) hy
      exact ⟨y, hy, hwritten, nofun⟩
  | not c =>
      rw [build]
      refine Sql.binds_map (build_written c hnames hfree htests) fun q x hx => ?_
      obtain ⟨y, rfl, hy, -⟩ := hx
      exact sole hy.paren.not
  | template sql values => simp [hasFragment] at hfree
  | raw sql => simp [hasFragment] at hfree
  | _ => exact single rfl

end Condition

end StagedStore
