import StagedStore.Proofs.Filter.Written

/-!
# Conditions with text of the caller's own

Text of the caller's own that is a complete expression over a row leaves the condition around it
complete: the text of the whole condition is an expression over a row, wherever it stands.
-/

namespace StagedStore

namespace Sql

/-- Wherever a text stands, and however many parameters stand in front of it, it is an expression
that nothing but the row and the parameters decides. -/
def IsComplete (text : String) : Prop :=
  ∃ ts, Lexes text (ts.map Token.limited) ∧ .symbol ';' ∉ ts ∧
    ∀ m, ∃ x, readExpr? (8 * ts.length + 8) (numberParams m ts) = some (x, []) ∧ x.overRow = true

/-- An expression whose text is complete, whether it is read or taken as its tree. -/
structure Expr.IsWhole (y : Expr) : Prop where
  text : ∃ ts, Lexes y.render (ts.map Token.limited) ∧ .symbol ';' ∉ ts ∧
    ∀ m, ∃ x, Disjoined (numberParams m ts) x ∧ x.overRow = true
  row : y.leaves.all Expr.isPlainLeaf = true → y.overRow = true

namespace Expr

variable {x y : Expr}

theorem WrittenBy.isWhole {numbers : Nat → Prop} (h : y.WrittenBy numbers Disjoined)
    (hrow : y.overRow = true) : y.IsWhole := by
  obtain ⟨ts, hlex, hclosed, hform⟩ := h
  refine ⟨⟨ts, hlex, hclosed.semicolon_notMem, fun m => ⟨y, ?_, hrow⟩⟩, fun _ => hrow⟩
  rwa [numberParams_closed hclosed]

theorem isWhole_fragment {t : String} (h : IsComplete t) : (fragment t).IsWhole := by
  obtain ⟨ts, hlex, hsemicolon, hread⟩ := h
  refine ⟨⟨ts, hlex, hsemicolon, fun m => ?_⟩, by simp [Expr.leaves, isPlainLeaf]⟩
  obtain ⟨x, hx, hrow⟩ := hread m
  obtain ⟨pre, hpre, hform⟩ := disjoined_of_read hx
  rw [List.append_nil] at hpre
  exact ⟨x, hpre ▸ hform, hrow⟩

/-- In parentheses, and so also under a negation, the form inside does not matter. -/
theorem IsWhole.parens (h : y.IsWhole) : (paren y).IsWhole ∧ (not (paren y)).IsWhole := by
  obtain ⟨ts, hlex, hsemicolon, hread⟩ := h.text
  have hparens : Lexes (paren y).render (Token.symbol '(' :: (ts.map Token.limited ++
      [.symbol ')'])) := hlex.parens
  have hnumber (m : Nat) : numberParams m (.symbol '(' :: (ts ++ [Token.symbol ')'])) =
      .symbol '(' :: (numberParams m ts ++ [Token.symbol ')']) := by
    simp only [numberParams, numberParams_append]
  refine ⟨⟨⟨.symbol '(' :: (ts ++ [Token.symbol ')']), ?_, by simp [hsemicolon], fun m => ?_⟩,
    h.row⟩, ⟨⟨.keyword .not :: .symbol '(' :: (ts ++ [Token.symbol ')']), ?_,
    by simp [hsemicolon], fun m => ?_⟩, h.row⟩⟩
  · simpa using hparens
  · obtain ⟨x, hx, hrow⟩ := hread m
    exact ⟨paren x, hnumber m ▸ .one (.one hx.paren), hrow⟩
  · simpa [render] using hparens.behindNot
  · obtain ⟨x, hx, hrow⟩ := hread m
    refine ⟨not (paren x), ?_, hrow⟩
    rw [numberParams, hnumber]
    · exact .one (.one (again_not hx.paren))
    · simp
    · simp

/-- Expressions around a word that joins complete ones. -/
theorem IsWhole.join {op : Expr → Expr → Expr} {k : Keyword} (s word : String)
    (hs : (s, k) ∈ Keyword.spellings) (hword : word = " " ++ (s ++ " ")) (hx : x.IsWhole)
    (hy : y.IsWhole) (hrender : (op x y).render = x.render ++ word ++ y.render)
    (hleaves : (op x y).leaves = x.leaves ++ y.leaves)
    (hrow : (op x y).overRow = (x.overRow && y.overRow))
    (hform : ∀ {ts us a b}, Disjoined ts a → Disjoined us b →
      ∃ c, Disjoined (ts ++ .keyword k :: us) c ∧ c.overRow = (a.overRow && b.overRow)) :
    (op x y).IsWhole := by
  obtain ⟨ts, hlex, hsemicolon, hread⟩ := hx.text
  obtain ⟨us, hlex', hsemicolon', hread'⟩ := hy.text
  refine ⟨⟨ts ++ .keyword k :: us, ?_, by simp [hsemicolon, hsemicolon'], fun m => ?_⟩, ?_⟩
  · rw [hrender]
    simpa using hlex.joined s hs hword hlex'
  · obtain ⟨a, ha, hrow⟩ := hread m
    obtain ⟨b, hb, hrow'⟩ := hread' (largestParam m ts)
    obtain ⟨c, hc, hcrow⟩ := hform ha hb
    refine ⟨c, ?_, by rw [hcrow, hrow, hrow']; rfl⟩
    rw [numberParams_append, numberParams]
    · exact hc
    · simp
    · simp
  · rw [hleaves, hrow, List.all_append]
    intro hplain
    obtain ⟨h, h'⟩ := Bool.and_eq_true_iff.1 hplain
    rw [hx.row h, hy.row h']
    rfl

theorem IsWhole.and (hx : x.IsWhole) (hy : y.IsWhole) : (and x y).IsWhole :=
  hx.join "AND" " AND " (by decide) rfl hy (by rw [render]) (by rw [leaves]) (by rw [overRow])
    Disjoined.and

theorem IsWhole.or (hx : x.IsWhole) (hy : y.IsWhole) : (or x y).IsWhole :=
  hx.join "OR" " OR " (by decide) rfl hy (by rw [render]) (by rw [leaves]) (by rw [overRow])
    fun ha hb => (ha.append_or hb).imp fun _ h => ⟨h.1, h.2.overRow⟩

theorem isWhole_joinBy {op : Expr → Expr → Expr}
    (hop : ∀ {x y : Expr}, x.IsWhole → y.IsWhole → (op x y).IsWhole) {es : List Expr}
    (h : ∀ x ∈ es, x.IsWhole) (hx : Condition.joinBy op es = some x) : x.IsWhole := by
  cases es with
  | nil => simp [Condition.joinBy] at hx
  | cons y es =>
      obtain rfl := Option.some.inj hx
      obtain ⟨hy, hes⟩ := List.forall_mem_cons.1 h
      clear h hx
      induction es generalizing y with
      | nil => exact hy
      | cons z es ih =>
          obtain ⟨hz, hes⟩ := List.forall_mem_cons.1 hes
          exact ih (op y z) (hop hy hz) hes

end Expr

end Sql

/-! ## Conditions -/

namespace Condition

mutual

/-- Every text of the caller's own in a condition is complete, with whatever numbers its values
get. -/
def Complete : Condition → Prop
  | .all cs => AllComplete cs
  | .any cs => AllComplete cs
  | .not c => Complete c
  | .template sql values =>
    ∀ p, Sql.IsComplete (String.ofList (fillTemplate sql.toList values p).1)
  | .raw sql => Sql.IsComplete sql
  | _ => True

def AllComplete : List Condition → Prop
  | [] => True
  | c :: cs => Complete c ∧ AllComplete cs

end

theorem complete_of_mem {cs : List Condition} {c : Condition} (h : AllComplete cs) (hc : c ∈ cs) :
    c.Complete := by
  induction cs with
  | nil => simp at hc
  | cons d cs ih =>
      rcases List.mem_cons.1 hc with rfl | hc
      · exact h.1
      · exact ih h.2 hc

mutual

/-- Without text of the caller's own there is none that is not complete. -/
theorem complete_of_free (c : Condition) (h : c.hasFragment = false) : c.Complete := by
  cases c with
  | all cs => exact allComplete_of_free cs h
  | any cs => exact allComplete_of_free cs h
  | not c => exact complete_of_free c h
  | template sql values => simp [hasFragment] at h
  | raw sql => simp [hasFragment] at h
  | _ => trivial

theorem allComplete_of_free (cs : List Condition) (h : anyFragment cs = false) :
    AllComplete cs := by
  cases cs with
  | nil => trivial
  | cons c cs =>
      obtain ⟨hc, hcs⟩ := Bool.or_eq_false_iff.1 h
      exact ⟨complete_of_free c hc, allComplete_of_free cs hcs⟩

end

theorem exists_fragment {text : String} (h : Sql.IsComplete text) :
    fragment? text = some (.fragment text) := by
  refine if_neg ?_
  rintro rfl
  obtain ⟨ts, hlex, -, hread⟩ := h
  obtain ⟨x, hx, -⟩ := hread 0
  obtain rfl : ts = [] := List.map_eq_nil_iff.1 hlex.scan_eq.symm
  obtain ⟨pre, hpre, hform⟩ := Sql.disjoined_of_read hx
  exact hform.ne_nil (List.append_eq_nil_iff.1 hpre.symm).1

theorem overRow_params (ns : List Nat) :
    Sql.Expr.overRowAll (ns.map fun n => .param (some n)) = true := by
  induction ns with
  | nil => rfl
  | cons n ns ih => exact ih

theorem IsTest.overRow {columns : List String} {y : Sql.Expr} (h : IsTest columns y) :
    y.overRow = true := by
  cases h with
  | test hcolumn op n => cases op <;> rfl
  | member hcolumn negated hne => exact overRow_params _
  | _ => rfl

/-- What is built for a condition in which all text of the caller's own is complete is whole. -/
theorem build_isWhole (c : Condition) (hnames : ∀ n ∈ c.columns, '\x00' ∉ n.toList)
    (hcomplete : c.Complete) (htests : c.isEmpty = false) :
    Sql.Binds c.build fun _ x => ∃ y, x = some y ∧ y.IsWhole := by
  have single (h : c.isSingle = true) :
      Sql.Binds c.build fun _ x => ∃ y, x = some y ∧ y.IsWhole := by
    refine (c.build_isTest h).imp fun q x hx => ?_
    obtain ⟨y, rfl, htest⟩ := hx
    exact ⟨y, rfl, (htest.written hnames).of_sole.isWhole htest.overRow⟩
  have hmembers {cs : List Condition} (hall : ∀ c ∈ cs, c.isEmpty = false →
      Sql.Binds c.build fun _ x => ∃ y, x = some y ∧ y.IsWhole) :
      Sql.Binds (buildAll cs) fun _ xs => List.Forall₂ (fun _ x => x.IsWhole)
        (cs.filter fun c => !c.isEmpty) xs := by
    refine binds_buildAll fun c hc hne => (hall c hc hne).imp fun q x => ?_
    rintro ⟨y, rfl, hy⟩
    refine ⟨y, rfl, ?_⟩
    split
    · exact hy.parens.1
    · exact hy
  cases c with
  | all cs =>
      rw [build]
      refine Sql.binds_map (hmembers fun c hc => build_isWhole c
        (fun n hn => hnames n (mem_allColumns hc hn)) (complete_of_mem hcomplete hc)) ?_
      intro q xs hxs
      obtain ⟨y, hy⟩ := joinBy_eq_some .and (ne_nil_of_members htests hxs)
      exact ⟨y, hy, Sql.Expr.isWhole_joinBy .and (forall_right hxs) hy⟩
  | any cs =>
      rw [build]
      refine Sql.binds_map (hmembers fun c hc => build_isWhole c
        (fun n hn => hnames n (mem_allColumns hc hn)) (complete_of_mem hcomplete hc)) ?_
      intro q xs hxs
      obtain ⟨y, hy⟩ := joinBy_eq_some .or (ne_nil_of_members htests hxs)
      exact ⟨y, hy, Sql.Expr.isWhole_joinBy .or (forall_right hxs) hy⟩
  | not c =>
      rw [build]
      refine Sql.binds_map (build_isWhole c hnames hcomplete htests) fun q x hx => ?_
      obtain ⟨y, rfl, hy⟩ := hx
      exact ⟨_, rfl, hy.parens.2⟩
  | template sql values =>
      rw [build]
      exact fun p => ⟨(binds_fillTemplate sql.toList values p).1, fun q _ =>
        ⟨_, exists_fragment (hcomplete p), Sql.Expr.isWhole_fragment (hcomplete p)⟩⟩
  | raw sql =>
      rw [build, exists_fragment hcomplete]
      exact Sql.binds_pure fun q => ⟨_, rfl, Sql.Expr.isWhole_fragment hcomplete⟩
  | _ => exact single rfl

end Condition

end StagedStore
