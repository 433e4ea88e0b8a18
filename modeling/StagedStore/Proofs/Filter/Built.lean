import StagedStore.Filter.Basic
import StagedStore.Proofs.Sql.Binding
import StagedStore.Proofs.Sql.Leaves

/-!
# How conditions are built

Nothing is built for a condition in which no test stands, and nothing is bound. A group is built
from those of its members in which a test stands.
-/

namespace StagedStore.Condition

mutual

/-- Whether text of the caller's own stands in a condition. -/
def hasFragment : Condition → Bool
  | .all cs => anyFragment cs
  | .any cs => anyFragment cs
  | .not c => hasFragment c
  | .template _ _ | .raw _ => true
  | _ => false

def anyFragment : List Condition → Bool
  | [] => false
  | c :: cs => hasFragment c || anyFragment cs

end

theorem allEmpty_eq (cs : List Condition) : allEmpty cs = cs.all isEmpty := by
  induction cs with
  | nil => rfl
  | cons c cs ih => rw [allEmpty, ih, List.all_cons]

theorem anyFragment_eq (cs : List Condition) : anyFragment cs = cs.any hasFragment := by
  induction cs with
  | nil => rfl
  | cons c cs ih => rw [anyFragment, ih, List.any_cons]

theorem allColumns_eq (cs : List Condition) : allColumns cs = cs.flatMap columns := by
  induction cs with
  | nil => rfl
  | cons c cs ih => rw [allColumns, ih, List.flatMap_cons]

theorem mem_allColumns {cs : List Condition} {c : Condition} {n : String} (hc : c ∈ cs)
    (hn : n ∈ c.columns) : n ∈ allColumns cs := by
  rw [allColumns_eq]
  exact List.mem_flatMap_of_mem hc hn

theorem hasFragment_of_mem {cs : List Condition} {c : Condition} (h : anyFragment cs = false)
    (hc : c ∈ cs) : c.hasFragment = false := by
  rw [anyFragment_eq, List.any_eq_false] at h
  exact Bool.eq_false_iff.2 (h c hc)

theorem joinBy_eq_some (op : Sql.Expr → Sql.Expr → Sql.Expr) {es : List Sql.Expr}
    (h : es ≠ []) : ∃ x, joinBy op es = some x := by
  obtain ⟨e, es, rfl⟩ := List.exists_cons_of_ne_nil h
  exact ⟨_, rfl⟩

/-! ## Nothing to test -/

mutual

theorem build_of_isEmpty (c : Condition) (h : c.isEmpty = true) (p : Sql.Params) :
    c.build p = (none, p) := by
  cases c with
  | all cs =>
      have hall := buildAll_of_allEmpty cs h p
      rw [build]
      change (joinBy .and (buildAll cs p).1, (buildAll cs p).2) = _
      rw [hall]
      rfl
  | any cs =>
      have hall := buildAll_of_allEmpty cs h p
      rw [build]
      change (joinBy .or (buildAll cs p).1, (buildAll cs p).2) = _
      rw [hall]
      rfl
  | not c =>
      have hc := build_of_isEmpty c h p
      rw [build]
      change ((build c p).1.map _, (build c p).2) = _
      rw [hc]
      rfl
  | _ => simp [isEmpty] at h

theorem buildAll_of_allEmpty (cs : List Condition) (h : allEmpty cs = true) (p : Sql.Params) :
    buildAll cs p = ([], p) := by
  cases cs with
  | nil => rw [buildAll]; rfl
  | cons c cs =>
      obtain ⟨hc, hcs⟩ := Bool.and_eq_true_iff.1 h
      rw [buildAll, if_pos hc]
      exact buildAll_of_allEmpty cs hcs p

end

/-! ## Members of groups -/

theorem forall_right {α β : Type} {P : β → Prop} {xs : List α} {ys : List β}
    (h : List.Forall₂ (fun _ y => P y) xs ys) : ∀ y ∈ ys, P y := by
  induction h with
  | nil => simp
  | cons hy _ ih => exact List.forall_mem_cons.2 ⟨hy, ih⟩

/-- The expressions of the members in which a test stands have what each member's own has, in
parentheses if the member is a group. -/
theorem binds_buildAll {P : Condition → Sql.Params → Sql.Expr → Prop} {cs : List Condition}
    (h : ∀ c ∈ cs, c.isEmpty = false → Sql.Binds c.build fun q x => ∃ y, x = some y ∧
      P c q (if c.isGroup then .paren y else y)) :
    Sql.Binds (buildAll cs) fun q xs =>
      List.Forall₂ (fun c x => P c q x) (cs.filter fun c => !c.isEmpty) xs := by
  induction cs with
  | nil =>
      rw [buildAll]
      exact Sql.binds_pure fun _ => .nil
  | cons c cs ih =>
      have ih := ih fun d hd => h d (by simp [hd])
      rw [buildAll]
      cases hc : c.isEmpty with
      | true => simpa [hc] using ih
      | false =>
          rw [if_neg Bool.false_ne_true, List.filter_cons_of_pos (by simp [hc])]
          refine Sql.binds_bind (h c (by simp) hc) fun x => Sql.binds_bind ih fun xs => ?_
          cases x with
          | none => exact Sql.binds_pure fun q _ hx => by simp at hx
          | some y =>
              refine Sql.binds_pure fun q hxs hx => ?_
              obtain ⟨z, hz, hP⟩ := hx
              obtain rfl := Option.some.inj hz
              exact .cons hP hxs

theorem ne_nil_of_members {α : Type} {R : Condition → α → Prop} {cs : List Condition} {xs : List α}
    (h : allEmpty cs = false) (hxs : List.Forall₂ R (cs.filter fun c => !c.isEmpty) xs) :
    xs ≠ [] := by
  rintro rfl
  rw [List.forall₂_nil_right_iff, List.filter_eq_nil_iff] at hxs
  rw [allEmpty_eq, List.all_eq_false] at h
  obtain ⟨c, hc, hne⟩ := h
  exact hxs c hc (by simp [hne])

/-! ## Single tests -/

/-- Neither a group nor a negation nor text of the caller's own. -/
def isSingle : Condition → Bool
  | .all _ | .any _ | .not _ | .template _ _ | .raw _ => false
  | _ => true

/-- The forms that expressions of single tests on some columns have. -/
inductive IsTest (columns : List String) : Sql.Expr → Prop
  | test {column : String} (hcolumn : column ∈ columns) (op : TestOp) (n : Nat) :
      IsTest columns (op.apply (.ofName column) (.param (some n)))
  | null {column : String} (hcolumn : column ∈ columns) (negated : Bool) :
      IsTest columns (.nullCheck negated (.ofName column))
  | member {column : String} (hcolumn : column ∈ columns) (negated : Bool) {ns : List Nat}
      (hne : ns ≠ []) :
      IsTest columns (.inList negated (.ofName column) (ns.map fun n => .param (some n)))
  | between {column : String} (hcolumn : column ∈ columns) (negated : Bool) (n m : Nat) :
      IsTest columns (.between negated (.ofName column) (.param (some n)) (.param (some m)))
  | truth (b : Bool) : IsTest columns (truth b)

theorem build_isTest (c : Condition) (h : c.isSingle = true) :
    Sql.Binds c.build fun _ x => ∃ y, x = some y ∧ IsTest c.columns y := by
  cases c with
  | test column op v =>
      rw [build]
      refine Sql.binds_bind (Sql.binds_bindValue _) fun x => Sql.binds_pure fun q hx => ?_
      obtain ⟨n, rfl, -⟩ := hx
      exact ⟨_, rfl, .test (List.mem_singleton_self column) op n⟩
  | null column negated =>
      rw [build]
      exact Sql.binds_pure fun q => ⟨_, rfl, .null (List.mem_singleton_self column) negated⟩
  | member column values negated =>
      rw [build]
      cases values with
      | nil => exact Sql.binds_pure fun q => ⟨_, rfl, .truth negated⟩
      | cons v vs =>
          refine Sql.binds_map (Sql.binds_mapM fun v _ => Sql.binds_bindValue _) fun q xs hxs => ?_
          obtain ⟨ns, hlen, rfl⟩ := Sql.exists_numbers hxs
          exact ⟨_, rfl, .member (List.mem_singleton_self column) negated
            (List.ne_nil_of_length_eq_add_one hlen)⟩
  | between column low high negated =>
      rw [build]
      refine Sql.binds_bind (Sql.binds_bindValue _) fun l =>
        Sql.binds_bind (Sql.binds_bindValue _) fun u => Sql.binds_pure fun q hu hl => ?_
      obtain ⟨n, rfl, -⟩ := hl
      obtain ⟨m, rfl, -⟩ := hu
      exact ⟨_, rfl, .between (List.mem_singleton_self column) negated n m⟩
  | always =>
      rw [build]
      exact Sql.binds_pure fun q => ⟨_, rfl, .truth true⟩
  | never =>
      rw [build]
      exact Sql.binds_pure fun q => ⟨_, rfl, .truth false⟩
  | _ => cases h

/-! ## Leaves -/

theorem binds_fillTemplate (cs : List Char) (values : List Value) :
    Sql.Binds (fillTemplate cs values) fun _ _ => True := by
  induction cs generalizing values with
  | nil =>
      rw [fillTemplate]
      exact Sql.binds_pure fun _ => trivial
  | cons c cs ih =>
      cases values with
      | nil =>
          rw [fillTemplate]
          exact Sql.binds_pure fun _ => trivial
      | cons v vs =>
          rw [fillTemplate]
          split
          · exact Sql.binds_bind (Sql.binds_bindValue _) fun x =>
              Sql.binds_map (ih vs) fun _ _ _ _ => trivial
          · exact Sql.binds_map (ih (v :: vs)) fun _ _ _ => trivial

theorem leaves_joinBy {P : Sql.Expr → Prop} {op : Sql.Expr → Sql.Expr → Sql.Expr}
    (hop : ∀ x y, (op x y).leaves = x.leaves ++ y.leaves) {es : List Sql.Expr}
    (h : ∀ x ∈ es, ∀ e ∈ x.leaves, P e) : ∀ x ∈ joinBy op es, ∀ e ∈ x.leaves, P e := by
  cases es with
  | nil => simp [joinBy]
  | cons y es =>
      rintro x ⟨⟩
      obtain ⟨hy, hes⟩ := List.forall_mem_cons.1 h
      clear h
      induction es generalizing y with
      | nil => exact hy
      | cons z es ih =>
          obtain ⟨hz, hes⟩ := List.forall_mem_cons.1 hes
          refine ih (op y z) ?_ hes
          rw [hop]
          exact List.forall_mem_append.2 ⟨hy, hz⟩

/-- The leaves that tests have: names, numbered parameters and numbers. -/
def isTestLeaf : Sql.Expr → Bool
  | .column _ _ | .param (some _) | .literal (.integer _) => true
  | _ => false

variable {P : Sql.Expr → Prop}

theorem IsTest.leaves {columns : List String} {y : Sql.Expr} (h : IsTest columns y) :
    ∀ e ∈ y.leaves, isTestLeaf e = true := by
  cases h with
  | test hcolumn op n =>
      cases op <;> simp [TestOp.apply, Sql.Expr.ofName, Sql.Expr.leaves, isTestLeaf]
  | member hcolumn negated hne =>
      intro e he
      simp only [Sql.Expr.ofName, Sql.Expr.leaves, Sql.Expr.leavesAll_eq, List.cons_append,
        List.nil_append, List.mem_cons, List.mem_flatMap, List.mem_map] at he
      rcases he with rfl | ⟨_, ⟨n, -, rfl⟩, he⟩
      · rfl
      · obtain rfl := List.mem_singleton.1 he
        rfl
  | _ => simp [Condition.truth, Sql.Expr.ofName, Sql.Expr.leaves, isTestLeaf]

theorem leaves_fragment? {t : String} (ht : P (.fragment t)) :
    ∀ y ∈ fragment? t, ∀ e ∈ y.leaves, P e := by
  unfold fragment?
  split
  · simp
  · rintro _ ⟨⟩
    simpa [Sql.Expr.leaves] using ht

mutual

/-- The leaves of what is built are those of tests and the caller's own texts. -/
theorem binds_leaves (hP : ∀ e, isTestLeaf e = true → P e) (c : Condition)
    (hfragment : c.hasFragment = true → ∀ t, P (.fragment t)) :
    Sql.Binds c.build fun _ x => ∀ y ∈ x, ∀ e ∈ y.leaves, P e := by
  have single (h : c.isSingle = true) :
      Sql.Binds c.build fun _ x => ∀ y ∈ x, ∀ e ∈ y.leaves, P e := by
    refine (c.build_isTest h).imp fun q x hx => ?_
    obtain ⟨y, rfl, htest⟩ := hx
    rintro _ ⟨⟩ e he
    exact hP e (htest.leaves e he)
  cases c with
  | all cs =>
      rw [build]
      exact Sql.binds_map (binds_leavesAll hP cs hfragment) fun _ _ h =>
        leaves_joinBy (fun _ _ => by rw [Sql.Expr.leaves]) h
  | any cs =>
      rw [build]
      exact Sql.binds_map (binds_leavesAll hP cs hfragment) fun _ _ h =>
        leaves_joinBy (fun _ _ => by rw [Sql.Expr.leaves]) h
  | not c =>
      rw [build]
      refine Sql.binds_map (binds_leaves hP c hfragment) fun _ x h => ?_
      intro y hy
      obtain ⟨z, rfl, rfl⟩ := Option.map_eq_some_iff.1 hy
      exact h z rfl
  | template sql values =>
      rw [build]
      exact fun p => ⟨(binds_fillTemplate sql.toList values p).1, fun q _ =>
        leaves_fragment? (hfragment rfl _)⟩
  | raw sql =>
      rw [build]
      exact Sql.binds_pure fun q => leaves_fragment? (hfragment rfl sql)
  | _ => exact single rfl

theorem binds_leavesAll (hP : ∀ e, isTestLeaf e = true → P e) (cs : List Condition)
    (hfragment : anyFragment cs = true → ∀ t, P (.fragment t)) :
    Sql.Binds (buildAll cs) fun _ xs => ∀ x ∈ xs, ∀ e ∈ x.leaves, P e := by
  cases cs with
  | nil =>
      rw [buildAll]
      exact Sql.binds_pure fun q => by simp
  | cons c cs =>
      have hrest := binds_leavesAll hP cs fun h => hfragment (by simp [anyFragment, h])
      rw [buildAll]
      split
      · exact hrest
      · refine Sql.binds_bind (binds_leaves hP c fun h => hfragment (by simp [anyFragment, h])) ?_
        refine fun x => Sql.binds_bind hrest fun xs => ?_
        cases x with
        | none => exact Sql.binds_pure fun q hxs _ => hxs
        | some y =>
            refine Sql.binds_pure fun q hxs hx => List.forall_mem_cons.2 ⟨?_, hxs⟩
            split
            · exact hx y rfl
            · exact hx y rfl

end

end StagedStore.Condition
