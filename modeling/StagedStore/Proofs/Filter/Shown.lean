import StagedStore.Proofs.Filter.Built
import StagedStore.Proofs.Sql.Shown

/-!
# What the text of a condition shows

The values of a condition are bound from left to right, and its text shows their placeholders in
that order and the columns of its tests.  Text of the caller's own shows what it was given: a raw
one no placeholder, a template those of its values.
-/

namespace StagedStore

open Sql

/-! ## Question marks in a text -/

namespace Sql

namespace Place

/-- Behind no question mark whose digits may go on. -/
def isSettled : Place → Bool
  | .digits _ => false
  | _ => true

variable {p : Place} {c : Char}

theorem isSettled_begin (hc : c ≠ '?') : (begin c).isSettled = true := by
  unfold begin
  repeat' split
  all_goals rfl

theorem isSettled_next (hp : p.isSettled = true) (hc : c ≠ '?') : (p.next c).isSettled = true := by
  have hbegin := isSettled_begin hc
  cases p with
  | digits read => cases hp
  | plain => exact hbegin
  | _ =>
      simp only [next]
      repeat' split
      all_goals first | rfl | exact hbegin

theorem placeholders_completed (hp : p.isSettled = true) (c : Char) :
    (p.completed c).filterMap Mark.placeholder? = [] := by
  cases p with
  | closed read =>
      rw [completed]
      split <;> rfl
  | digits read => cases hp
  | _ => rfl

theorem placeholders_last (hp : p.isSettled = true) : p.last.filterMap Mark.placeholder? = [] := by
  cases p with
  | digits read => cases hp
  | _ => rfl

theorem next_question (hp : p.isOutside = true) : p.next '?' = .digits [] := by
  cases p <;> first | rfl | cases hp

theorem after_digits {ds read : List Char} (hds : ∀ c ∈ ds, c.isDigit = true) :
    (Place.digits read).after ds = .digits (ds.reverse ++ read) := by
  induction ds generalizing read with
  | nil => rfl
  | cons d ds ih =>
      obtain ⟨hd, hds⟩ := List.forall_mem_cons.1 hds
      rw [after_cons, next, if_pos hd, ih hds, List.reverse_cons, List.append_assoc,
        List.singleton_append]

/-- Behind a placeholder a text goes on as at its beginning. -/
theorem isOutside_after_digits {read cs : List Char} (h : ∀ c ∈ cs.head?, c.isDigit = false) :
    ((Place.digits read).after cs).isOutside = (Place.plain.after cs).isOutside := by
  cases cs with
  | nil => rfl
  | cons c cs => rw [after_cons, after_cons, next, next, if_neg (by simp [h c rfl])]

theorem isOutside_after_placeholder {cs : List Char} (ds : List Char) (hp : p.isOutside = true)
    (hds : ∀ c ∈ ds, c.isDigit = true) (h : ∀ c ∈ cs.head?, c.isDigit = false) :
    (p.after ('?' :: (ds ++ cs))).isOutside = (Place.plain.after cs).isOutside := by
  rw [after_cons, next_question hp, after_append, after_digits hds, isOutside_after_digits h]

end Place

theorem placeholders_marksFrom {p : Place} {cs : List Char} (hp : p.isSettled = true)
    (h : '?' ∉ cs) : (marksFrom p cs).filterMap Mark.placeholder? = [] := by
  induction cs generalizing p with
  | nil => exact Place.placeholders_last hp
  | cons c cs ih =>
      rw [List.mem_cons, not_or] at h
      rw [marksFrom, List.filterMap_append, Place.placeholders_completed hp,
        ih (Place.isSettled_next hp (Ne.symm h.1)) h.2]
      rfl

/-- Each question mark of a text stands outside of quotes and comments, and no digit follows it. -/
def StandFree (p : Place) (cs : List Char) : Prop :=
  ∀ front back, cs = front ++ '?' :: back →
    (p.after front).isOutside = true ∧ ∀ c ∈ back.head?, c.isDigit = false

theorem StandFree.tail {p : Place} {c : Char} {cs : List Char} (h : StandFree p (c :: cs)) :
    StandFree (p.next c) cs := by
  rintro front back rfl
  exact h (c :: front) back rfl

theorem standFree_cons {p : Place} {c : Char} {cs : List Char} :
    StandFree p (c :: cs) ↔
      (c = '?' → p.isOutside = true ∧ ∀ d ∈ cs.head?, d.isDigit = false) ∧
        StandFree (p.next c) cs := by
  refine ⟨fun h => ⟨?_, h.tail⟩, fun ⟨hhead, htail⟩ front back hcs => ?_⟩
  · rintro rfl
    exact h [] cs rfl
  · cases front with
    | nil =>
        obtain ⟨hc, rfl⟩ := List.cons.inj hcs
        exact hhead hc
    | cons d front =>
        obtain ⟨hc, htext⟩ := List.cons.inj hcs
        exact hc ▸ htail front back htext

/-- Whether question marks stand free, seen character by character. -/
def standsFree : Place → List Char → Bool
  | _, [] => true
  | p, c :: cs =>
    (c ≠ '?' || p.isOutside && cs.head?.all (!·.isDigit)) && standsFree (p.next c) cs

theorem standsFree_iff {p : Place} {cs : List Char} : standsFree p cs = true ↔ StandFree p cs := by
  induction cs generalizing p with
  | nil => exact ⟨fun _ front back h => by simp at h, fun _ => rfl⟩
  | cons c cs ih =>
      rw [standFree_cons, standsFree, Bool.and_eq_true, ih]
      refine and_congr_left fun _ => ?_
      by_cases hc : c = '?' <;> simp [hc, Option.all_eq_true]

instance (p : Place) (cs : List Char) : Decidable (StandFree p cs) :=
  decidable_of_iff _ standsFree_iff

theorem StandFree.behind {p : Place} {cs : List Char} (h : StandFree p ('?' :: cs)) :
    StandFree .plain cs := by
  obtain ⟨hp, hdigit⟩ : p.isOutside = true ∧ _ := h [] cs rfl
  intro front back hcs
  obtain ⟨hfront, hback⟩ := h ('?' :: front) back (by rw [hcs]; rfl)
  have hdigit' : ∀ c ∈ front.head?, c.isDigit = false := by
    intro c hc
    refine hdigit c ?_
    rw [hcs]
    cases front with
    | nil => cases hc
    | cons d front => exact hc
  exact ⟨(Place.isOutside_after_placeholder [] hp nofun hdigit').symm.trans hfront, hback⟩

theorem numbered_one (n : Nat) : numbered n (n + 1) = ["?" ++ toString (n + 1)] := by
  rw [numbered, Nat.add_sub_cancel_left]
  rfl

theorem numbered_append {n m k : Nat} (h : n ≤ m) (h' : m ≤ k) :
    numbered n m ++ numbered m k = numbered n k := by
  obtain ⟨a, rfl⟩ := Nat.exists_eq_add_of_le h
  obtain ⟨b, rfl⟩ := Nat.exists_eq_add_of_le h'
  rw [← placeholder?_numberedMarks n a, ← placeholder?_numberedMarks (n + a) b,
    ← List.filterMap_append, ← numberedMarks_add, Nat.add_assoc, placeholder?_numberedMarks]

/-- A question mark with a number shows this number, and what follows shows its own. -/
theorem placeholders_filled {p : Place} {r : List Char} {n : Nat} (hsettled : p.isSettled = true)
    (hp : p.isOutside = true) (hr : ∀ c ∈ r.head?, c.isDigit = false) :
    (marksFrom p ('?' :: (Nat.toDigits 10 (n + 1) ++ r))).filterMap Mark.placeholder? =
      numbered n (n + 1) ++ (marks r).filterMap Mark.placeholder? := by
  rw [marksFrom_placeholder hp (fun _ => isDigit_of_mem_toDigits) hr, List.filterMap_append,
    Place.placeholders_last hsettled, numbered_one, ← Nat.toList_repr, String.ofList_toList]
  rfl

end Sql

namespace Condition

/-! ## Templates -/

theorem fillTemplate_nil (cs : List Char) (p : Params) : fillTemplate cs [] p = (cs, p) := by
  cases cs <;> rw [fillTemplate] <;> rfl

theorem fillTemplate_question (cs : List Char) (v : Value) (vs : List Value) (p : Params) :
    fillTemplate ('?' :: cs) (v :: vs) p =
      ('?' :: (Nat.toDigits 10 (p.size + 1) ++ (fillTemplate cs vs (p.push v.toStorage)).1),
        (fillTemplate cs vs (p.push v.toStorage)).2) := by
  rw [fillTemplate, if_pos rfl, ← List.cons_append, ← toList_placeholder]
  rfl

theorem fillTemplate_cons {c : Char} (hc : c ≠ '?') (cs : List Char) (values : List Value)
    (p : Params) : fillTemplate (c :: cs) values p =
      (c :: (fillTemplate cs values p).1, (fillTemplate cs values p).2) := by
  cases values with
  | nil => rw [fillTemplate_nil, fillTemplate_nil]
  | cons v vs =>
      rw [fillTemplate, if_neg hc]
      rfl

theorem head?_fillTemplate (cs : List Char) (values : List Value) (p : Params) :
    (fillTemplate cs values p).1.head? = cs.head? := by
  cases values with
  | nil => rw [fillTemplate_nil]
  | cons v vs =>
      cases cs with
      | nil => rfl
      | cons c cs =>
          by_cases hc : c = '?'
          · rw [hc, fillTemplate_question]
            rfl
          · rw [fillTemplate_cons hc]
            rfl

/-- Where every question mark stands free and there is a value for each, the values are bound in
order and their placeholders are all that the text shows. -/
theorem fillTemplate_shows {place : Place} {cs : List Char} {values : List Value}
    (hplace : place.isSettled = true) (hfree : StandFree place cs)
    (hcount : cs.count '?' = values.length) (p : Params) :
    (fillTemplate cs values p).2 = p ++ (values.map Value.toStorage).toArray ∧
      (marksFrom place (fillTemplate cs values p).1).filterMap Mark.placeholder? =
        numbered p.size (p.size + values.length) ∧
      ((place.after cs).isOutside = true →
        (place.after (fillTemplate cs values p).1).isOutside = true) := by
  induction cs generalizing place values p with
  | nil =>
      obtain rfl : values = [] := List.length_eq_zero_iff.1 hcount.symm
      rw [fillTemplate_nil]
      refine ⟨by simp, ?_, id⟩
      rw [marksFrom, Place.placeholders_last hplace]
      simp [numbered]
  | cons c cs ih =>
      by_cases hc : c = '?'
      · subst hc
        obtain ⟨hplace', hdigit⟩ : place.isOutside = true ∧ _ := hfree [] cs rfl
        cases values with
        | nil => simp at hcount
        | cons v vs =>
            obtain ⟨hbound, hmarks, hout⟩ := ih rfl hfree.behind (by simpa using hcount)
              (p.push v.toStorage)
            have hdigit' := head?_fillTemplate cs vs (p.push v.toStorage) ▸ hdigit
            rw [fillTemplate_question]
            refine ⟨?_, ?_, fun hclosed => ?_⟩
            · rw [hbound]
              simp
            · have hnumbers : p.size + (v :: vs).length = p.size + 1 + vs.length := by
                rw [List.length_cons]
                omega
              rw [Array.size_push] at hmarks
              rw [placeholders_filled hplace hplace' hdigit', hnumbers, ← numbered_append
                (Nat.le_add_right p.size 1) (Nat.le_add_right ..), ← hmarks]
              rfl
            · rw [Place.isOutside_after_placeholder _ hplace' (fun _ => isDigit_of_mem_toDigits)
                hdigit']
              exact hout ((Place.isOutside_after_placeholder [] hplace'
                (List.forall_mem_nil _) hdigit).symm.trans hclosed)
      · obtain ⟨hbound, hmarks, hout⟩ := ih (Place.isSettled_next hplace hc) hfree.tail
          (by simpa [hc] using hcount) p
        rw [fillTemplate_cons hc]
        refine ⟨hbound, ?_, hout⟩
        rw [marksFrom, List.filterMap_append, Place.placeholders_completed hplace, hmarks]
        rfl

/-! ## Building case by case -/

theorem build_all (cs : List Condition) (p : Params) :
    (all cs).build p = (joinBy .and (buildAll cs p).1, (buildAll cs p).2) := by
  rw [build]
  rfl

theorem build_any (cs : List Condition) (p : Params) :
    (any cs).build p = (joinBy .or (buildAll cs p).1, (buildAll cs p).2) := by
  rw [build]
  rfl

theorem build_not (c : Condition) (p : Params) :
    (not c).build p = ((c.build p).1.map fun e => .not (.paren e), (c.build p).2) := by
  rw [build]
  rfl

theorem build_test (column : String) (op : TestOp) (v : Value) (p : Params) :
    (test column op v).build p =
      (some (op.apply (.ofName column) (.param (some (p.size + 1)))), p.push v.toStorage) := by
  rw [build]
  rfl

theorem build_null (column : String) (negated : Bool) (p : Params) :
    (null column negated).build p = (some (.nullCheck negated (.ofName column)), p) := by
  rw [build]
  rfl

theorem build_between (column : String) (low high : Value) (negated : Bool) (p : Params) :
    (between column low high negated).build p =
      (some (.between negated (.ofName column) (.param (some (p.size + 1)))
        (.param (some ((p.push low.toStorage).size + 1)))),
        (p.push low.toStorage).push high.toStorage) := by
  rw [build]
  rfl

theorem build_template (sql : String) (values : List Value) (p : Params) :
    (template sql values).build p =
      (fragment? (String.ofList (fillTemplate sql.toList values p).1),
        (fillTemplate sql.toList values p).2) := by
  rw [build]
  rfl

theorem build_raw (sql : String) (p : Params) : (raw sql).build p = (fragment? sql, p) := by
  rw [build]
  rfl

theorem build_always (p : Params) : always.build p = (some (truth true), p) := by
  rw [build]
  rfl

theorem build_never (p : Params) : never.build p = (some (truth false), p) := by
  rw [build]
  rfl

/-- The parameters of some values, behind others. -/
def paramsFrom (n k : Nat) : List Expr :=
  (List.range' (n + 1) k).map fun i => .param (some i)

theorem mapM_bind (values : List Value) (p : Params) :
    (values.mapM fun v => Sql.bind v.toStorage) p =
      (paramsFrom p.size values.length, p ++ (values.map Value.toStorage).toArray) := by
  induction values generalizing p with
  | nil => simp [paramsFrom]; rfl
  | cons v vs ih =>
      rw [List.mapM_cons]
      change (let (es, q) := (vs.mapM fun v => Sql.bind v.toStorage) (p.push v.toStorage)
        ((.param (some (p.size + 1)) :: es : List Expr), q)) = _
      rw [ih]
      simp [paramsFrom, List.range'_succ]

theorem build_member {values : List Value} (hne : values ≠ []) (column : String) (negated : Bool)
    (p : Params) :
    (member column values negated).build p =
      (some (.inList negated (.ofName column) (paramsFrom p.size values.length)),
        p ++ (values.map Value.toStorage).toArray) := by
  have hempty : values.isEmpty = false := List.isEmpty_eq_false_iff.2 hne
  have hbind := mapM_bind values p
  rw [build, hempty]
  change (let (ps, q) := (values.mapM fun v => Sql.bind v.toStorage) p
    (some (Expr.inList negated (.ofName column) ps), q)) = _
  rw [hbind]

theorem build_member_nil (column : String) (negated : Bool) (p : Params) :
    (member column [] negated).build p = (some (truth negated), p) := by
  rw [build]
  rfl

/-- A member of a group as it stands in it. -/
def placed (c : Condition) (e : Expr) : Expr :=
  if c.isGroup then .paren e else e

theorem buildAll_nil (p : Params) : buildAll [] p = ([], p) := by
  rw [buildAll]
  rfl

theorem buildAll_cons (c : Condition) (cs : List Condition) (p : Params) :
    buildAll (c :: cs) p =
      if c.isEmpty then buildAll cs p
      else (((c.build p).1.map c.placed).toList ++ (buildAll cs (c.build p).2).1,
        (buildAll cs (c.build p).2).2) := by
  rw [buildAll]
  split
  · rfl
  · have hbind {α β : Type} (b : Binding α) (f : α → Binding β) :
        (b >>= f) p = f (b p).1 (b p).2 := rfl
    rw [hbind]
    cases (c.build p).1 <;> rfl

/-! ## What is bound and what is shown -/

mutual

/-- The values of a condition, from left to right. -/
def values : Condition → List Value
  | .all cs | .any cs => allValues cs
  | .not c => values c
  | .test _ _ v => [v]
  | .member _ vs _ | .template _ vs => vs
  | .between _ low high _ => [low, high]
  | .null _ _ | .raw _ | .always | .never => []

def allValues : List Condition → List Value
  | [] => []
  | c :: cs => values c ++ allValues cs

end

mutual

/-- The caller's own texts leave no quote and no comment open.  A raw one has no question mark, and
a template has as many as values, each of which stands free. -/
def Tidy : Condition → Prop
  | .all cs | .any cs => AllTidy cs
  | .not c => Tidy c
  | .template sql vs =>
    EndsOutside sql ∧ sql.toList.count '?' = vs.length ∧ StandFree .plain sql.toList
  | .raw sql => EndsOutside sql ∧ '?' ∉ sql.toList
  | _ => True

def AllTidy : List Condition → Prop
  | [] => True
  | c :: cs => Tidy c ∧ AllTidy cs

end

mutual

theorem values_of_isEmpty (c : Condition) (h : c.isEmpty = true) : c.values = [] := by
  cases c with
  | all cs => exact allValues_of_allEmpty cs h
  | any cs => exact allValues_of_allEmpty cs h
  | not c => exact values_of_isEmpty c h
  | _ => simp [isEmpty] at h

theorem allValues_of_allEmpty (cs : List Condition) (h : allEmpty cs = true) :
    allValues cs = [] := by
  cases cs with
  | nil => rfl
  | cons c cs =>
      obtain ⟨hc, hcs⟩ := Bool.and_eq_true_iff.1 h
      rw [allValues, values_of_isEmpty c hc, allValues_of_allEmpty cs hcs]
      rfl

end

/-- Expressions that are built behind some parameters bind values in order, and their texts show the
placeholders of these and no others. -/
structure Shown (p q : Params) (vs : List Value) (es : List Expr) : Prop where
  bound : q = p ++ (vs.map Value.toStorage).toArray
  legible : ∀ e ∈ es, e.Legible
  placeholders : (es.flatMap Expr.marks).filterMap Mark.placeholder? = numbered p.size q.size

variable {p q r : Params} {vs ws : List Value} {es fs : List Expr}

theorem shown_of_unbound (hlegible : ∀ e ∈ es, e.Legible)
    (hmarks : (es.flatMap Expr.marks).filterMap Mark.placeholder? = []) : Shown p p [] es where
  bound := by simp
  legible := hlegible
  placeholders := by simpa [numbered] using hmarks

theorem Shown.append (h : Shown p q vs es) (h' : Shown q r ws fs) :
    Shown p r (vs ++ ws) (es ++ fs) where
  bound := by rw [h'.bound, h.bound]; simp
  legible := List.forall_mem_append.2 ⟨h.legible, h'.legible⟩
  placeholders := by
    rw [List.flatMap_append, List.filterMap_append, h.placeholders, h'.placeholders]
    exact numbered_append (by rw [h.bound]; simp) (by rw [h'.bound]; simp)

/-- Parameters are shown, whatever names stand between them. -/
theorem shown_of_marks {e : Expr} (hlegible : e.Legible)
    (hmarks : e.marks.filterMap Mark.placeholder? = numbered p.size (p.size + vs.length)) :
    Shown p (p ++ (vs.map Value.toStorage).toArray) vs [e] where
  bound := rfl
  legible := by simpa using hlegible
  placeholders := by simpa using hmarks

theorem Shown.map {f : Expr → Expr} (h : Shown p q vs es)
    (hlegible : ∀ e, e.Legible → (f e).Legible) (hmarks : ∀ e, (f e).marks = e.marks) :
    Shown p q vs (es.map f) where
  bound := h.bound
  legible := List.forall_mem_map.2 fun e he => hlegible e (h.legible e he)
  placeholders := by
    rw [List.flatMap_map]
    simpa only [hmarks] using h.placeholders

/-- What is told of both sides of an operator is told of a group's members in order. -/
theorem flatMap_joinBy {α : Type} {tell : Expr → List α} {op : Expr → Expr → Expr}
    (hop : ∀ x y, tell (op x y) = tell x ++ tell y) (es : List Expr) :
    (joinBy op es).toList.flatMap tell = es.flatMap tell := by
  cases es with
  | nil => rfl
  | cons e es =>
      have hfold : tell (es.foldl op e) = (e :: es).flatMap tell := by
        induction es generalizing e with
        | nil => simp
        | cons f es ih => rw [List.foldl_cons, ih]; simp [hop]
      simpa [joinBy] using hfold

theorem Shown.join {op : Expr → Expr → Expr} (h : Shown p q vs es)
    (hlegible : ∀ x y, x.Legible → y.Legible → (op x y).Legible)
    (hmarks : ∀ x y, (op x y).marks = x.marks ++ y.marks) :
    Shown p q vs (joinBy op es).toList where
  bound := h.bound
  legible := by
    cases es with
    | nil => exact h.legible
    | cons e es =>
        have hfold : (es.foldl op e).Legible :=
          List.foldlRecOn es op (motive := Expr.Legible) (h.legible e List.mem_cons_self)
            fun x hx y hy => hlegible x y hx (h.legible y (List.mem_cons_of_mem e hy))
        simpa [joinBy] using hfold
  placeholders := by
    rw [flatMap_joinBy hmarks]
    exact h.placeholders

theorem shown_truth (b : Bool) (p : Params) : Shown p p [] [truth b] :=
  shown_of_unbound (List.forall_mem_singleton.2 ⟨trivial, trivial⟩) rfl

theorem shown_fragment {t : String} (hclosed : EndsOutside t)
    (hmarks : (Sql.marks t.toList).filterMap Mark.placeholder? =
      numbered p.size (p.size + vs.length)) :
    Shown p (p ++ (vs.map Value.toStorage).toArray) vs (fragment? t).toList := by
  unfold fragment?
  split
  · rename_i hempty
    subst hempty
    refine ⟨rfl, by simp, ?_⟩
    have hsize : (p ++ (vs.map Value.toStorage).toArray).size = p.size + vs.length := by simp
    rw [hsize]
    exact hmarks
  · exact shown_of_marks (e := .fragment t) hclosed hmarks

theorem marks_paramsFrom (n k : Nat) : Expr.marksAll (paramsFrom n k) = numberedMarks n k := by
  rw [Expr.marksAll_eq, paramsFrom, List.flatMap_map, numberedMarks, List.map_eq_flatMap]
  rfl

theorem legible_paramsFrom (n k : Nat) : Expr.LegibleAll (paramsFrom n k) := by
  rw [Expr.legibleAll_iff]
  intro e he
  obtain ⟨i, -, rfl⟩ := List.mem_map.1 he
  trivial

mutual

/-- What is built for a condition binds its values and shows them. -/
theorem shown_build (c : Condition) (h : c.Tidy) (p : Params) :
    Shown p (c.build p).2 c.values (c.build p).1.toList := by
  cases c with
  | all cs =>
      rw [build_all]
      exact (shown_buildAll cs h p).join (fun x y hx hy => ⟨hx, hy⟩) fun x y => rfl
  | any cs =>
      rw [build_any]
      exact (shown_buildAll cs h p).join (fun x y hx hy => ⟨hx, hy⟩) fun x y => rfl
  | not c =>
      rw [build_not, Option.toList_map]
      exact (shown_build c h p).map (fun e he => he) fun e => rfl
  | test column op v =>
      have hpush : p.push v.toStorage = p ++ ([v].map Value.toStorage).toArray := by simp
      rw [build_test, hpush]
      refine shown_of_marks ?_ ?_
      · cases op <;> exact ⟨trivial, trivial⟩
      · cases op <;> exact (numbered_one p.size).symm
  | null column negated =>
      rw [build_null]
      exact shown_of_unbound (List.forall_mem_singleton.2 trivial) rfl
  | member column vs negated =>
      cases vs with
      | nil =>
          rw [build_member_nil]
          exact shown_truth negated p
      | cons v vs =>
          rw [build_member (List.cons_ne_nil v vs)]
          refine shown_of_marks ⟨trivial, legible_paramsFrom ..⟩ ?_
          rw [Expr.marks, marks_paramsFrom]
          exact placeholder?_numberedMarks ..
  | between column low high negated =>
      have hpush : (p.push low.toStorage).push high.toStorage =
          p ++ ([low, high].map Value.toStorage).toArray :=
        Array.ext' (by simp)
      have hsize : (p.push low.toStorage).size = p.size + 1 := Array.size_push ..
      rw [build_between, hpush, hsize]
      refine shown_of_marks ⟨trivial, trivial, trivial⟩ ?_
      rw [List.length_cons, List.length_singleton,
        ← numbered_append (m := p.size + 1) (by omega) (by omega), numbered_one, numbered_one]
      rfl
  | template sql vs =>
      obtain ⟨hclosed, hcount, hfree⟩ := h
      obtain ⟨hbound, hmarks, hout⟩ := fillTemplate_shows rfl hfree hcount p
      rw [build_template, hbound]
      refine shown_fragment ?_ ?_
      · rw [EndsOutside, String.toList_ofList]
        exact hout hclosed
      · rw [String.toList_ofList]
        exact hmarks
  | raw sql =>
      rw [build_raw]
      have hnone : (Sql.marks sql.toList).filterMap Mark.placeholder? = [] :=
        placeholders_marksFrom rfl h.2
      have hshown : Shown p (p ++ ([].map Value.toStorage).toArray) [] (fragment? sql).toList :=
        shown_fragment h.1 (by rw [hnone]; simp [numbered])
      rw [List.map_nil, Array.append_empty] at hshown
      exact hshown
  | always =>
      rw [build_always]
      exact shown_truth true p
  | never =>
      rw [build_never]
      exact shown_truth false p

theorem shown_buildAll (cs : List Condition) (h : AllTidy cs) (p : Params) :
    Shown p (buildAll cs p).2 (allValues cs) (buildAll cs p).1 := by
  cases cs with
  | nil =>
      rw [buildAll_nil]
      exact shown_of_unbound (by simp) rfl
  | cons c cs =>
      rw [buildAll_cons, allValues]
      split
      · rename_i hempty
        rw [values_of_isEmpty c hempty]
        exact shown_buildAll cs h.2 p
      · rw [Option.toList_map]
        refine ((shown_build c h.1 p).map (fun e he => ?_) fun e => ?_).append
          (shown_buildAll cs h.2 _)
        · unfold placed
          split <;> exact he
        · unfold placed
          split <;> rfl

end

/-- The text of a condition shows the marks of what is built for it. -/
theorem marks_render {c : Condition} (h : c.Tidy) (p : Params) :
    Sql.marks (c.render p).1.toList = (c.build p).1.toList.flatMap Expr.marks := by
  have hlegible := (shown_build c h p).legible
  have htext : (c.render p).1 = ((c.build p).1.map Expr.render).getD "" := rfl
  rw [htext]
  cases hx : (c.build p).1 with
  | none => rfl
  | some x =>
      rw [hx] at hlegible
      simpa using (x.shows_render (hlegible x (by simp))).marks_eq

end Condition

end StagedStore
