import StagedStore.Sql.Leaves

/-!
# Leaves

Visiting the leaves of a statement is a fold over the list of them, so that what holds of a
statement leaf by leaf can be read off the lists of its parts.
-/

namespace StagedStore.Sql

variable {α : Type}

namespace Expr

mutual

/-- The expressions that hold no others, from left to right. -/
def leaves : Expr → List Expr
  | .paren e | .not e | .nullCheck _ e => leaves e
  | .add a b | .compare _ a b | .like _ a b | .and a b | .or a b => leaves a ++ leaves b
  | .between _ a l h => leaves a ++ leaves l ++ leaves h
  | .inList _ a ms => leaves a ++ leavesAll ms
  | .inTable _ a _ _ => leaves a
  | .choose arms e => leavesArms arms ++ leaves e
  | .call _ args => leavesAll args
  | .literal v => [.literal v]
  | .param n => [.param n]
  | .column q n => [.column q n]
  | .countAll => [.countAll]
  | .fragment t => [.fragment t]

def leavesAll : List Expr → List Expr
  | [] => []
  | e :: es => leaves e ++ leavesAll es

def leavesArms : List (Expr × Expr) → List Expr
  | [] => []
  | (c, r) :: arms => leaves c ++ leaves r ++ leavesArms arms

end

theorem leavesAll_eq (es : List Expr) : leavesAll es = es.flatMap leaves := by
  induction es with
  | nil => rfl
  | cons e es ih => rw [leavesAll, List.flatMap_cons, ih]

theorem leavesArms_eq (arms : List (Expr × Expr)) :
    leavesArms arms = arms.flatMap fun a => leaves a.1 ++ leaves a.2 := by
  induction arms with
  | nil => rfl
  | cons a arms ih =>
      obtain ⟨c, r⟩ := a
      rw [leavesArms, List.flatMap_cons, ih]

theorem renderAll_eq (es : List Expr) : renderAll es = es.map render := by
  induction es with
  | nil => rfl
  | cons e es ih => rw [renderAll, List.map_cons, ih]

theorem renderArms_eq (arms : List (Expr × Expr)) :
    renderArms arms = arms.map fun a => "WHEN " ++ render a.1 ++ " THEN " ++ render a.2 := by
  induction arms with
  | nil => rfl
  | cons a arms ih => rw [renderArms, List.map_cons, ih]

mutual

theorem foldLeaves_eq (f : α → Expr → α) (x : α) (e : Expr) :
    e.foldLeaves f x = e.leaves.foldl f x := by
  cases e with
  | paren e => rw [foldLeaves, leaves, foldLeaves_eq f x e]
  | not e => rw [foldLeaves, leaves, foldLeaves_eq f x e]
  | nullCheck _ e => rw [foldLeaves, leaves, foldLeaves_eq f x e]
  | add a b => rw [foldLeaves, leaves, List.foldl_append, foldLeaves_eq f x a, foldLeaves_eq f _ b]
  | compare _ a b =>
      rw [foldLeaves, leaves, List.foldl_append, foldLeaves_eq f x a, foldLeaves_eq f _ b]
  | like _ a b =>
      rw [foldLeaves, leaves, List.foldl_append, foldLeaves_eq f x a, foldLeaves_eq f _ b]
  | and a b => rw [foldLeaves, leaves, List.foldl_append, foldLeaves_eq f x a, foldLeaves_eq f _ b]
  | or a b => rw [foldLeaves, leaves, List.foldl_append, foldLeaves_eq f x a, foldLeaves_eq f _ b]
  | between _ a l h =>
      rw [foldLeaves, leaves, List.foldl_append, List.foldl_append, foldLeaves_eq f x a,
        foldLeaves_eq f _ l, foldLeaves_eq f _ h]
  | inList _ a ms =>
      rw [foldLeaves, leaves, List.foldl_append, foldLeaves_eq f x a, foldLeavesAll_eq f _ ms]
  | inTable _ a _ _ => rw [foldLeaves, leaves, foldLeaves_eq f x a]
  | choose arms e =>
      rw [foldLeaves, leaves, List.foldl_append, foldLeavesArms_eq f x arms, foldLeaves_eq f _ e]
  | call _ args => rw [foldLeaves, leaves, foldLeavesAll_eq f x args]
  | literal v => rfl
  | param n => rfl
  | column q n => rfl
  | countAll => rfl
  | fragment t => rfl

theorem foldLeavesAll_eq (f : α → Expr → α) (x : α) (es : List Expr) :
    foldLeavesAll f x es = (leavesAll es).foldl f x := by
  cases es with
  | nil => rfl
  | cons e es =>
      rw [foldLeavesAll, leavesAll, List.foldl_append, foldLeaves_eq f x e,
        foldLeavesAll_eq f _ es]

theorem foldLeavesArms_eq (f : α → Expr → α) (x : α) (arms : List (Expr × Expr)) :
    foldLeavesArms f x arms = (leavesArms arms).foldl f x := by
  match arms with
  | [] => rfl
  | (c, r) :: arms =>
      rw [foldLeavesArms, leavesArms, List.foldl_append, List.foldl_append, foldLeaves_eq f x c,
        foldLeaves_eq f _ r, foldLeavesArms_eq f _ arms]

end

end Expr

/-- The leaves of an expression that may be missing. -/
def leaves? (e : Option Expr) : List Expr :=
  e.elim [] Expr.leaves

theorem foldLeaves?_eq (f : α → Expr → α) (x : α) (e : Option Expr) :
    foldLeaves? f x e = (leaves? e).foldl f x := by
  cases e with
  | none => rfl
  | some e => exact Expr.foldLeaves_eq f x e

theorem foldl_leaves {β : Type} {f : α → Expr → α} {g : α → β → α} {leaves : β → List Expr}
    (h : ∀ x b, g x b = (leaves b).foldl f x) (x : α) (bs : List β) :
    bs.foldl g x = (bs.flatMap leaves).foldl f x := by
  induction bs generalizing x with
  | nil => rfl
  | cons b bs ih => rw [List.foldl_cons, List.flatMap_cons, List.foldl_append, h, ih]

theorem foldLeavesTuples_eq (f : α → Expr → α) (x : α) (rows : List (List Expr)) :
    foldLeavesTuples f x rows = (rows.flatMap Expr.leavesAll).foldl f x :=
  foldl_leaves (fun x es => Expr.foldLeavesAll_eq f x es) x rows

def ResultColumn.leaves : ResultColumn → List Expr
  | .all => []
  | .expr e _ => e.leaves

theorem ResultColumn.foldLeaves_eq (f : α → Expr → α) (x : α) (c : ResultColumn) :
    c.foldLeaves f x = c.leaves.foldl f x := by
  cases c with
  | all => rfl
  | expr e _ => exact e.foldLeaves_eq f x

mutual

def Source.leaves : Source → List Expr
  | .table _ _ => []
  | .values rows => rows.flatMap Expr.leavesAll
  | .query q _ => q.leaves
  | .join l r c => l.leaves ++ r.leaves ++ c.leaves

def leavesFrom : Option Source → List Expr
  | none => []
  | some s => s.leaves

def Select.leaves : Select → List Expr
  | .mk columns source condition order _ =>
    columns.flatMap ResultColumn.leaves ++ leavesFrom source ++ leaves? condition ++
      order.flatMap fun t => t.term.leaves

end

mutual

theorem Source.foldLeaves_eq (f : α → Expr → α) (x : α) (s : Source) :
    s.foldLeaves f x = s.leaves.foldl f x := by
  cases s with
  | table _ _ => rfl
  | values rows => exact foldLeavesTuples_eq f x rows
  | query q _ => rw [Source.foldLeaves, Source.leaves, Select.foldLeaves_eq f x q]
  | join l r c =>
      rw [Source.foldLeaves, Source.leaves, List.foldl_append, List.foldl_append,
        Source.foldLeaves_eq f x l, Source.foldLeaves_eq f _ r, Expr.foldLeaves_eq]

theorem foldLeavesFrom_eq (f : α → Expr → α) (x : α) (s : Option Source) :
    foldLeavesFrom f x s = (leavesFrom s).foldl f x := by
  cases s with
  | none => rfl
  | some s => exact Source.foldLeaves_eq f x s

theorem Select.foldLeaves_eq (f : α → Expr → α) (x : α) (q : Select) :
    q.foldLeaves f x = q.leaves.foldl f x := by
  cases q with
  | mk columns source condition order limit =>
      rw [Select.foldLeaves, Select.leaves, List.foldl_append, List.foldl_append,
        List.foldl_append, foldl_leaves (ResultColumn.foldLeaves_eq f), foldLeavesFrom_eq f _ source,
        foldLeaves?_eq, foldl_leaves (f := f) fun x t => Expr.foldLeaves_eq f x t.term]

end

def Query.leaves : Query → List Expr
  | .select q => q.leaves
  | .fragment t => [.fragment t]

theorem Query.foldLeaves_eq (f : α → Expr → α) (x : α) (q : Query) :
    q.foldLeaves f x = q.leaves.foldl f x := by
  cases q with
  | select q => exact q.foldLeaves_eq f x
  | fragment t => rfl

def ColumnConstraint.leaves : ColumnConstraint → List Expr
  | .check e => e.leaves
  | _ => []

namespace Statement

/-- The leaves of a statement; text of the caller's own is a leaf too. -/
def leaves : Statement → List Expr
  | .createTable _ _ columns => columns.flatMap fun c => c.constraints.flatMap ColumnConstraint.leaves
  | .createTemporary _ q | .insertQuery _ q => q.leaves
  | .insert _ _ rows => rows.flatMap Expr.leavesAll
  | .update _ assignments _ condition => (assignments.flatMap fun a => a.2.leaves) ++ leaves? condition
  | .delete _ condition => leaves? condition
  | .select q => q.leaves
  | .fragment t => [.fragment t]
  | .dropTable .. | .insertDefault _ | .begin | .commit | .rollback => []

theorem foldLeaves_eq (f : α → Expr → α) (x : α) (s : Statement) :
    s.foldLeaves f x = s.leaves.foldl f x := by
  cases s with
  | createTable u t columns =>
      refine foldl_leaves (fun x c => foldl_leaves (fun x k => ?_) x c.constraints) x columns
      cases k with
      | check e => exact e.foldLeaves_eq f x
      | _ => rfl
  | createTemporary t q => exact q.foldLeaves_eq f x
  | insertQuery t q => exact q.foldLeaves_eq f x
  | insert t columns rows => exact foldLeavesTuples_eq f x rows
  | update t assignments source condition =>
      rw [foldLeaves, leaves, List.foldl_append, foldLeaves?_eq]
      exact congrArg (fun y => (leaves? condition).foldl f y)
        (foldl_leaves (fun x a => Expr.foldLeaves_eq f x a.2) x assignments)
  | delete t condition => exact foldLeaves?_eq f x condition
  | select q => exact q.foldLeaves_eq f x
  | _ => rfl

theorem isPlain_eq (s : Statement) : s.isPlain = s.leaves.all Expr.isPlainLeaf := by
  have general (b : Bool) (es : List Expr) :
      es.foldl (fun b e => b && e.isPlainLeaf) b = (b && es.all Expr.isPlainLeaf) := by
    induction es generalizing b with
    | nil => simp
    | cons e es ih => rw [List.foldl_cons, ih, List.all_cons, Bool.and_assoc]
  unfold isPlain
  rw [foldLeaves_eq, general, Bool.true_and]

theorem endsEarly_eq (s : Statement) : s.endsEarly = s.leaves.any Expr.endsEarly := by
  have general (b : Bool) (es : List Expr) :
      es.foldl (fun b e => b || e.endsEarly) b = (b || es.any Expr.endsEarly) := by
    induction es generalizing b with
    | nil => simp
    | cons e es ih => rw [List.foldl_cons, ih, List.any_cons, Bool.or_assoc]
  unfold endsEarly
  rw [foldLeaves_eq, general, Bool.false_or]

end Statement

/-- A leaf that is no text of the caller's own: not a fragment, and a parameter has its number. -/
def Expr.isMade : Expr → Bool
  | .fragment _ => false
  | .param none => false
  | _ => true

/-- A statement without text of the caller's own is plain unless it ends in the middle of a text. -/
theorem Statement.isPlain_or_endsEarly {s : Statement} (h : ∀ e ∈ s.leaves, e.isMade = true) :
    s.isPlain = true ∨ (s.isPlain = false ∧ s.endsEarly = true) := by
  rw [isPlain_eq, endsEarly_eq]
  have leaf {e : Expr} (he : e.isMade = true) : e.isPlainLeaf = !e.endsEarly := by
    unfold Expr.isMade at he
    unfold Expr.isPlainLeaf Expr.endsEarly
    split <;> simp_all
  cases hall : s.leaves.all Expr.isPlainLeaf with
  | true => exact .inl rfl
  | false =>
      obtain ⟨e, he, hplain⟩ := List.all_eq_false.1 hall
      exact .inr ⟨rfl, List.any_eq_true.2 ⟨e, he, by simpa [leaf (h e he)] using hplain⟩⟩

end StagedStore.Sql
