import StagedStore.Sql.Statement

/-!
# Leaves of statements

`Statement.foldLeaves` visits every leaf of the expressions in a statement. From it come the
largest parameter a statement mentions and whether a statement is plain, that is, whether its tree
tells all there is to know about its text.
-/

namespace StagedStore.Sql

variable {α : Type}

namespace Expr

mutual

/-- Visit the expressions that hold no others, from left to right. -/
def foldLeaves (f : α → Expr → α) (x : α) : Expr → α
  | .paren e | .not e | .nullCheck _ e => foldLeaves f x e
  | .add a b | .compare _ a b | .like _ a b | .and a b | .or a b =>
    foldLeaves f (foldLeaves f x a) b
  | .between _ a l h => foldLeaves f (foldLeaves f (foldLeaves f x a) l) h
  | .inList _ a ms => foldLeavesAll f (foldLeaves f x a) ms
  | .inTable _ a _ _ => foldLeaves f x a
  | .choose arms e => foldLeaves f (foldLeavesArms f x arms) e
  | .call _ args => foldLeavesAll f x args
  | .literal v => f x (.literal v)
  | .param n => f x (.param n)
  | .column q n => f x (.column q n)
  | .countAll => f x .countAll
  | .fragment t => f x (.fragment t)

def foldLeavesAll (f : α → Expr → α) (x : α) : List Expr → α
  | [] => x
  | e :: es => foldLeavesAll f (foldLeaves f x e) es

def foldLeavesArms (f : α → Expr → α) (x : α) : List (Expr × Expr) → α
  | [] => x
  | (c, r) :: arms => foldLeavesArms f (foldLeaves f (foldLeaves f x c) r) arms

end

end Expr

/-- Visit the leaves of an expression that may be missing. -/
def foldLeaves? (f : α → Expr → α) (x : α) (e : Option Expr) : α :=
  e.elim x fun e => e.foldLeaves f x

/-- Visit the leaves of rows of values. -/
def foldLeavesTuples (f : α → Expr → α) (x : α) (rows : List (List Expr)) : α :=
  rows.foldl (Expr.foldLeavesAll f) x

def ResultColumn.foldLeaves (f : α → Expr → α) (x : α) : ResultColumn → α
  | .all => x
  | .expr e _ => e.foldLeaves f x

mutual

def Source.foldLeaves (f : α → Expr → α) (x : α) : Source → α
  | .table _ _ => x
  | .values rows => foldLeavesTuples f x rows
  | .query q _ => q.foldLeaves f x
  | .join l r c => c.foldLeaves f (r.foldLeaves f (l.foldLeaves f x))

/-- Visit the leaves of a source that may be missing. -/
def foldLeavesFrom (f : α → Expr → α) (x : α) : Option Source → α
  | none => x
  | some s => s.foldLeaves f x

def Select.foldLeaves (f : α → Expr → α) (x : α) : Select → α
  | .mk columns source condition order _ =>
    let x := columns.foldl (ResultColumn.foldLeaves f) x
    let x := foldLeavesFrom f x source
    order.foldl (fun x t => t.term.foldLeaves f x) (foldLeaves? f x condition)

end

def Query.foldLeaves (f : α → Expr → α) (x : α) : Query → α
  | .select q => q.foldLeaves f x
  | .fragment t => f x (.fragment t)

/-- Visit every leaf of the expressions in a statement; text of the caller's own is a leaf too. -/
def Statement.foldLeaves (f : α → Expr → α) (x : α) : Statement → α
  | .createTable _ _ columns => columns.foldl (fun x c => c.constraints.foldl (fun x k =>
      match k with
      | .check e => e.foldLeaves f x
      | _ => x) x) x
  | .createTemporary _ q | .insertQuery _ q => q.foldLeaves f x
  | .insert _ _ rows => foldLeavesTuples f x rows
  | .update _ assignments _ condition =>
    foldLeaves? f (assignments.foldl (fun x (_, e) => e.foldLeaves f x) x) condition
  | .delete _ condition => foldLeaves? f x condition
  | .select q => q.foldLeaves f x
  | .fragment t => f x (.fragment t)
  | .dropTable .. | .insertDefault _ | .begin | .commit | .rollback => x

/-- The number of a numbered parameter, else zero. -/
def Expr.paramNumber : Expr → Nat
  | .param (some n) => n
  | _ => 0

/-- The largest number of a parameter in a statement; zero without parameters. -/
def Statement.maxParam (s : Statement) : Nat :=
  s.foldLeaves (fun n e => max n e.paramNumber) 0

/-- Whether a leaf says itself what its text means: it is not text of the caller's own, its
parameter is numbered, and no character ends the statement early. -/
def Expr.isPlainLeaf : Expr → Bool
  | .fragment _ => false
  | .param none => false
  | .literal (.text s) => !s.contains '\x00'
  | _ => true

/-- Whether the tree of a statement is the one its text reads as. -/
def Statement.isPlain (s : Statement) : Bool :=
  s.foldLeaves (fun b e => b && e.isPlainLeaf) true

/-- Whether a leaf is a text with a null character, in the middle of which the statement ends. -/
def Expr.endsEarly : Expr → Bool
  | .literal (.text s) => s.contains '\x00'
  | _ => false

/-- Whether a statement ends in the middle of a text. -/
def Statement.endsEarly (s : Statement) : Bool :=
  s.foldLeaves (fun b e => b || e.endsEarly) false

end StagedStore.Sql
