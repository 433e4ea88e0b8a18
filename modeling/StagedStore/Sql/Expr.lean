import StagedStore.Literal

/-!
# SQL expressions

Expressions as they are written: parentheses are part of the tree, so that `Expr.render` is the
text of the tree and nothing is added to it. A `fragment` is text of the caller's own, whose
structure only a reader of the whole statement can find.
-/

namespace StagedStore.Sql

/-- Comparison operators. -/
inductive Comparison where
  | eq
  | ne
  | gt
  | ge
  | lt
  | le
deriving DecidableEq, Repr

def Comparison.text : Comparison → String
  | .eq => "="
  | .ne => "!="
  | .gt => ">"
  | .ge => ">="
  | .lt => "<"
  | .le => "<="

inductive Expr where
  | literal (v : Storage)
  /-- A parameter by number; without a number the next after the largest so far. -/
  | param (index : Option Nat)
  | column (qualifier : Option Part) (name : Part)
  | paren (e : Expr)
  | add (a b : Expr)
  | compare (op : Comparison) (a b : Expr)
  | like (negated : Bool) (a pattern : Expr)
  | nullCheck (negated : Bool) (a : Expr)
  | between (negated : Bool) (a low high : Expr)
  | inList (negated : Bool) (a : Expr) (members : List Expr)
  /-- Membership in a column of a table. -/
  | inTable (negated : Bool) (a : Expr) (column : Part) (table : Identifier)
  | not (e : Expr)
  | and (a b : Expr)
  | or (a b : Expr)
  /-- The result of the first arm whose condition holds, else the last expression. -/
  | choose (arms : List (Expr × Expr)) (otherwise : Expr)
  | call (function : String) (arguments : List Expr)
  /-- The number of rows of a query. -/
  | countAll
  | fragment (text : String)

namespace Expr

instance : Inhabited Expr := ⟨.literal .null⟩

/-- The literal of a cell's content; a real that has none becomes null. -/
def ofStorage : Storage → Expr
  | .real x => if x.isFinite then .literal (.real x) else .literal .null
  | v => .literal v

/-- A column by a quoted name. -/
def ofName (name : String) : Expr :=
  .column none (.quoted name)

/-- A column of a table or alias. -/
def qualified (qualifier : Part) (name : String) : Expr :=
  .column (some qualifier) (.quoted name)

def isLiteral : Expr → Bool
  | .literal _ => true
  | _ => false

/-- The word in front of an operator that is negated. -/
def notWord (negated : Bool) : String :=
  if negated then "NOT " else ""

mutual

/-- The text of an expression. A comparison of two literals is written without blanks. -/
def render : Expr → String
  | .literal v => v.literal
  | .param (some n) => "?" ++ toString n
  | .param none => "?"
  | .column none name => name.render
  | .column (some q) name => q.render ++ "." ++ name.render
  | .paren e => "(" ++ render e ++ ")"
  | .add a b => render a ++ " + " ++ render b
  | .compare op a b =>
    if isLiteral a && isLiteral b then render a ++ op.text ++ render b
    else render a ++ " " ++ op.text ++ " " ++ render b
  | .like negated a p => render a ++ " " ++ notWord negated ++ "LIKE " ++ render p
  | .nullCheck negated a => render a ++ " IS " ++ notWord negated ++ "NULL"
  | .between negated a l h =>
    render a ++ " " ++ notWord negated ++ "BETWEEN " ++ render l ++ " AND " ++ render h
  | .inList negated a ms =>
    render a ++ " " ++ notWord negated ++ "IN (" ++ ", ".intercalate (renderAll ms) ++ ")"
  | .inTable negated a c t =>
    render a ++ " " ++ notWord negated ++ "IN (SELECT " ++ c.render ++ " FROM " ++ t.render ++ ")"
  | .not e => "NOT " ++ render e
  | .and a b => render a ++ " AND " ++ render b
  | .or a b => render a ++ " OR " ++ render b
  | .choose arms otherwise =>
    "CASE " ++ " ".intercalate (renderArms arms) ++ " ELSE " ++ render otherwise ++ " END"
  | .call f args => f ++ "(" ++ ", ".intercalate (renderAll args) ++ ")"
  | .countAll => "COUNT(*)"
  | .fragment t => t

/-- The texts of several expressions. -/
def renderAll : List Expr → List String
  | [] => []
  | e :: es => render e :: renderAll es

/-- The texts of the arms of a choice. -/
def renderArms : List (Expr × Expr) → List String
  | [] => []
  | (c, r) :: arms => ("WHEN " ++ render c ++ " THEN " ++ render r) :: renderArms arms

end

end Expr

end StagedStore.Sql
