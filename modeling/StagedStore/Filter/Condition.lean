import StagedStore.Sql.Statement

/-!
# Conditions

A `Condition` is a tree of tests on columns. `Condition.build` gives the SQL expression it means
and binds its values in the order they stand in; groups that hold no test at all disappear, and a
group inside a group or under a negation stands in parentheses.
-/

namespace StagedStore

/-- Operators between a column and a value. -/
inductive TestOp where
  | eq
  | ne
  | gt
  | ge
  | lt
  | le
  | like
  | notLike
deriving DecidableEq, Repr

/-- A column compared with an expression. -/
def TestOp.apply (op : TestOp) (column operand : Sql.Expr) : Sql.Expr :=
  match op with
  | .eq => .compare .eq column operand
  | .ne => .compare .ne column operand
  | .gt => .compare .gt column operand
  | .ge => .compare .ge column operand
  | .lt => .compare .lt column operand
  | .le => .compare .le column operand
  | .like => .like false column operand
  | .notLike => .like true column operand

inductive Condition where
  /-- Every member holds. -/
  | all (members : List Condition)
  /-- Some member holds. -/
  | any (members : List Condition)
  | not (c : Condition)
  | test (column : String) (op : TestOp) (v : Value)
  | null (column : String) (negated : Bool)
  | member (column : String) (values : List Value) (negated : Bool)
  | between (column : String) (low high : Value) (negated : Bool)
  /-- SQL of the caller's own; each question mark takes the next value while there are values. -/
  | template (sql : String) (values : List Value)
  /-- SQL of the caller's own. -/
  | raw (sql : String)
  | always
  | never

namespace Condition

instance : Inhabited Condition := ⟨.always⟩

/-- Membership in a list; nothing is a member of the empty list. -/
def isIn (column : String) (values : List Value) : Condition :=
  if values.isEmpty then .never else .member column values false

/-- No membership in a list. -/
def isNotIn (column : String) (values : List Value) : Condition :=
  if values.isEmpty then .always else .member column values true

mutual

/-- No test stands in the tree. -/
def isEmpty : Condition → Bool
  | .all cs => allEmpty cs
  | .any cs => allEmpty cs
  | .not c => isEmpty c
  | _ => false

def allEmpty : List Condition → Bool
  | [] => true
  | c :: cs => isEmpty c && allEmpty cs

end

mutual

/-- The columns that the tests of a tree name, from left to right. -/
def columns : Condition → List String
  | .all cs => allColumns cs
  | .any cs => allColumns cs
  | .not c => columns c
  | .test column _ _ => [column]
  | .null column _ => [column]
  | .member column _ _ => [column]
  | .between column _ _ _ => [column]
  | .template _ _ | .raw _ | .always | .never => []

def allColumns : List Condition → List String
  | [] => []
  | c :: cs => columns c ++ allColumns cs

end

/-- Whether a condition is a group, which needs parentheses inside another. -/
def isGroup : Condition → Bool
  | .all _ => true
  | .any _ => true
  | _ => false

/-- The truth value as a comparison of numbers. -/
def truth (b : Bool) : Sql.Expr :=
  .compare .eq (.literal (.integer 1)) (.literal (.integer (if b then 1 else 0)))

/-- Text of the caller's own; an empty text is no expression. -/
def fragment? (text : String) : Option Sql.Expr :=
  if text = "" then none else some (.fragment text)

/-- The text of a template, each question mark replaced by the parameter of the next value. -/
def fillTemplate : List Char → List Value → Sql.Binding (List Char)
  | [], _ => return []
  | c :: r, values => do
    match values with
    | v :: vs =>
      if c = '?' then do
        let p ← Sql.bind v.toStorage
        return p.render.toList ++ (← fillTemplate r vs)
      else return c :: (← fillTemplate r values)
    | [] => return c :: r

/-- Expressions joined by an operator; none of none. -/
def joinBy (op : Sql.Expr → Sql.Expr → Sql.Expr) : List Sql.Expr → Option Sql.Expr
  | [] => none
  | e :: es => some (es.foldl op e)

mutual

/-- The expression of a condition, if a test stands in it. -/
def build : Condition → Sql.Binding (Option Sql.Expr)
  | .all cs => return joinBy .and (← buildAll cs)
  | .any cs => return joinBy .or (← buildAll cs)
  | .not c => return (← build c).map fun e => .not (.paren e)
  | .test column op v => do
    let p ← Sql.bind v.toStorage
    return some (op.apply (.ofName column) p)
  | .null column negated => return some (.nullCheck negated (.ofName column))
  | .member column values negated => do
    if values.isEmpty then return some (truth negated)
    let ps ← values.mapM fun v => Sql.bind v.toStorage
    return some (.inList negated (.ofName column) ps)
  | .between column low high negated => do
    let l ← Sql.bind low.toStorage
    let h ← Sql.bind high.toStorage
    return some (.between negated (.ofName column) l h)
  | .template sql values => return fragment? (String.ofList (← fillTemplate sql.toList values))
  | .raw sql => return fragment? sql
  | .always => return some (truth true)
  | .never => return some (truth false)

/-- The expressions of the members of a group that hold a test. -/
def buildAll : List Condition → Sql.Binding (List Sql.Expr)
  | [] => return []
  | c :: cs => do
    if isEmpty c then buildAll cs
    else do
      let e ← build c
      let es ← buildAll cs
      match e with
      | none => return es
      | some e => return (if isGroup c then .paren e else e) :: es

end

/-- The text of a condition, empty when no test stands in it. -/
def render (c : Condition) : Sql.Binding String :=
  return ((← c.build).map Sql.Expr.render).getD ""

end Condition

end StagedStore
