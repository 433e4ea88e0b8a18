import StagedStore.Sql.Expr

/-!
# SQL statements

Queries and statements as they are written. `Statement.render` is their text.
-/

namespace StagedStore.Sql

/-- A column of a query's result. -/
inductive ResultColumn where
  /-- Every column of the source. -/
  | all
  | expr (e : Expr) (label : Option Part)

/-- The word and name of an alias, if there is one. -/
def renderAlias : Option Part → String
  | none => ""
  | some a => " AS " ++ a.render

def ResultColumn.render : ResultColumn → String
  | .all => "*"
  | .expr e a => e.render ++ renderAlias a

inductive Direction where
  | ascending
  | descending
deriving DecidableEq, Repr

def Direction.text : Direction → String
  | .ascending => "ASC"
  | .descending => "DESC"

/-- How many rows a query gives and how many it skips; a negative count does not limit. -/
structure Limit where
  count : Int
  offset : Option Int
deriving DecidableEq, Repr

def Limit.render (l : Limit) : String :=
  " LIMIT " ++ toString l.count ++
    match l.offset with
    | none => ""
    | some o => " OFFSET " ++ toString o

/-- One term of an ordering; without a word for its direction it ascends. -/
structure OrderTerm where
  term : Expr
  direction : Option Direction

def OrderTerm.render (t : OrderTerm) : String :=
  t.term.render ++
    match t.direction with
    | none => ""
    | some d => " " ++ d.text

mutual

/-- Where a query takes its rows from. -/
inductive Source where
  | table (name : Identifier) (label : Option Part)
  | values (rows : List (List Expr))
  | query (q : Select) (label : Option Part)
  | join (left right : Source) (condition : Expr)

/-- A query of rows. -/
inductive Select where
  | mk (columns : List ResultColumn) (source : Option Source) (condition : Option Expr)
      (order : List OrderTerm) (limit : Option Limit)

end

/-- Rows of values in parentheses. -/
def renderTuples (rows : List (List Expr)) : String :=
  ", ".intercalate (rows.map fun r => "(" ++ ", ".intercalate (Expr.renderAll r) ++ ")")

/-- A condition behind its word. -/
def renderWhere : Option Expr → String
  | none => ""
  | some c => " WHERE " ++ c.render

mutual

def Source.render : Source → String
  | .table name a => name.render ++ renderAlias a
  | .values rows => "(VALUES " ++ renderTuples rows ++ ")"
  | .query q a => "(" ++ q.render ++ ")" ++ renderAlias a
  | .join l r c => l.render ++ " INNER JOIN " ++ r.render ++ " ON " ++ c.render

/-- A source behind its word. -/
def renderFrom : Option Source → String
  | none => ""
  | some s => " FROM " ++ s.render

def Select.render : Select → String
  | .mk columns source condition order limit =>
    "SELECT " ++ ", ".intercalate (columns.map ResultColumn.render) ++ renderFrom source ++
      renderWhere condition ++
      (if order.isEmpty then "" else " ORDER BY " ++ ", ".intercalate (order.map OrderTerm.render)) ++
      (match limit with
        | none => ""
        | some l => l.render)

end

/-- The query that fills a table. -/
inductive Query where
  | select (q : Select)
  /-- A query of the caller's own. -/
  | fragment (text : String)

def Query.render : Query → String
  | .select q => q.render
  | .fragment t => t

/-- A constraint on a column. -/
inductive ColumnConstraint where
  | primaryKey (autoIncrement : Bool)
  | notNull
  | unique
  | references (table : Identifier) (column : Part) (deferred : Bool)
  | check (condition : Expr)

def ColumnConstraint.render : ColumnConstraint → String
  | .primaryKey generated => " PRIMARY KEY" ++ if generated then " AUTOINCREMENT" else ""
  | .notNull => " NOT NULL"
  | .unique => " UNIQUE"
  | .references t c deferred =>
    " REFERENCES " ++ t.render ++ " (" ++ c.render ++ ")" ++
      if deferred then " DEFERRABLE INITIALLY DEFERRED" else ""
  | .check e => " CHECK (" ++ e.render ++ ")"

/-- A column of a new table. -/
structure ColumnDef where
  name : Part
  type : String
  constraints : List ColumnConstraint

def ColumnDef.render (c : ColumnDef) : String :=
  c.name.render ++ (if c.type = "" then "" else " " ++ c.type) ++
    String.join (c.constraints.map ColumnConstraint.render)

inductive Statement where
  | createTable (unlessExists : Bool) (table : Identifier) (columns : List ColumnDef)
  /-- A temporary table that holds the rows of a query. -/
  | createTemporary (table : Part) (rows : Query)
  | dropTable (ifExists : Bool) (table : Identifier)
  | insert (table : Identifier) (columns : List Part) (rows : List (List Expr))
  | insertDefault (table : Identifier)
  | insertQuery (table : Identifier) (rows : Query)
  | update (table : Identifier) (assignments : List (Part × Expr))
      (source : Option (Identifier × Part)) (condition : Option Expr)
  | delete (table : Identifier) (condition : Option Expr)
  | select (q : Select)
  | begin
  | commit
  | rollback
  /-- A statement of the caller's own. -/
  | fragment (text : String)

namespace Statement

def renderAssignment : Part × Expr → String
  | (c, e) => c.render ++ " = " ++ e.render

/-- The text of a statement. -/
def render : Statement → String
  | .createTable unlessExists t columns =>
    "CREATE TABLE " ++ (if unlessExists then "IF NOT EXISTS " else "") ++ t.render ++ " (" ++
      ", ".intercalate (columns.map ColumnDef.render) ++ ")"
  | .createTemporary t q => "CREATE TEMPORARY TABLE " ++ t.render ++ " AS " ++ q.render
  | .dropTable ifExists t => "DROP TABLE " ++ (if ifExists then "IF EXISTS " else "") ++ t.render
  | .insert t columns rows =>
    "INSERT INTO " ++ t.render ++ " (" ++ ", ".intercalate (columns.map Part.render) ++
      ") VALUES " ++ renderTuples rows
  | .insertDefault t => "INSERT INTO " ++ t.render ++ " DEFAULT VALUES"
  | .insertQuery t q => "INSERT INTO " ++ t.render ++ " " ++ q.render
  | .update t assignments source condition =>
    "UPDATE " ++ t.render ++ " SET " ++ ", ".intercalate (assignments.map renderAssignment) ++
      (match source with
        | none => ""
        | some (s, a) => " FROM " ++ s.render ++ " AS " ++ a.render) ++
      renderWhere condition
  | .delete t condition => "DELETE FROM " ++ t.render ++ renderWhere condition
  | .select q => q.render
  | .begin => "BEGIN"
  | .commit => "COMMIT"
  | .rollback => "ROLLBACK"
  | .fragment t => t

end Statement

/-- Statements to run one after the other. A fragment may hold several. -/
structure Script where
  statements : List Statement
  /-- A semicolon follows the last statement too. -/
  closed : Bool

namespace Script

/-- A script of the caller's own. -/
def ofText (text : String) : Script :=
  ⟨[.fragment text], false⟩

/-- The text of a script. -/
def render (s : Script) : String :=
  "; ".intercalate (s.statements.map Statement.render) ++ if s.closed then ";" else ""

end Script

/-- Values bound to the parameters of a statement, the first to parameter one. -/
abbrev Params := Array Storage

/-- Building a part of a statement while binding its parameters. -/
abbrev Binding := StateM Params

/-- Bind a value to the next parameter. -/
def bind (v : Storage) : Binding Expr := fun params =>
  (.param (some (params.size + 1)), params.push v)

end StagedStore.Sql
