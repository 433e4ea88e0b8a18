import StagedStore.Schema.Basic
import StagedStore.Sql.Statement

/-!
# Table definitions

The statement that creates the table of a schema.
-/

namespace StagedStore

/-- The column of a field; a field that cannot be null is constrained so. -/
def Schema.columnDef (s : Schema) (f : Field) : Sql.ColumnDef where
  name := .quoted f.name
  type := f.kind.columnType
  constraints :=
    (if f = s.primaryKey then [.primaryKey s.autoIncrement] else []) ++
      (if f.nullable then [] else [.notNull])

/-- Creates the table unless it exists. -/
def Schema.createTable (s : Schema) : Sql.Statement :=
  .createTable true s.table.allQuoted (s.fields.map s.columnDef)

end StagedStore
