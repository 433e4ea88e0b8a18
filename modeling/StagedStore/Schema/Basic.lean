import StagedStore.Identifier

/-!
# Schemas

A `Schema` is the table of an entity: its identifier, its fields in order and its primary key.
The type keeps what every other module relies on: field names are distinct and can be quoted, and
the primary key is one of the fields and required.

`SchemaBuilder` collects declarations in any order; `SchemaBuilder.build` checks them.
-/

namespace StagedStore

/-- A column of an entity's table. -/
structure Field where
  name : String
  kind : FieldKind
  nullable : Bool
deriving DecidableEq, Repr

/-- The column name in quotes. -/
def Field.column (f : Field) : String :=
  quoteName f.name

structure Schema where
  table : Identifier
  fields : List Field
  primaryKey : Field
  autoIncrement : Bool
  names_nodup : (fields.map Field.name).Nodup
  names_valid : ∀ f ∈ fields, Identifier.nameFault? f.name = none
  key_mem : primaryKey ∈ fields
  key_required : primaryKey.nullable = false
  generated_integer : autoIncrement = true → primaryKey.kind = .integer

namespace Schema

/-- The field of a name. -/
def field? (s : Schema) (name : String) : Option Field :=
  s.fields.find? (·.name = name)

/-- The field of a name, or a validation error. -/
def requireField (s : Schema) (name : String) : Except Error Field :=
  match s.field? name with
  | some f => .ok f
  | none => .error (.validation (.unknownField name s.table.name))

/-- The primary key when the store generates it. -/
def generatedKey? (s : Schema) : Option Field :=
  if s.autoIncrement then some s.primaryKey else none

/-- The table with every part of its identifier in quotes. -/
def tableSql (s : Schema) : String :=
  s.table.renderQuoted

/-- The table's own name in quotes, which qualifies its columns. -/
def tableName (s : Schema) : String :=
  quoteName s.table.name

end Schema

/-- Declarations of a schema, not checked yet. -/
structure SchemaBuilder where
  table : String
  fields : List Field
  primaryKey : Option Field
  autoIncrement : Bool
  key_mem : ∀ k ∈ primaryKey, k ∈ fields ∧ k.nullable = false

namespace SchemaBuilder

/-- No declarations for a table. -/
def new (table : String) : SchemaBuilder :=
  ⟨table, [], none, false, by simp⟩

/-- Declare a field. -/
def add (b : SchemaBuilder) (f : Field) : SchemaBuilder :=
  { b with
    fields := b.fields ++ [f]
    key_mem := fun k hk => ⟨List.mem_append_left _ (b.key_mem k hk).1, (b.key_mem k hk).2⟩ }

/-- Declare a field that cannot be null. -/
def field (b : SchemaBuilder) (name : String) (kind : FieldKind) : SchemaBuilder :=
  b.add ⟨name, kind, false⟩

/-- Declare a field that can be null. -/
def nullable (b : SchemaBuilder) (name : String) (kind : FieldKind) : SchemaBuilder :=
  b.add ⟨name, kind, true⟩

/-- Declare a field that is the primary key, in place of any earlier one. -/
def key (b : SchemaBuilder) (name : String) (kind : FieldKind) : SchemaBuilder :=
  { b with
    fields := b.fields ++ [⟨name, kind, false⟩]
    primaryKey := some ⟨name, kind, false⟩
    key_mem := by simp }

/-- Let the store generate the primary key. -/
def generated (b : SchemaBuilder) : SchemaBuilder :=
  { b with autoIncrement := true }

/-- What is wrong with the first field, in order, whose name cannot be quoted or repeats the name
of a field before it. -/
def fieldFault? (table : String) (before : List Field) : List Field → Option Invalid
  | [] => none
  | f :: r =>
    match Identifier.nameFault? f.name with
    | some fault => some (.identifier fault)
    | none =>
      if before.any (·.name = f.name) then some (.duplicateField f.name table)
      else fieldFault? table (f :: before) r

theorem valid_of_fieldFault?_eq_none {table : String} {before fs : List Field}
    (h : fieldFault? table before fs = none) :
    (∀ f ∈ fs, Identifier.nameFault? f.name = none) ∧ (fs.map Field.name).Nodup ∧
      ∀ f ∈ fs, ∀ g ∈ before, g.name ≠ f.name := by
  induction fs generalizing before with
  | nil => simp
  | cons f r ih =>
    rw [fieldFault?] at h
    split at h
    · simp at h
    · rename_i hf
      split at h
      · simp at h
      · rename_i hb
        obtain ⟨hv, hn, hd⟩ := ih h
        have hb' : ∀ g ∈ before, g.name ≠ f.name := by simpa using hb
        refine ⟨?_, ?_, ?_⟩
        · simpa [hf] using hv
        · simp only [List.map_cons, List.nodup_cons, List.mem_map, not_exists, not_and]
          exact ⟨fun g hg e => hd g hg f (by simp) e.symm, hn⟩
        · intro g hg k hk
          rcases List.mem_cons.1 hg with rfl | hg
          · exact hb' k hk
          · exact hd g hg k (List.mem_cons_of_mem _ hk)

/-- Check the declarations: the table, then each field in order, then the primary key. -/
def build (b : SchemaBuilder) : Except Error Schema := do
  let table ← Identifier.parse b.table
  match hf : fieldFault? table.name [] b.fields with
  | some fault => .error (.validation fault)
  | none =>
    match hk : b.primaryKey with
    | none => .error (.validation (.noPrimaryKey table.name))
    | some key =>
      if hg : b.autoIncrement = true → key.kind = .integer then
        let valid := valid_of_fieldFault?_eq_none hf
        return {
          table
          fields := b.fields
          primaryKey := key
          autoIncrement := b.autoIncrement
          names_nodup := valid.2.1
          names_valid := valid.1
          key_mem := (b.key_mem key hk).1
          key_required := (b.key_mem key hk).2
          generated_integer := hg }
      else .error (.validation (.generatedKeyKind key.name))

end SchemaBuilder

end StagedStore
