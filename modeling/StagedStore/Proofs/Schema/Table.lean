import Mathlib.Data.List.Nodup
import StagedStore.Memory.Basic
import StagedStore.Proofs.Memory.Rows
import StagedStore.Schema.Definition

/-!
# The table of a schema

`Schema.TableState` says that a table is in some state that statements can bring the table of a
schema into, from its creation on.  `Schema.Fits` is the invariant of these states: the columns are
those of the fields, cells are kept as their columns store them, and no key is that of two rows.
-/

namespace StagedStore

open Memory

namespace Field

/-- The affinity of the column of a field. -/
def affinity (f : Field) : Affinity :=
  .ofType f.kind.columnType

/-- The column of a field. -/
def toColumn (f : Field) : Column :=
  ⟨f.name, f.affinity, !f.nullable⟩

theorem affinity_eq (f : Field) : f.affinity = match f.kind with
    | .integer | .bool => .integer
    | .real => .real
    | .blob => .blob
    | .text | .json | .timestamp | .uuid => .text := by
  unfold affinity
  cases f.kind <;> decide +kernel

end Field

namespace Schema

/-- The position of the primary key among the fields. -/
def keyIndex (s : Schema) : Nat :=
  s.fields.idxOf s.primaryKey

theorem getElem?_keyIndex (s : Schema) : s.fields[s.keyIndex]? = some s.primaryKey := by
  unfold keyIndex
  rw [List.getElem?_eq_getElem (List.idxOf_lt_length_of_mem s.key_mem), List.getElem_idxOf]

theorem keyIndex_lt (s : Schema) : s.keyIndex < s.fields.length :=
  List.idxOf_lt_length_of_mem s.key_mem

/-- Whether the primary key is the hidden key of the rows. -/
def hasRowKey (s : Schema) : Bool :=
  decide (s.primaryKey.affinity = .integer)

/-- The cell of the primary key in a row. -/
def keyCell (s : Schema) (e : Entry) : Storage :=
  e.cells[s.keyIndex]?.getD .null

/-- A row of a table of a schema. -/
structure FitsRow (s : Schema) (e : Entry) : Prop where
  size : e.cells.size = s.fields.length
  stored : ∀ (i : Nat) (f : Field), s.fields[i]? = some f →
    f.affinity.store (e.cells[i]?.getD .null) = e.cells[i]?.getD .null
  required : ∀ (i : Nat) (f : Field), s.fields[i]? = some f → f.nullable = false →
    (e.cells[i]?.getD .null).isNull = false
  rowKey : s.hasRowKey = true → e.cells[s.keyIndex]? = some (.integer e.id)

/-- The invariant of the tables of a schema. -/
structure Fits (s : Schema) (t : Table) : Prop where
  columns : t.columns = s.fields.map Field.toColumn
  names_nodup : (s.fields.map fun f => foldName f.name).Nodup
  key : t.key = if s.hasRowKey then some s.keyIndex else none
  unique : t.unique = if s.hasRowKey then [] else [s.keyIndex]
  checks : t.checks = []
  references : t.references = []
  sorted : t.entries.Pairwise fun a b => b.id < a.id
  rows : ∀ e ∈ t.entries, s.FitsRow e
  distinct : t.entries.Pairwise fun a b => (s.keyCell a).normal ≠ (s.keyCell b).normal

/-- A state of the table that a schema creates: rows may have been inserted, updated and deleted by
any statements. -/
inductive TableState (s : Schema) : Table → Prop
  | created {ctx : Context} {a : Area} {t : Table}
      (h : prepare ctx s.createTable = .ok (.create a t)) : TableState s t
  | inserted {ctx : Context} {statement : Sql.Statement} {a : Area} {t : Table} {many : Bool}
      {rows : List (List Storage)} {i : Insertion} (ht : TableState s t)
      (hp : prepare ctx statement = .ok (.insert a t many rows))
      (hi : (Insertion.start t).insertAll rows = (i, none)) : TableState s i.table
  | updated {ctx : Context} {statement : Sql.Statement} {a : Area} {t t' : Table}
      {changesKey : Bool} {values : Entry → Option (List (Nat × Storage))} {n : Nat}
      (ht : TableState s t) (hp : prepare ctx statement = .ok (.update a t changesKey values))
      (hu : Revision.updateAll t changesKey values = .ok (t', n)) : TableState s t'
  | deleted {ctx : Context} {statement : Sql.Statement} {a : Area} {t : Table}
      {condition : Entry → Bool} (ht : TableState s t)
      (hp : prepare ctx statement = .ok (.delete a t condition)) :
      TableState s { t with entries := t.entries.filter fun e => !condition e }

/-! ## Creation -/

section Created

variable {s : Schema}

theorem columnOf_columnDef (s : Schema) (f : Field) : columnOf (s.columnDef f) = f.toColumn := by
  unfold columnOf columnDef Field.toColumn Field.affinity
  cases f.nullable <;> by_cases h : f = s.primaryKey <;> simp [h, isNotNull, Part.name]

theorem nodup_of_columnFault? {table : String} {before : List String} {cs : List Sql.ColumnDef}
    (h : columnFault? table before cs = none) :
    (cs.map fun c => foldName c.name.name).Nodup ∧
      ∀ c ∈ cs, foldName c.name.name ∉ before := by
  induction cs generalizing before with
  | nil => simp
  | cons c cs ih =>
      rw [columnFault?] at h
      split at h
      · simp at h
      · split at h
        · simp at h
        · rename_i hb
          obtain ⟨hn, hnot⟩ := ih h
          have hb : foldName c.name.name ∉ before := by simpa using hb
          refine ⟨?_, ?_⟩
          · rw [List.map_cons, List.nodup_cons]
            refine ⟨?_, hn⟩
            intro hm
            obtain ⟨d, hd, he⟩ := List.mem_map.1 hm
            exact hnot d hd (by simp [he])
          · intro d hd
            rcases List.mem_cons.1 hd with rfl | hd
            · exact hb
            · exact fun hm => hnot d hd (by simp [hm])

theorem foldl_addConstraint (f : Field) (i : Nat) (t : Table) :
    (s.columnDef f).constraints.foldl (addConstraint i (s.columnDef f)) t =
      if f = s.primaryKey then
        addConstraint i (s.columnDef f) t (.primaryKey s.autoIncrement)
      else t := by
  unfold columnDef
  by_cases h : f = s.primaryKey
  · cases hn : f.nullable <;> simp [h, addConstraint]
  · cases hn : f.nullable <;> simp [h, addConstraint]

theorem foldl_columns {fs : List Field} {k : Nat} {t : Table} (hn : fs.Nodup) :
    ((fs.map s.columnDef).zipIdx k).foldl
        (fun t (c, i) => c.constraints.foldl (addConstraint i c) t) t =
      if s.primaryKey ∈ fs then
        addConstraint (k + fs.idxOf s.primaryKey) (s.columnDef s.primaryKey) t
          (.primaryKey s.autoIncrement)
      else t := by
  induction fs generalizing k t with
  | nil => simp
  | cons f fs ih =>
      obtain ⟨hf, hn⟩ := List.nodup_cons.1 hn
      simp only [List.map_cons, List.zipIdx_cons, List.foldl_cons, foldl_addConstraint, ih hn]
      by_cases h : f = s.primaryKey
      · rw [if_pos h, if_neg (h ▸ hf), if_pos (by simp [h]), h, List.idxOf_cons_self, Nat.add_zero]
      · have hmem : s.primaryKey ∈ f :: fs ↔ s.primaryKey ∈ fs := by
          simp [Ne.symm h]
        simp only [if_neg h, hmem, List.idxOf_cons_ne _ h, Nat.add_assoc, Nat.add_comm 1]

theorem foldName_columnType (f : Field) :
    (foldName f.kind.columnType = "integer") = (f.affinity = .integer) := by
  rw [Field.affinity_eq]
  cases f.kind <;> simp [FieldKind.columnType] <;> decide +kernel

theorem fields_nodup (s : Schema) : s.fields.Nodup :=
  List.Nodup.of_map Field.name s.names_nodup

theorem tableOf_columnDefs (s : Schema) (name : String) :
    tableOf name (s.fields.map s.columnDef) =
      addConstraint s.keyIndex (s.columnDef s.primaryKey)
        ⟨name, s.fields.map Field.toColumn, none, false, [], [], [], 0, []⟩
        (.primaryKey s.autoIncrement) := by
  unfold tableOf
  rw [foldl_columns s.fields_nodup, if_pos s.key_mem, Nat.zero_add, List.map_map,
    show columnOf ∘ s.columnDef = Field.toColumn from funext (columnOf_columnDef s)]
  rfl

/-- The table that a schema creates has no checks and its columns have names of their own. -/
theorem created_ok {ctx : Context} {a : Area} {t : Table}
    (h : prepare ctx s.createTable = .ok (.create a t)) :
    (s.fields.map fun f => foldName f.name).Nodup ∧
      ∃ name, t = tableOf name (s.fields.map s.columnDef) := by
  change prepareCreate ctx true s.table.allQuoted (s.fields.map s.columnDef) = _ at h
  unfold prepareCreate at h
  obtain ⟨⟨a', name⟩, -, h⟩ := Except.bind_eq_ok_iff.1 h
  obtain ⟨⟨⟩, -, h⟩ := Except.bind_eq_ok_iff.1 h
  dsimp only at h
  split at h
  · simp at h
  · split at h
    · simp at h
    · rename_i hfault
      obtain ⟨checks, hchecks, h⟩ := Except.bind_eq_ok_iff.1 h
      obtain ⟨rfl, rfl⟩ := Prepared.create.inj (Except.ok.inj h)
      have hnone : checks = [] := by
        have hconditions : ((s.fields.map s.columnDef).flatMap fun c =>
            c.constraints.filterMap condition?) = [] := by
          rw [List.flatMap_eq_nil_iff]
          intro c hc
          obtain ⟨f, -, rfl⟩ := List.mem_map.1 hc
          unfold columnDef
          cases f.nullable <;> by_cases h : f = s.primaryKey <;> simp [h, condition?]
        unfold checksOf at hchecks
        simp only [hconditions] at hchecks
        exact (Except.ok.inj hchecks).symm
      have hnames := (nodup_of_columnFault? (Option.eq_none_iff_forall_ne_some.2 hfault)).1
      rw [List.map_map] at hnames
      refine ⟨hnames, name, ?_⟩
      rw [hnone, tableOf_columnDefs]
      unfold addConstraint
      dsimp only
      split <;> rfl

/-- A table that was just created fits. -/
theorem fits_created {ctx : Context} {a : Area} {t : Table}
    (h : prepare ctx s.createTable = .ok (.create a t)) : s.Fits t := by
  obtain ⟨hnames, name, rfl⟩ := created_ok h
  rw [tableOf_columnDefs]
  by_cases hint : foldName s.primaryKey.kind.columnType = "integer"
  · have hrow : s.hasRowKey = true := decide_eq_true (foldName_columnType _ ▸ hint)
    simp only [addConstraint, columnDef, hint, if_true]
    exact ⟨rfl, hnames, by rw [hrow]; rfl, by rw [hrow]; rfl, rfl, rfl, .nil, by simp, .nil⟩
  · have hrow : s.hasRowKey = false := decide_eq_false (foldName_columnType _ ▸ hint)
    simp only [addConstraint, columnDef, hint, if_false]
    exact ⟨rfl, hnames, by rw [hrow]; rfl, by rw [hrow]; rfl, rfl, rfl, .nil, by simp, .nil⟩

end Created

end Schema

end StagedStore
