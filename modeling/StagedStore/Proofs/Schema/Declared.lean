import StagedStore.Proofs.Schema.Created
import StagedStore.Proofs.Schema.Fields

/-!
# Declared schemas

A schema is declared by calls in any order. Exactly the well-formed declarations are accepted, and
the schema they give is determined by them.
-/

namespace StagedStore

open Sql

/-- A call that declares a part of a schema. -/
inductive Declaration where
  | key (name : String) (kind : FieldKind)
  | generated
  | field (name : String) (kind : FieldKind)
  | nullable (name : String) (kind : FieldKind)

namespace Declaration

/-- The field that a call declares. -/
def field? : Declaration → Option Field
  | .key n k | .field n k => some ⟨n, k, false⟩
  | .nullable n k => some ⟨n, k, true⟩
  | .generated => none

/-- The primary key that a call declares. -/
def key? : Declaration → Option Field
  | .key n k => some ⟨n, k, false⟩
  | _ => none

/-- Declarations that make a schema: the table is an identifier, the names of the fields can be quoted
and differ, there is a primary key, and one that the store generates is an integer. -/
structure WellFormed (table : String) (ds : List Declaration) : Prop where
  table : ∃ i, Identifier.parse table = .ok i
  names : ∀ f ∈ ds.filterMap field?, f.name ≠ "" ∧ '\x00' ∉ f.name.toList
  distinct : ((ds.filterMap field?).map Field.name).Nodup
  key : ∃ k, (ds.filterMap key?).getLast? = some k
  generated : .generated ∈ ds → ∀ k, (ds.filterMap key?).getLast? = some k → k.kind = .integer

end Declaration

open Declaration

namespace SchemaBuilder

/-- Make a call. -/
def declare (b : SchemaBuilder) : Declaration → SchemaBuilder
  | .key n k => b.key n k
  | .generated => b.generated
  | .field n k => b.field n k
  | .nullable n k => b.nullable n k

/-- The builder of a table after calls in order. -/
def declared (table : String) (ds : List Declaration) : SchemaBuilder :=
  ds.foldl declare (new table)

variable {table : String} {ds : List Declaration}

theorem declared_concat (d : Declaration) :
    declared table (ds ++ [d]) = (declared table ds).declare d := by
  simp [declared]

/-- What a builder holds after calls: their fields in order, and the last primary key. -/
theorem declared_eq (table : String) (ds : List Declaration) :
    (declared table ds).table = table ∧
    (declared table ds).fields = ds.filterMap field? ∧
    (declared table ds).primaryKey = (ds.filterMap key?).getLast? ∧
    ((declared table ds).autoIncrement = true ↔ .generated ∈ ds) := by
  induction ds using List.reverseRecOn with
  | nil => exact ⟨rfl, rfl, rfl, by simp [declared, new]⟩
  | append_singleton ds d ih =>
      obtain ⟨htable, hfields, hkey, hgenerated⟩ := ih
      rw [declared_concat]
      cases d <;>
        simp [declare, SchemaBuilder.key, generated, field, nullable, add, htable, hfields, hkey,
          hgenerated, field?, key?]

theorem fieldFault?_eq_none {name : String} {before fs : List Field}
    (hnames : ∀ f ∈ fs, Identifier.nameFault? f.name = none) (hnodup : (fs.map Field.name).Nodup)
    (hbefore : ∀ f ∈ fs, ∀ g ∈ before, g.name ≠ f.name) : fieldFault? name before fs = none := by
  induction fs generalizing before with
  | nil => rfl
  | cons f fs ih =>
      obtain ⟨hf, hnames⟩ := List.forall_mem_cons.1 hnames
      obtain ⟨hfs, hbefore⟩ := List.forall_mem_cons.1 hbefore
      rw [List.map_cons, List.nodup_cons] at hnodup
      have hnone : before.any (·.name = f.name) = false := by simpa using hfs
      rw [fieldFault?, hf]
      dsimp only
      rw [hnone, if_neg Bool.false_ne_true]
      refine ih hnames hnodup.2 fun g hg => List.forall_mem_cons.2 ⟨fun he => ?_, hbefore g hg⟩
      exact hnodup.1 (he ▸ List.mem_map_of_mem hg)

/-- The schema that a builder gives is what it holds. -/
theorem build_eq_ok_iff {b : SchemaBuilder} {s : Schema} :
    b.build = .ok s ↔ Identifier.parse b.table = .ok s.table ∧ b.fields = s.fields ∧
      b.primaryKey = some s.primaryKey ∧ b.autoIncrement = s.autoIncrement := by
  constructor
  · intro h
    obtain ⟨i, hi, h⟩ := Except.bind_eq_ok_iff.1 h
    split at h
    · cases h
    · split at h
      · cases h
      · rename_i key hkey
        split at h
        · obtain rfl := Except.ok.inj h
          exact ⟨hi, rfl, hkey, rfl⟩
        · cases h
  · rintro ⟨htable, hfields, hkey, hgenerated⟩
    have hfault : fieldFault? s.table.name [] b.fields = none :=
      hfields ▸ fieldFault?_eq_none s.names_valid s.names_nodup (by simp)
    rw [build, htable, Except.ok_bind]
    split
    · rename_i fault hf
      rw [hfault] at hf
      cases hf
    · split
      · rename_i hk
        rw [hkey] at hk
        cases hk
      · rename_i key hk
        obtain rfl : s.primaryKey = key := Option.some.inj (hkey.symm.trans hk)
        rw [dif_pos (hgenerated ▸ s.generated_integer), Except.pure_eq]
        congr

/-- A builder gives a schema if and only if the declarations are well-formed. -/
theorem exists_build_iff : (∃ s, (declared table ds).build = .ok s) ↔ WellFormed table ds := by
  obtain ⟨htable, hfields, hkey, hgenerated⟩ := declared_eq table ds
  constructor
  · rintro ⟨s, hs⟩
    obtain ⟨hi, hfs, hk, hg⟩ := build_eq_ok_iff.1 hs
    rw [htable] at hi
    rw [hfields] at hfs
    rw [hkey] at hk
    refine ⟨⟨s.table, hi⟩, fun f hf => ?_, hfs ▸ s.names_nodup, ⟨_, hk⟩, fun hin k hlast => ?_⟩
    · exact Identifier.nameFault?_eq_none_iff.1 (s.names_valid f (hfs ▸ hf))
    · obtain rfl : s.primaryKey = k := Option.some.inj (hk.symm.trans hlast)
      exact s.generated_integer (hg ▸ hgenerated.2 hin)
  · intro h
    obtain ⟨i, hi⟩ := h.table
    obtain ⟨k, hk⟩ := h.key
    have hlast : (declared table ds).primaryKey = some k := hkey.trans hk
    obtain ⟨hmem, hrequired⟩ := (declared table ds).key_mem k hlast
    rw [hfields] at hmem
    let s : Schema := {
      table := i
      fields := ds.filterMap field?
      primaryKey := k
      autoIncrement := (declared table ds).autoIncrement
      names_nodup := h.distinct
      names_valid := fun f hf => Identifier.nameFault?_eq_none_iff.2 (h.names f hf)
      key_mem := hmem
      key_required := hrequired
      generated_integer := fun hg => h.generated (hgenerated.1 hg) k hk }
    exact ⟨s, build_eq_ok_iff.2 ⟨(congrArg _ htable).trans hi, hfields, hlast, rfl⟩⟩

end SchemaBuilder

/-! ## What a schema keeps of its declarations -/

/-- The last key among declarations is declared by a call behind which there is no other. -/
theorem Declaration.exists_of_getLast? {ds : List Declaration} {k : Field}
    (h : (ds.filterMap key?).getLast? = some k) :
    ∃ before name kind after, ds = before ++ .key name kind :: after ∧
      (∀ d ∈ after, d.key? = none) ∧ k = ⟨name, kind, false⟩ := by
  induction ds using List.reverseRecOn with
  | nil => simp at h
  | append_singleton ds d ih =>
      cases hd : d.key? with
      | none =>
          rw [List.filterMap_append, List.filterMap_cons_none hd, List.filterMap_nil,
            List.append_nil] at h
          obtain ⟨before, name, kind, after, rfl, hafter, rfl⟩ := ih h
          refine ⟨before, name, kind, after ++ [d], by simp, fun e he => ?_, rfl⟩
          rcases List.mem_append.1 he with he | he
          · exact hafter e he
          · rwa [List.mem_singleton.1 he]
      | some k' =>
          have hk : k' = k := by simpa [List.filterMap_append, hd] using h
          cases d with
          | key name kind => exact ⟨ds, name, kind, [], rfl, by simp, by simpa [key?, hk] using hd.symm⟩
          | _ => cases hd

namespace Schema

variable (s : Schema)

theorem field?_eq_some_iff {name : String} {f : Field} :
    s.field? name = some f ↔ ∃ i : Nat, s.fields[i]? = some f ∧ f.name = name ∧
      ∀ (j : Nat) (g : Field), s.fields[j]? = some g → g.name = name → j = i := by
  have hrequire : s.field? name = some f ↔ s.requireField name = .ok f := by
    unfold requireField
    cases s.field? name <;> simp
  rw [hrequire]
  constructor
  · intro h
    obtain ⟨hi, hname⟩ := getElem?_fieldIndex h
    exact ⟨_, hi, hname, fun j g hj hg => hg ▸ (fieldIndex_eq hj).symm⟩
  · rintro ⟨i, hi, rfl, -⟩
    exact requireField_eq hi

theorem primaryKey_mem_constraints_iff {f : Field} {generated : Bool} :
    .primaryKey generated ∈ (s.columnDef f).constraints ↔
      f = s.primaryKey ∧ generated = s.autoIncrement := by
  unfold columnDef
  by_cases hf : f = s.primaryKey <;> cases f.nullable <;> simp [hf]

/-- One column is constrained to be the primary key, and it is that of the primary key. -/
theorem exists_keyColumn :
    ∃ before after, s.fields.map s.columnDef = before ++ s.columnDef s.primaryKey :: after ∧
      .primaryKey s.autoIncrement ∈ (s.columnDef s.primaryKey).constraints ∧
      ∀ c ∈ before ++ after, ∀ generated, .primaryKey generated ∉ c.constraints := by
  obtain ⟨l, r, hfields⟩ := List.append_of_mem s.key_mem
  refine ⟨l.map s.columnDef, r.map s.columnDef, by simp [hfields],
    s.primaryKey_mem_constraints_iff.2 ⟨rfl, rfl⟩, fun c hc generated hin => ?_⟩
  rw [← List.map_append] at hc
  obtain ⟨f, hf, rfl⟩ := List.mem_map.1 hc
  obtain ⟨rfl, -⟩ := s.primaryKey_mem_constraints_iff.1 hin
  have hnodup : (s.primaryKey :: (l ++ r)).Nodup := by
    have hall : s.fields.Nodup := s.names_nodup.of_map
    rw [hfields] at hall
    exact (List.perm_middle.nodup_iff).1 hall
  exact (List.nodup_cons.1 hnodup).1 hf

/-- What a schema has of the declarations it is built from. -/
structure BuiltFrom (table : String) (ds : List Declaration) : Prop where
  table : Identifier.parse table = .ok s.table
  /-- The fields stand in the order of the calls. -/
  fields : s.fields = ds.filterMap Declaration.field?
  /-- The primary key is the field of the last call that declares one. -/
  key : ∃ before name kind after, ds = before ++ .key name kind :: after ∧
    (∀ d ∈ after, d.key? = none) ∧ s.primaryKey = ⟨name, kind, false⟩ ∧
    s.fields[(before.filterMap Declaration.field?).length]? = some s.primaryKey
  generated : s.autoIncrement = true ↔ .generated ∈ ds
  /-- What is found by a name is the only field of this name. -/
  found : ∀ name f, s.field? name = some f ↔ ∃ i : Nat, s.fields[i]? = some f ∧ f.name = name ∧
    ∀ (j : Nat) (g : Field), s.fields[j]? = some g → g.name = name → j = i
  /-- The statement that creates the table has a column for each field. -/
  columns : declaredColumns? s.createTable.render = some (s.fields.map s.columnDef)
  /-- One of the columns is the primary key, that of the field. -/
  keyColumn : ∃ before after,
    s.fields.map s.columnDef = before ++ s.columnDef s.primaryKey :: after ∧
      .primaryKey s.autoIncrement ∈ (s.columnDef s.primaryKey).constraints ∧
      ∀ c ∈ before ++ after, ∀ generated, .primaryKey generated ∉ c.constraints
  /-- It is read as it was meant where a table may have the name. -/
  read : s.table.parts.length ≤ 2 → readScript s.createTable.render = [some s.createTable]

end Schema

namespace SchemaBuilder

variable {table : String} {ds : List Declaration}

theorem builtFrom_of_build {s : Schema} (h : (declared table ds).build = .ok s) :
    s.BuiltFrom table ds := by
  obtain ⟨htable, hfields, hkey, hgenerated⟩ := declared_eq table ds
  obtain ⟨hi, hfs, hk, hg⟩ := build_eq_ok_iff.1 h
  have hnul := nul_notMem_table h
  rw [htable] at hi
  rw [hfields] at hfs
  rw [hkey] at hk
  obtain ⟨before, name, kind, after, hds, hafter, hlast⟩ := exists_of_getLast? hk
  exact {
    table := hi
    fields := hfs.symm
    key := by
      refine ⟨before, name, kind, after, hds, hafter, hlast, ?_⟩
      rw [← hfs, hds, hlast]
      simp [field?]
    generated := hg ▸ hgenerated
    found := fun name f => s.field?_eq_some_iff
    columns := s.declaredColumns?_createTable hnul
    keyColumn := s.exists_keyColumn
    read := s.readScript_createTable hnul }

/-- Calls in any order build a schema if and only if they are well-formed, and the schema has what
they declare: the fields in order, found by their names, the primary key of the last call that
declares one among them, and a table with one column that is the primary key. -/
theorem builds_exactly_wellFormed (table : String) (ds : List Declaration) :
    ((∃ s, (declared table ds).build = .ok s) ↔ WellFormed table ds) ∧
      ∀ s, (declared table ds).build = .ok s → s.BuiltFrom table ds :=
  ⟨exists_build_iff, fun _ => builtFrom_of_build⟩

end SchemaBuilder

namespace Declared

/-- The store is to generate the key before there is one, and there are two. -/
def calls : List Declaration :=
  [.generated, .key "code" .text, .nullable "x" .real, .key "id" .integer, .field "a\"b" .text]

theorem parse_table :
    Identifier.parse "main.t" = .ok (.cons (.bare "main") (.ofPart (.bare "t"))) := by
  decide +kernel

theorem wellFormed_calls : WellFormed "main.t" calls := by
  refine ⟨⟨_, parse_table⟩, by decide, by decide, ⟨_, rfl⟩, ?_⟩
  rintro - k ⟨⟩
  rfl

end Declared

open Declared in
/-- The key declared last is the primary key. -/
theorem SchemaBuilder.builds_exactly_wellFormed_of_two_keys :
    ∃ s, (declared "main.t" calls).build = .ok s ∧ s.primaryKey = ⟨"id", .integer, false⟩ ∧
      s.autoIncrement = true ∧ s.fields.map Field.name = ["code", "x", "id", "a\"b"] ∧
      readScript s.createTable.render = [some s.createTable] := by
  obtain ⟨hexists, hbuilt⟩ := builds_exactly_wellFormed "main.t" calls
  obtain ⟨s, hs⟩ := hexists.2 wellFormed_calls
  have h := hbuilt s hs
  have hkey : some (⟨"id", .integer, false⟩ : Field) = some s.primaryKey :=
    (build_eq_ok_iff.1 hs).2.2.1
  have htable := Except.ok.inj (parse_table.symm.trans h.table)
  refine ⟨s, hs, (Option.some.inj hkey).symm, h.generated.2 (by simp [calls]), ?_,
    h.read (by rw [← htable]; decide)⟩
  rw [h.fields]
  rfl

end StagedStore
