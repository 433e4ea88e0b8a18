import StagedStore.Entity
import StagedStore.Schema.Codec

/-!
# Changes

A `Delta` is what happens to one field, `Changes` at most one delta per field in the order the
fields were first mentioned. A `ChangeSet` is the changes of one entity under its key, checked
against a schema.
-/

namespace StagedStore

/-- What happens to a field. -/
inductive Delta where
  | set (v : Value)
  /-- Add to the stored value, in the store. -/
  | increment (amount : Value)
  /-- Store null. -/
  | unset

structure Changes where
  entries : List (String × Delta)
  names_nodup : (entries.map Prod.fst).Nodup

namespace Changes

def empty : Changes := ⟨[], by simp⟩

instance : Inhabited Changes := ⟨empty⟩

/-- Put a delta in the place of an earlier one for the field, or at the end. -/
def assign (field : String) (d : Delta) : List (String × Delta) → List (String × Delta)
  | [] => [(field, d)]
  | (n, e) :: r => if n = field then (n, d) :: r else (n, e) :: assign field d r

theorem map_fst_assign (field : String) (d : Delta) (es : List (String × Delta)) :
    (assign field d es).map Prod.fst =
      if field ∈ es.map Prod.fst then es.map Prod.fst else es.map Prod.fst ++ [field] := by
  induction es with
  | nil => simp [assign]
  | cons e r ih =>
    obtain ⟨n, e⟩ := e
    by_cases h : n = field
    · simp [assign, h]
    · have h' : ¬field = n := fun e => h e.symm
      simp only [assign, h, if_false, List.map_cons, ih, List.mem_cons, h', false_or]
      split <;> simp

/-- Let a field change by a delta; an earlier delta of the field is replaced. -/
def withDelta (c : Changes) (field : String) (d : Delta) : Changes where
  entries := assign field d c.entries
  names_nodup := by
    rw [map_fst_assign]
    split
    · exact c.names_nodup
    · rename_i h
      exact List.nodup_append.2 ⟨c.names_nodup, by simp, fun a ha b hb => by
        rw [List.mem_singleton.1 hb]
        rintro rfl
        exact h ha⟩

def set (c : Changes) (field : String) (v : Value) : Changes :=
  c.withDelta field (.set v)

def increment (c : Changes) (field : String) (amount : Value) : Changes :=
  c.withDelta field (.increment amount)

def unset (c : Changes) (field : String) : Changes :=
  c.withDelta field .unset

def get? (c : Changes) (field : String) : Option Delta :=
  c.entries.lookup field

def isEmpty (c : Changes) : Bool :=
  c.entries.isEmpty

def size (c : Changes) : Nat :=
  c.entries.length

end Changes

/-- Check one delta against its field. -/
def Delta.check (f : Field) : Delta → Except Error Unit
  | .set v => do
    let _ ← f.encode v
  | .increment amount => do
    if !f.kind.isNumeric then throw (.validation (.incrementNotNumeric f.name))
    if amount.isNull then throw (.validation (.incrementNull f.name))
    let _ ← f.encode amount
  | .unset =>
    if f.nullable then .ok () else .error (.validation (.unsetRequired f.name))

/-- Check each delta in order: its field is declared, is not the primary key, and takes it. -/
def Changes.check (c : Changes) (s : Schema) : Except Error Unit :=
  c.entries.forM fun (name, delta) => do
    let field ← s.requireField name
    if name = s.primaryKey.name then throw (.validation (.keyChanged name))
    delta.check field

/-- The changes of one entity. -/
structure ChangeSet (ε : Type) where
  key : Value
  changes : Changes
  item : ε

namespace ChangeSet

variable {ε : Type}

/-- A change set under a key, checked: the key is not null and the schema takes key and changes. -/
def new (s : Schema) (key : Value) (changes : Changes) (item : ε) : Except Error (ChangeSet ε) := do
  if key.isNull then throw (.validation .nullKey)
  let _ ← s.primaryKey.encode key
  changes.check s
  return ⟨key, changes, item⟩

/-- A change set under the key that the entity itself holds. -/
def ofItem [Entity ε] (s : Schema) (changes : Changes) (item : ε) : Except Error (ChangeSet ε) :=
  new s (Entity.fieldOrNull item s.primaryKey.name) changes item

end ChangeSet

end StagedStore
