import StagedStore.Error
import StagedStore.Keyed

/-!
# Entities

An `Entity` is an object whose fields can be read and overwritten by name. A `Record` is one that
consists of its fields; it may be restricted to the names it knows.
-/

namespace StagedStore

class Entity (ε : Type) where
  /-- The value of a field, if the entity has it. -/
  field? : ε → String → Option Value
  /-- Overwrite a field, or refuse. -/
  setField : ε → String → Value → Except Error ε

/-- The value of a field; a field that the entity lacks is null. -/
def Entity.fieldOrNull {ε : Type} [Entity ε] (item : ε) (name : String) : Value :=
  (field? item name).getD .null

/-- Fields sorted by name, each name once. -/
structure Record where
  fields : List (String × Value)
  /-- The names the record knows, if it does not know all. -/
  only : Option (List String) := none

namespace Record

def empty : Record := ⟨[], none⟩

instance : Inhabited Record := ⟨empty⟩

def get? (r : Record) (name : String) : Option Value :=
  r.fields.lookup name

def insert (r : Record) (name : String) (v : Value) : Record :=
  { r with fields := Keyed.insert name v r.fields }

/-- Fields in any order; the later of two for one name counts. -/
def ofList (fields : List (String × Value)) : Record :=
  ⟨Keyed.ofList fields, none⟩

/-- Whether a record knows a name. -/
def knows (r : Record) (name : String) : Bool :=
  match r.only with
  | none => true
  | some names => names.contains name

end Record

instance : Entity Record where
  field? r name := if r.knows name then r.get? name else none
  setField r name v :=
    if r.knows name then .ok (r.insert name v)
    else .error (.validation (.unknownEntityField name))

end StagedStore
