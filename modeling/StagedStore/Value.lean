import StagedStore.Json.Basic
import StagedStore.Calendar.Timestamp
import StagedStore.Text.Printable
import StagedStore.Uuid

/-!
# Values of fields and of cells

A `Storage` is what a store keeps in a cell: one of five storage classes. A `Value` is what an
entity holds in a field. `Value.toStorage` is the storage form a value has without regard to a
field's kind; it is what filters compare with.
-/

namespace StagedStore

/-- The content of a cell. -/
inductive Storage where
  | null
  | integer (n : Int64)
  | real (x : Binary64)
  | text (s : String)
  | blob (bytes : List UInt8)
deriving DecidableEq

instance : Inhabited Storage := ⟨.null⟩

namespace Storage

def isNull : Storage → Bool
  | .null => true
  | _ => false

/-- Truth as an integer. -/
def ofBool (b : Bool) : Storage :=
  .integer (if b then 1 else 0)

/-- The name of a storage class. -/
def className : Storage → String
  | .null => "null"
  | .integer _ => "integer"
  | .real _ => "real"
  | .text _ => "text"
  | .blob _ => "blob"

/-- A character of a text shown in quotes. -/
def showChar (c : Char) : List Char :=
  if c = '"' then ['\\', '"']
  else if c = '\\' then ['\\', '\\']
  else if c = '\n' then ['\\', 'n']
  else if c = '\r' then ['\\', 'r']
  else if c = '\t' then ['\\', 't']
  else if c.toNat = 0 then ['\\', '0']
  else if Printable.isPrintable c then [c]
  else "\\u\x7b".toList ++ Nat.toDigits 16 c.toNat ++ ['\x7d']

/-- The class and the content, for messages. -/
def describe : Storage → String
  | .null => "Null"
  | .integer n => "Integer(" ++ toString n.toInt ++ ")"
  | .real x => "Real(" ++ x.toText ++ ")"
  | .text s => "Text(\"" ++ String.ofList (s.toList.flatMap showChar) ++ "\")"
  | .blob bytes => "Blob([" ++ ", ".intercalate (bytes.map fun b => toString b.toNat) ++ "])"

end Storage

/-- The value of an entity's field. -/
inductive Value where
  | null
  | bool (b : Bool)
  | integer (n : Int64)
  | real (x : Binary64)
  | text (s : String)
  | blob (bytes : List UInt8)
  | json (j : Json)
  | timestamp (t : Timestamp)
  | uuid (u : Uuid)

instance : Inhabited Value := ⟨.null⟩

namespace Value

def isNull : Value → Bool
  | .null => true
  | _ => false

/-- The name of a value's type. -/
def typeName : Value → String
  | .null => "null"
  | .bool _ => "bool"
  | .integer _ => "integer"
  | .real _ => "real"
  | .text _ => "text"
  | .blob _ => "blob"
  | .json _ => "json"
  | .timestamp _ => "timestamp"
  | .uuid _ => "uuid"

/-- Integers, and truth values as 0 and 1. -/
def asInteger? : Value → Option Int64
  | .integer n => some n
  | .bool b => some (if b then 1 else 0)
  | _ => none

/-- Reals, and integers as the nearest real. -/
def asReal? : Value → Option Binary64
  | .real x => some x
  | .integer n => some (.ofInt n.toInt)
  | _ => none

def asText? : Value → Option String
  | .text s => some s
  | _ => none

/-- The storage form, whatever field the value may belong to. -/
def toStorage : Value → Storage
  | .null => .null
  | .bool b => .ofBool b
  | .integer n => .integer n
  | .real x => .real x
  | .text s => .text s
  | .blob bytes => .blob bytes
  | .json j => .text j.toText
  | .timestamp t => .text t.toStorageText
  | .uuid u => .text u.toText

/-- The value as a JSON document: a blob is an array of its bytes. -/
def toJson : Value → Json
  | .null => .null
  | .bool b => .bool b
  | .integer n => .integer n.toInt
  | .real x => .real x
  | .text s => .text s
  | .blob bytes => .array (bytes.map fun b => .integer b.toNat)
  | .json j => j
  | .timestamp t => .text t.toShortText
  | .uuid u => .text u.toText

end Value

/-- Types whose elements are values. -/
class ToValue (α : Type) where
  toValue : α → Value

export ToValue (toValue)

instance : ToValue Value := ⟨id⟩
instance : ToValue Bool := ⟨.bool⟩
instance : ToValue Int64 := ⟨.integer⟩
instance : ToValue Int32 := ⟨fun n => .integer n.toInt64⟩
instance : ToValue Int16 := ⟨fun n => .integer n.toInt64⟩
instance : ToValue Int8 := ⟨fun n => .integer n.toInt64⟩
instance : ToValue UInt32 := ⟨fun n => .integer (.ofNat n.toNat)⟩
instance : ToValue UInt16 := ⟨fun n => .integer (.ofNat n.toNat)⟩
instance : ToValue UInt8 := ⟨fun n => .integer (.ofNat n.toNat)⟩
instance : ToValue Binary64 := ⟨.real⟩
instance : ToValue String := ⟨.text⟩
instance : ToValue (List UInt8) := ⟨.blob⟩
instance : ToValue Json := ⟨.json⟩
instance : ToValue Timestamp := ⟨.timestamp⟩
instance : ToValue Uuid := ⟨.uuid⟩

/-- Nothing is the null value. -/
instance {α : Type} [ToValue α] : ToValue (Option α) := ⟨fun o => (o.map toValue).getD .null⟩

end StagedStore
