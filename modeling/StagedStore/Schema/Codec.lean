import StagedStore.Schema.Basic
import StagedStore.Json.Reader

/-!
# Storage forms of field values

`Field.encode` turns a value into the cell its field stores, `Field.decode` reads a cell back.
-/

namespace StagedStore

/-- The integer of 64 bits nearest to a number that is an integer or infinite. -/
def clampInt64 (n : Int) : Int64 :=
  if n < Int64.minValue.toInt then Int64.minValue
  else if Int64.maxValue.toInt < n then Int64.maxValue
  else Int64.ofInt n

namespace Field

/-- The cell a value is stored as in a field of a kind. -/
def encodeKind? (kind : FieldKind) (v : Value) : Option Storage :=
  match kind, v with
  | .integer, .integer n => some (.integer n)
  | .integer, .bool b => some (.ofBool b)
  | .real, .real x => some (.real x)
  | .real, .integer n => some (.real (.ofInt n.toInt))
  | .text, .text s => some (.text s)
  | .bool, .bool b => some (.ofBool b)
  | .blob, .blob bytes => some (.blob bytes)
  | .json, .json j => some (.text j.toText)
  | .timestamp, .timestamp t => some (.text t.toStorageText)
  | .uuid, .uuid u => some (.text u.toText)
  | _, _ => none

/-- The cell a value is stored as. Null needs a nullable field, any other value one of its kind;
an integer field takes truth values and a real field takes integers. -/
def encode (f : Field) (v : Value) : Except Error Storage :=
  if v.isNull then
    if f.nullable then .ok .null else .error (.serialization (.notNullable f.name))
  else match encodeKind? f.kind v with
    | some s => .ok s
    | none => .error (.serialization (.mismatch f.name f.kind v.typeName))

/-- The value a cell of a field holds. Null is read whatever the field, an integer field reads
reals without a fraction, and a real field reads integers. -/
def decode (f : Field) (s : Storage) : Except Error Value :=
  let mismatch := Except.error (.decode f.name (.mismatch f.kind s.className))
  let malformed := Error.decode f.name (.malformed f.kind)
  match f.kind, s with
  | _, .null => .ok .null
  | .integer, .integer n => .ok (.integer n)
  | .integer, .real x =>
    match x.toInt? with
    | some n => .ok (.integer (clampInt64 n))
    | none => mismatch
  | .real, .real x => .ok (.real x)
  | .real, .integer n => .ok (.real (.ofInt n.toInt))
  | .text, .text t => .ok (.text t)
  | .bool, .integer n => .ok (.bool (n ≠ 0))
  | .blob, .blob bytes => .ok (.blob bytes)
  | .json, .text t => (Json.ofText? t).elim (.error malformed) fun j => .ok (.json j)
  | .timestamp, .text t =>
    (Timestamp.ofText? t).elim (.error malformed) fun u => .ok (.timestamp u)
  | .uuid, .text t => (Uuid.ofText? t).elim (.error malformed) fun u => .ok (.uuid u)
  | _, _ => mismatch

end Field

/-- The cells of some fields of a schema, in the order given. -/
def Schema.encodeAll (s : Schema) (values : List (String × Value)) :
    Except Error (List (String × Storage)) :=
  values.mapM fun (name, v) => do
    let field ← s.requireField name
    return (name, ← field.encode v)

end StagedStore
