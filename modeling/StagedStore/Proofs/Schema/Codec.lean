import StagedStore.Schema.Codec
import StagedStore.Proofs.Calendar.Timestamp
import StagedStore.Proofs.Json
import StagedStore.Proofs.Update.RowWise
import StagedStore.Proofs.Uuid

/-!
# Values through cells

A cell that a field stored is read as the value it was made of, in the form of the field's kind;
this form is stored as the same cell.
-/

namespace StagedStore

namespace FieldKind

/-- What is left of a value in a field of a kind: an integer field knows truth values as 0 and 1,
a real field knows integers as reals, and timestamps have no digits below a microsecond. -/
def kept : FieldKind → Value → Value
  | .integer, .bool b => .integer (if b then 1 else 0)
  | .real, .integer n => .real (.ofInt n.toInt)
  | .timestamp, .timestamp t => .timestamp t.toMicros
  | _, v => v

theorem isNull_kept (kind : FieldKind) (v : Value) : (kind.kept v).isNull = v.isNull := by
  cases kind <;> cases v <;> rfl

end FieldKind

/-- The text of the value can be read: the year has four digits, the document is not too deep and
has no numbers but integers of 64 bits. -/
def Value.Legible : Value → Prop
  | .timestamp t => 0 ≤ t.date.year ∧ t.date.year ≤ 9999
  | .json j => j.Within Json.maxDepth
  | _ => True

namespace Field

variable {f : Field} {v : Value} {w : Storage}

theorem encode_of_encodeKind? (hnull : v.isNull = false) (h : encodeKind? f.kind v = some w) :
    f.encode v = .ok w := by
  rw [encode, hnull, h]
  rfl

/-- What is kept of a value is stored in the same cell. -/
theorem encodeKind?_kept {kind : FieldKind} (h : encodeKind? kind v = some w) :
    encodeKind? kind (kind.kept v) = some w := by
  cases kind with
  | timestamp =>
      cases v with
      | timestamp u =>
          cases h
          exact congrArg (fun s => some (Storage.text s)) u.toStorageText_toMicros
      | _ => cases h
  | integer => cases v <;> exact h
  | real => cases v <;> exact h
  | _ => exact h

section Texts

variable {name t : String} {nullable : Bool}

theorem decode_json {j : Json} (h : Json.ofText? t = some j) :
    decode ⟨name, .json, nullable⟩ (.text t) = .ok (.json j) := by
  simp only [decode, h, Option.elim_some]

theorem decode_timestamp {u : Timestamp} (h : Timestamp.ofText? t = some u) :
    decode ⟨name, .timestamp, nullable⟩ (.text t) = .ok (.timestamp u) := by
  simp only [decode, h, Option.elim_some]

theorem decode_uuid {u : Uuid} (h : Uuid.ofText? t = some u) :
    decode ⟨name, .uuid, nullable⟩ (.text t) = .ok (.uuid u) := by
  simp only [decode, h, Option.elim_some]

end Texts

theorem decode_of_encodeKind? {name : String} {kind : FieldKind} {nullable : Bool}
    (h : encodeKind? kind v = some w) (hv : v.Legible) :
    decode ⟨name, kind, nullable⟩ w = .ok (kind.kept v) := by
  unfold encodeKind? at h
  split at h <;> cases h
  case h_1 | h_2 | h_3 | h_4 | h_5 | h_7 => rfl
  case h_6 b => cases b <;> rfl
  case h_8 j => exact decode_json (Json.ofText?_toText hv)
  case h_9 t => exact decode_timestamp (Timestamp.ofText?_toStorageText hv.1 hv.2)
  case h_10 u => exact decode_uuid (Uuid.ofText?_toText u)

/-- In the last leap second that there was. -/
def leapSecond : Timestamp where
  seconds := 1483228799
  nanos := 1123456789
  nanos_lt := by decide
  leap := by decide

/-- The greatest and the least number, and characters that need to be escaped. -/
def edges : Json :=
  .object [("max", .array [.integer 18446744073709551615]),
    ("min", .array [.integer (-9223372036854775808), .text "\"\n\x00"])]

end Field

end StagedStore
