/-!
# Bytes as hexadecimal digits

`Hex.encode` writes two digits per byte, `Hex.decode?` reads digits of either case back.
-/

namespace StagedStore.Hex

/-- The digit of a number below sixteen. -/
def digit (upper : Bool) (n : Nat) : Char :=
  if n < 10 then Char.ofNat ('0'.toNat + n)
  else Char.ofNat ((if upper then 'A' else 'a').toNat + (n - 10))

/-- The number a digit of either case stands for. -/
def digitValue? (c : Char) : Option Nat :=
  if '0' ≤ c ∧ c ≤ '9' then some (c.toNat - '0'.toNat)
  else if 'a' ≤ c ∧ c ≤ 'f' then some (c.toNat - 'a'.toNat + 10)
  else if 'A' ≤ c ∧ c ≤ 'F' then some (c.toNat - 'A'.toNat + 10)
  else none

/-- Two digits per byte, the high one first. -/
def encode (upper : Bool) (bytes : List UInt8) : List Char :=
  bytes.flatMap fun b => [digit upper (b.toNat / 16), digit upper (b.toNat % 16)]

/-- Read an even count of digits. -/
def decode? : List Char → Option (List UInt8)
  | [] => some []
  | a :: b :: r => do
    let h ← digitValue? a
    let l ← digitValue? b
    let rest ← decode? r
    return UInt8.ofNat (16 * h + l) :: rest
  | [_] => none

end StagedStore.Hex
