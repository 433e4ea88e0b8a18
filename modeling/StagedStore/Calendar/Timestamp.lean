import StagedStore.Calendar.Date

/-!
# Points in time

A `Timestamp` counts seconds of coordinated universal time from 1970 and nanoseconds within the
second. A leap second is the continuation of the last second of a minute: its nanoseconds run on
from one thousand million.

`Timestamp.toText` writes the date and time with a chosen count of fraction digits,
`Timestamp.ofText?` reads a date and time with an offset from universal time.
-/

namespace StagedStore

/-- Nanoseconds in a second. -/
def nanosPerSecond : Nat := 1000000000

structure Timestamp where
  seconds : Int
  nanos : Nat
  nanos_lt : nanos < 2 * nanosPerSecond
  leap : nanosPerSecond ≤ nanos → seconds % 60 = 59
deriving DecidableEq

namespace Timestamp

/-- Decimal digits, zeros in front up to `width`. -/
def padded (width n : Nat) : List Char :=
  let ds := Nat.toDigits 10 n
  List.replicate (width - ds.length) '0' ++ ds

/-- A year of four digits stands alone, any other carries a sign. -/
def yearText (y : Int) : List Char :=
  if 0 ≤ y ∧ y ≤ 9999 then padded 4 y.toNat
  else (if y < 0 then '-' else '+') :: padded 4 y.natAbs

def date (t : Timestamp) : Date :=
  Date.ofDays (t.seconds / 86400)

/-- Date and time of day to the second; a leap second is the sixtieth of its minute. -/
def clockText (t : Timestamp) : List Char :=
  let d := t.date
  let s := (t.seconds % 86400).toNat
  yearText d.year ++ '-' :: padded 2 d.month ++ '-' :: padded 2 d.day ++ 'T' ::
    padded 2 (s / 3600) ++ ':' :: padded 2 (s / 60 % 60) ++ ':' ::
    padded 2 (s % 60 + t.nanos / nanosPerSecond)

/-- Date and time of day with `digits` digits of the fraction, at most nine, cut off after them;
none and no point for zero. -/
def toText (t : Timestamp) (digits : Nat) : String :=
  let fraction :=
    if digits = 0 then []
    else '.' :: (padded 9 (t.nanos % nanosPerSecond)).take digits
  String.ofList (t.clockText ++ fraction ++ ['Z'])

/-- The text a store keeps: microseconds. -/
def toStorageText (t : Timestamp) : String :=
  t.toText 6

/-- The fewest of 0, 3, 6 and 9 fraction digits that lose nothing. -/
def toShortText (t : Timestamp) : String :=
  let n := t.nanos % nanosPerSecond
  t.toText (if n = 0 then 0 else if n % 1000000 = 0 then 3 else if n % 1000 = 0 then 6 else 9)

/-- Exactly `n` digits. -/
def readDigits? (n : Nat) (cs : List Char) : Option (Nat × List Char) :=
  let ds := cs.take n
  if ds.length = n ∧ ds.all Char.isDigit then
    some (ds.foldl (fun v c => 10 * v + (c.toNat - '0'.toNat)) 0, cs.drop n)
  else none

/-- One character of a class. -/
def readOne? (ok : Char → Bool) : List Char → Option (Char × List Char)
  | c :: r => if ok c then some (c, r) else none
  | [] => none

/-- Nanoseconds of an optional fraction; digits after the ninth are dropped. -/
def readFraction? : List Char → Option (Nat × List Char)
  | '.' :: r =>
    match r.takeWhile Char.isDigit with
    | [] => none
    | ds =>
      let nine := (ds ++ List.replicate 9 '0').take 9
      some (nine.foldl (fun v c => 10 * v + (c.toNat - '0'.toNat)) 0, r.dropWhile Char.isDigit)
  | r => some (0, r)

/-- Seconds that the zone is ahead of universal time. -/
def readZone? : List Char → Option Int
  | ['Z'] => some 0
  | ['z'] => some 0
  | sign :: r => do
    let negative ←
      if sign = '+' then some false
      else if sign = '-' || sign = '\u2212' then some true
      else none
    let (h, r) ← readDigits? 2 r
    let (_, r) ← readOne? (· = ':') r
    let (m, r) ← readDigits? 2 r
    if h ≤ 23 ∧ m ≤ 59 ∧ r = [] then
      let offset : Int := h * 3600 + m * 60
      some (if negative then -offset else offset)
    else none
  | [] => none

/-- The timestamp of a number of seconds and nanoseconds, if the nanoseconds fit. -/
def make? (seconds : Int) (nanos : Nat) : Option Timestamp :=
  if h : nanos < 2 * nanosPerSecond ∧ (nanosPerSecond ≤ nanos → seconds % 60 = 59) then
    some ⟨seconds, nanos, h.1, h.2⟩
  else none

/-- Read a date, a time of day and an offset from universal time. -/
def ofText? (s : String) : Option Timestamp := do
  let (year, r) ← readDigits? 4 s.toList
  let (_, r) ← readOne? (· = '-') r
  let (month, r) ← readDigits? 2 r
  let (_, r) ← readOne? (· = '-') r
  let (day, r) ← readDigits? 2 r
  let (_, r) ← readOne? (fun c => c = 'T' || c = 't' || c = ' ') r
  let (hour, r) ← readDigits? 2 r
  let (_, r) ← readOne? (· = ':') r
  let (minute, r) ← readDigits? 2 r
  let (_, r) ← readOne? (· = ':') r
  let (second, r) ← readDigits? 2 r
  let (fraction, r) ← readFraction? r
  let offset ← readZone? r
  let d : Date := ⟨year, month, day⟩
  if d.IsValid ∧ hour ≤ 23 ∧ minute ≤ 59 ∧ second ≤ 60 then
    let whole := if second = 60 then 59 else second
    let nanos := if second = 60 then nanosPerSecond + fraction else fraction
    let time : Int := hour * 3600 + minute * 60 + whole
    make? (d.toDays * 86400 + time - offset) nanos
  else none

end Timestamp

end StagedStore
