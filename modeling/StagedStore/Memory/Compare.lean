import Std.Data.HashSet
import StagedStore.Memory.Affinity
import StagedStore.Sql.Expr

/-!
# Comparing and combining cells

Truth has three values: a cell that is a number other than zero is true, zero is false and null is
unknown. Numbers compare by value whatever their class and stand before texts, texts before blobs.
-/

namespace StagedStore

namespace Storage

/-- A stable hash; equal cells share it. -/
def hash : Storage → UInt64
  | .null => 3
  | .integer n => mixHash 5 (Hashable.hash n)
  | .real x => mixHash 7 (Hashable.hash x)
  | .text s => mixHash 11 (Hashable.hash s)
  | .blob bytes => mixHash 13 (Hashable.hash bytes)

instance : Hashable Storage := ⟨hash⟩

/-- Where a class of cells stands in the order. -/
def rank : Storage → Nat
  | .null => 0
  | .integer _ => 1
  | .real _ => 1
  | .text _ => 2
  | .blob _ => 3

/-- The order of cells. -/
def cmp (a b : Storage) : Ordering :=
  match a, b with
  | .integer m, .integer n => compare m.toInt n.toInt
  | .integer m, .real y => (y.compareInt m.toInt).swap
  | .real x, .integer n => x.compareInt n.toInt
  | .real x, .real y => x.cmp y
  | .text s, .text t => compare s t
  | .blob s, .blob t => compare s t
  | a, b => compare a.rank b.rank

/-- One form for all cells that compare as equal: a real that is an integer of 64 bits becomes
that integer. -/
def normal : Storage → Storage
  | .real x =>
    match x.toInt? with
    | some n => if fitsInt64 n then .integer (.ofInt n) else .real x
    | none => .real x
  | v => v

/-- The truth of a cell, if it is known. -/
def truth? : Storage → Option Bool
  | .null => none
  | .integer n => some (n ≠ 0)
  | .real x => some (!(x.isFinite && x.magnitude = 0))
  | .text s => numberTruth (leadingNumber s)
  | .blob bytes => numberTruth (leadingNumber (blobText bytes))
where
  numberTruth : Storage → Option Bool
    | .integer n => some (n ≠ 0)
    | .real x => some (!(x.isFinite && x.magnitude = 0))
    | _ => none

/-- A truth value as a cell. -/
def ofTruth : Option Bool → Storage
  | none => .null
  | some b => .ofBool b

/-- Whether a condition with this result holds. -/
def holds (v : Storage) : Bool :=
  v.truth? = some true

def negate (v : Storage) : Storage :=
  ofTruth (v.truth?.map not)

/-- False if an operand is false, else unknown if one is unknown. -/
def conjoin (a b : Storage) : Storage :=
  match a.truth?, b.truth? with
  | some false, _ => .ofBool false
  | _, some false => .ofBool false
  | some true, some true => .ofBool true
  | _, _ => .null

/-- True if an operand is true, else unknown if one is unknown. -/
def disjoin (a b : Storage) : Storage :=
  match a.truth?, b.truth? with
  | some true, _ => .ofBool true
  | _, some true => .ofBool true
  | some false, some false => .ofBool false
  | _, _ => .null

/-- The number that a cell counts as in a sum. -/
def addend : Storage → Storage
  | .text s => leadingNumber s
  | .blob bytes => leadingNumber (blobText bytes)
  | v => v

/-- The real nearest to a number. -/
def asReal : Storage → Binary64
  | .integer n => .ofInt n.toInt
  | .real x => x
  | _ => .zero false

/-- A real; one that is no number becomes null. -/
def ofReal (x : Binary64) : Storage :=
  if x.isNaN then .null else .real x

/-- The sum: an integer while both operands are integers and the sum has 64 bits, a real
otherwise, null with null. -/
def add (a b : Storage) : Storage :=
  match a.addend, b.addend with
  | .null, _ => .null
  | _, .null => .null
  | .integer m, .integer n =>
    if fitsInt64 (m.toInt + n.toInt) then .integer (m + n)
    else .real (.ofInt m.toInt + .ofInt n.toInt)
  | x, y => ofReal (x.asReal + y.asReal)

/-- The text that a pattern is matched against, up to a null character. -/
def patternText? : Storage → Option (List Char)
  | .null => none
  | .text s => some (upToNul s)
  | .blob bytes => some (upToNul (blobText bytes))
  | v =>
    match v.numberToText with
    | .text s => some s.toList
    | _ => none
where
  upToNul (s : String) : List Char := s.toList.takeWhile (· ≠ '\x00')

end Storage

/-- Whether an order is what a comparison asks for. -/
def Sql.Comparison.accepts (op : Sql.Comparison) (o : Ordering) : Bool :=
  match op with
  | .eq => o.isEq
  | .ne => o.isNe
  | .gt => o.isGT
  | .ge => o.isGE
  | .lt => o.isLT
  | .le => o.isLE

/-- The result of comparing two cells under an affinity; unknown with null. -/
def Storage.compareBy (op : Sql.Comparison) (f : Affinity) (a b : Storage) : Storage :=
  if a.isNull || b.isNull then .null
  else
    let (a, b) := f.unify a b
    .ofBool (op.accepts (a.cmp b))

/-- Whether a text matches a pattern: a percent sign stands for any run of characters, an
underscore for one, and ASCII letters match in either case. -/
def matchesPattern : List Char → List Char → Bool
  | [], s => s.isEmpty
  | '%' :: p, [] => matchesPattern p []
  | '%' :: p, c :: s => matchesPattern p (c :: s) || matchesPattern ('%' :: p) s
  | '_' :: p, _ :: s => matchesPattern p s
  | c :: p, d :: s => c.toLower = d.toLower && matchesPattern p s
  | _ :: _, [] => false
termination_by p s => p.length + s.length

/-- The result of matching a cell with a pattern; unknown with null. -/
def Storage.like (a pattern : Storage) : Storage :=
  match a.patternText?, pattern.patternText? with
  | some s, some p => .ofBool (matchesPattern p s)
  | _, _ => .null

/-- Cells to look up by value. -/
structure CellSet where
  cells : Std.HashSet Storage
  hasNull : Bool

namespace CellSet

def empty : CellSet := ⟨∅, false⟩

/-- Add a cell; null is only noted. -/
def insert (s : CellSet) (v : Storage) : CellSet :=
  if v.isNull then { s with hasNull := true } else { s with cells := s.cells.insert v.normal }

/-- The cells as they are compared under an affinity. -/
def ofList (f : Affinity) (vs : List Storage) : CellSet :=
  vs.foldl (fun s v => s.insert (f.forMember v)) empty

/-- Whether a cell is among others: unknown if it is null, or if it is not found but a null is
among them; false among none. -/
def member (s : CellSet) (f : Affinity) (v : Storage) : Storage :=
  if s.cells.isEmpty && !s.hasNull then .ofBool false
  else if v.isNull then .null
  else if s.cells.contains (f.forMember v).normal then .ofBool true
  else if s.hasNull then .null
  else .ofBool false

end CellSet

end StagedStore
