import Mathlib.Order.Monotone.Basic
import StagedStore.Memory.Query
import StagedStore.Proofs.Memory.Cells

/-!
# The order of cells

`Storage.cmp` orders all cells: a cell stands in one of seven parts of the order, and within its part
by its number, its characters or its bytes. So rows that are sorted by cells stand as the cells ask.
-/

namespace StagedStore

theorem compare_mul_unitsPerOne (m n : Int) :
    compare (m * Binary64.unitsPerOne) (n * Binary64.unitsPerOne) = compare m n := by
  have hpos : (0 : Int) < Binary64.unitsPerOne := Int.natCast_pos.2 Binary64.unitsPerOne_pos
  have hmono : StrictMono fun k : Int => k * Binary64.unitsPerOne :=
    fun _ _ h => Int.mul_lt_mul_of_pos_right h hpos
  rw [← cmp_eq_compare, ← cmp_eq_compare]
  exact hmono.cmp_map_eq m n

namespace Storage

/-- The part of the order that a cell stands in. -/
def level : Storage → Nat
  | .null => 0
  | .real .nan => 1
  | .real (.infinite true) => 2
  | .integer _ => 3
  | .real (.finite ..) => 3
  | .real (.infinite false) => 4
  | .text _ => 5
  | .blob _ => 6

/-- A number in units. -/
def units : Storage → Int
  | .integer n => n.toInt * Binary64.unitsPerOne
  | .real x => x.units
  | _ => 0

def characters : Storage → String
  | .text s => s
  | _ => ""

def bytes : Storage → List UInt8
  | .blob bytes => bytes
  | _ => []

/-- Cells compared by the parts they stand in, then by what they hold. -/
def compareParts : Storage → Storage → Ordering :=
  compareLex (compareOn level)
    (compareLex (compareOn units) (compareLex (compareOn characters) (compareOn bytes)))

/-- Cells of different parts of the order stand as the parts do. -/
theorem cmp_of_level_ne {a b : Storage} (h : a.level ≠ b.level) :
    a.cmp b = compare a.level b.level := by
  rcases a with _ | m | (_ | ⟨_ | _⟩ | _) | s | s <;>
    rcases b with _ | n | (_ | ⟨_ | _⟩ | _) | t | t <;>
    first
    | rfl
    | exact absurd rfl h

/-- Cells of one part of the order stand as what they hold does. -/
theorem cmp_of_level_eq {a b : Storage} (h : a.level = b.level) :
    a.cmp b = (compare a.units b.units).then
      ((compare a.characters b.characters).then (compare a.bytes b.bytes)) := by
  rcases a with _ | m | (_ | ⟨_ | _⟩ | _) | s | s <;>
    rcases b with _ | n | (_ | ⟨_ | _⟩ | _) | t | t <;>
    simp only [level, reduceCtorEq, Nat.reduceEqDiff] at h <;>
    simp only [cmp, units, characters, bytes, rank, Binary64.units, Binary64.cmp, Binary64.compareInt,
      compare_mul_unitsPerOne, Int.compare_swap, Std.compare_self, Ordering.then_eq,
      Ordering.eq_then, if_true]

theorem cmp_eq_compareParts (a b : Storage) : a.cmp b = compareParts a b := by
  change _ = (compare a.level b.level).then _
  by_cases h : a.level = b.level
  · have hself : compare a.level b.level = .eq := Nat.compare_eq_eq.2 h
    rw [cmp_of_level_eq h, hself]
    rfl
  · rw [cmp_of_level_ne h]
    have hne : compare a.level b.level ≠ .eq := fun he => h (Nat.compare_eq_eq.1 he)
    cases hc : compare a.level b.level with
    | eq => exact absurd hc hne
    | _ => rfl

instance : Std.TransCmp cmp := by
  have h : cmp = compareParts := funext fun a => funext (cmp_eq_compareParts a)
  rw [h]
  unfold compareParts
  infer_instance

end Storage

namespace Memory

variable {α : Type}

theorem isLE_or_isLE {cmp : α → α → Ordering} [Std.OrientedCmp cmp] (a b : α) :
    ((cmp a b).isLE || (cmp b a).isLE) = true := by
  have hswap : cmp b a = (cmp a b).swap := Std.OrientedCmp.eq_swap
  rw [hswap]
  cases cmp a b <;> rfl

/-- Cells compared by a key that may descend. -/
def keyCmp (descends : Bool) (a b : Storage) : Ordering :=
  if descends then b.cmp a else a.cmp b

instance (descends : Bool) : Std.TransCmp (keyCmp descends) := by
  cases descends with
  | false => exact inferInstanceAs (Std.TransCmp Storage.cmp)
  | true => exact inferInstanceAs (Std.TransCmp fun a b => Storage.cmp b a)

/-- Rows compared by one key after the other; a row is given as its cells by key. -/
def keysCmp (descends : α → Bool) : List α → (α → Storage) → (α → Storage) → Ordering
  | [] => fun _ _ => .eq
  | k :: ks => compareLex (fun u v => keyCmp (descends k) (u k) (v k)) (keysCmp descends ks)

instance (descends : α → Bool) (ks : List α) : Std.TransCmp (keysCmp descends ks) := by
  induction ks with
  | nil => exact { eq_swap := rfl, isLE_trans := fun _ _ => rfl }
  | cons k ks ih =>
      have hkey : Std.TransCmp fun u v : α → Storage => keyCmp (descends k) (u k) (v k) :=
        { eq_swap := fun {u v} =>
            (Std.OrientedCmp.eq_swap : keyCmp (descends k) (u k) (v k) = _)
          isLE_trans := fun {u v w} huv hvw =>
            (Std.TransCmp.isLE_trans huv hvw : (keyCmp (descends k) (u k) (w k)).isLE = true) }
      exact inferInstanceAs (Std.TransCmp (compareLex _ _))

theorem orderedBefore_eq (descends : α → Bool) (ks : List α) (u v : α → Storage) :
    orderedBefore (ks.map fun k => (u k, descends k)) (ks.map fun k => (v k, descends k)) =
      (keysCmp descends ks u v).isLE := by
  induction ks with
  | nil => rfl
  | cons k ks ih =>
      have hkey : (if descends k then (v k).cmp (u k) else (u k).cmp (v k)) =
          keyCmp (descends k) (u k) (v k) := rfl
      rw [List.map_cons, List.map_cons, orderedBefore, hkey, ih, keysCmp, compareLex]
      cases keyCmp (descends k) (u k) (v k) <;> rfl

end Memory

end StagedStore
