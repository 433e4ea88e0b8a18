import StagedStore.Entity

/-!
# Generated keys

A statement that inserts several rows without keys gives them consecutive ones, of which only the
last is reported.
-/

namespace StagedStore

/-- An integer, if it is one of 64 bits. -/
def int64? (n : Int) : Option Int64 :=
  if Int64.minValue.toInt ≤ n ∧ n ≤ Int64.maxValue.toInt then some (.ofInt n) else none

theorem int64?_eq_some_iff {n : Int} {k : Int64} : int64? n = some k ↔ k.toInt = n := by
  have hmin : Int64.minValue.toInt = -2 ^ 63 := by decide
  have hmax : Int64.maxValue.toInt = 2 ^ 63 - 1 := by decide
  unfold int64?
  split
  · rename_i h
    have hn : (Int64.ofInt n).toInt = n := Int64.toInt_ofInt_of_le (by omega) (by omega)
    rw [Option.some_inj, ← Int64.toInt_inj, hn, eq_comm]
  · rename_i h
    have hle := Int64.le_toInt k
    have hlt := Int64.toInt_lt k
    simp only [reduceCtorEq, false_iff]
    omega

/-- The first of some consecutive keys that end at the last one. The count, cut to 64 bits, is taken
away before one is added, and either result must be an integer of 64 bits. -/
def firstKey? (last : Int64) (count : Nat) : Option Int64 := do
  let before ← int64? (last.toInt - (Int64.ofNat count).toInt)
  int64? (before.toInt + 1)

/-- The keys from one to another, both included. -/
def keysBetween (first last : Int64) : List Int64 :=
  (List.range (last.toInt + 1 - first.toInt).toNat).map fun (i : Nat) => .ofInt (first.toInt + i)

/-- The consecutive keys that end at the last generated one, in the order of insertion. -/
def generatedKeys (last : Int64) (count : Nat) : Except Error (List Int64) :=
  match firstKey? last count with
  | none => .error (.keysOutOfRange last count)
  | some first => .ok (keysBetween first last)

/-- Overwrite a field of each entity. A refusal ends it; the entities before stay changed. -/
def assignKeys {ε : Type} [Entity ε] (field : String) :
    List ε → List Int64 → List ε × Except Error Unit
  | item :: items, k :: keys =>
    match Entity.setField item field (.integer k) with
    | .error e => (item :: items, .error e)
    | .ok item =>
      let (items, r) := assignKeys field items keys
      (item :: items, r)
  | items, _ => (items, .ok ())

end StagedStore
