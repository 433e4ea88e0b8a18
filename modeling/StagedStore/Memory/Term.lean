import StagedStore.Memory.Compare

/-!
# Terms

A `Term` is an expression whose names are resolved: its columns are slots of a row. `Term.eval`
gives its cell for a row.
-/

namespace StagedStore

inductive Term where
  | cell (v : Storage)
  | slot (i : Nat)
  | add (a b : Term)
  | compare (op : Sql.Comparison) (f : Affinity) (a b : Term)
  | like (a pattern : Term)
  | isNull (a : Term)
  /-- Membership among cells known beforehand. -/
  | inSet (f : Affinity) (a : Term) (set : CellSet)
  | inList (f : Affinity) (a : Term) (members : List Term)
  | not (a : Term)
  | and (a b : Term)
  | or (a b : Term)
  | choose (arms : List (Term × Term)) (otherwise : Term)

namespace Term

instance : Inhabited Term := ⟨.cell .null⟩

mutual

/-- The cell of a term for a row. -/
def eval (row : Array Storage) : Term → Storage
  | .cell v => v
  | .slot i => row[i]?.getD .null
  | .add a b => (eval row a).add (eval row b)
  | .compare op f a b => (eval row a).compareBy op f (eval row b)
  | .like a p => (eval row a).like (eval row p)
  | .isNull a => .ofBool (eval row a).isNull
  | .inSet f a set => set.member f (eval row a)
  | .inList f a ms => (CellSet.ofList f (evalAll row ms)).member f (eval row a)
  | .not a => (eval row a).negate
  | .and a b => (eval row a).conjoin (eval row b)
  | .or a b => (eval row a).disjoin (eval row b)
  | .choose arms e => (evalArms row arms).getD (eval row e)

def evalAll (row : Array Storage) : List Term → List Storage
  | [] => []
  | t :: ts => eval row t :: evalAll row ts

/-- The result of the first arm whose condition holds. -/
def evalArms (row : Array Storage) : List (Term × Term) → Option Storage
  | [] => none
  | (c, r) :: arms => if (eval row c).holds then some (eval row r) else evalArms row arms

end

/-- Whether a condition holds for a row. -/
def holds (t : Term) (row : Array Storage) : Bool :=
  (t.eval row).holds

/-- The cell of a term that is the same for every row. -/
def cell? : Term → Option Storage
  | .cell v => some v
  | _ => none

/-- Membership in a list; cells known beforehand are looked up by value. -/
def ofMembers (f : Affinity) (a : Term) (members : List Term) : Term :=
  match members.mapM cell? with
  | some vs => .inSet f a (.ofList f vs)
  | none => .inList f a members

/-- The negation of a term, if it is asked for. -/
def negatedIf (negated : Bool) (t : Term) : Term :=
  if negated then .not t else t

end Term

end StagedStore
