/-!
# Fields sorted by name

Association lists whose names ascend in the order of code points, each name once.
-/

namespace StagedStore.Keyed

variable {α : Type}

/-- Put a value under a name in its place; it replaces an earlier value of the name. -/
def insert (name : String) (v : α) : List (String × α) → List (String × α)
  | [] => [(name, v)]
  | (n, w) :: r =>
    if name < n then (name, v) :: (n, w) :: r
    else if name = n then (name, v) :: r
    else (n, w) :: insert name v r

/-- Values in any order, sorted; the later of two under one name counts. -/
def ofList (fields : List (String × α)) : List (String × α) :=
  fields.foldl (fun r (n, v) => insert n v r) []

end StagedStore.Keyed
