/-!
# Text in quotes

A text in quotes carries each of its own quote characters twice. `Quoted.wrap` writes it,
`Quoted.read?` reads what follows an opening quote up to the closing one.
-/

namespace StagedStore.Quoted

/-- Every `quote` twice, all else once. -/
def double (quote : Char) : List Char → List Char
  | [] => []
  | c :: r => if c = quote then quote :: quote :: double quote r else c :: double quote r

/-- A text between quotes. -/
def wrap (quote : Char) (cs : List Char) : List Char :=
  quote :: (double quote cs ++ [quote])

/-- The content up to the closing quote and what follows it; a doubled quote does not close. -/
def read? (quote : Char) : List Char → Option (List Char × List Char)
  | [] => none
  | [c] => if c = quote then some ([], []) else none
  | c :: d :: r =>
    if c = quote then
      if d = quote then (read? quote r).map fun (s, t) => (quote :: s, t)
      else some ([], d :: r)
    else (read? quote (d :: r)).map fun (s, t) => (c :: s, t)

end StagedStore.Quoted
