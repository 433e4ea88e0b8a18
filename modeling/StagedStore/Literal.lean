import StagedStore.Identifier
import StagedStore.Text.Hex

/-!
# SQL literals

`Storage.literal` writes the content of a cell as SQL does.
-/

namespace StagedStore

/-- A text in single quotes. -/
def quoteText (s : String) : String :=
  String.ofList (Quoted.wrap '\'' s.toList)

/-- The SQL literal of a cell's content. Infinity and nan have none and are written as null. -/
def Storage.literal : Storage → String
  | .null => "NULL"
  | .integer n => toString n.toInt
  | .real x => if x.isFinite then x.toText else "NULL"
  | .text s => quoteText s
  | .blob bytes => "X'" ++ String.ofList (Hex.encode true bytes) ++ "'"

end StagedStore
