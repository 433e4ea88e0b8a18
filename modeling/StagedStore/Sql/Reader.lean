import StagedStore.Sql.Statement
import StagedStore.Sql.Token

/-!
# Reading SQL

The grammar binds, from tightest to loosest: sums; `<`, `<=`, `>` and `>=`; equality, `LIKE`, `IN`,
`BETWEEN` and the null checks; `NOT`; `AND`; `OR`. The first `AND` behind a `BETWEEN` belongs to it.

Every reader takes tokens from the front and gives the rest back, or nothing when the tokens do
not start with what it reads. The readers of nested forms carry a bound on their depth.
-/

namespace StagedStore.Sql

/-- A part of an identifier. -/
def partOfToken? : Token → Option Part
  | .name s => some (.quoted s)
  | .word s => some (.bare s)
  | _ => none

def readPart? : List Token → Option (Part × List Token)
  | t :: r => (partOfToken? t).map fun p => (p, r)
  | [] => none

/-- A table's name, perhaps behind the name of its database. -/
def readTableName? (ts : List Token) : Option (Identifier × List Token) := do
  let (a, r) ← readPart? ts
  match r with
  | .symbol '.' :: r => do
    let (b, r) ← readPart? r
    return (.cons a (.ofPart b), r)
  | _ => return (.ofPart a, r)

/-- Take one token away. -/
def expect (t : Token) : List Token → Option (List Token)
  | u :: r => if u = t then some r else none
  | [] => none

/-- Take a reserved word away. -/
def expectWord (k : Keyword) (ts : List Token) : Option (List Token) :=
  expect (.keyword k) ts

/-- Parts with commas between them, after those already read, which stand in reverse. -/
def readPartsAfter? (before : List Part) : List Token → Option (List Part × List Token)
  | t :: .symbol ',' :: r =>
    match partOfToken? t with
    | some p => readPartsAfter? (p :: before) r
    | none => none
  | t :: r => (partOfToken? t).map fun p => ((p :: before).reverse, r)
  | [] => none

/-- The literal of a number: an integer when it is written as one and fits 64 bits. -/
def numberLiteral (negative : Bool) (d : Decimal) (isInteger : Bool) : Storage :=
  let n : Int := if negative then -d.digits else d.digits
  if isInteger ∧ Int64.minValue.toInt ≤ n ∧ n ≤ Int64.maxValue.toInt then .integer (.ofInt n)
  else .real { d with negative }.toBinary64

mutual

/-- An expression. -/
def readExpr? (fuel : Nat) (ts : List Token) : Option (Expr × List Token) :=
  match fuel with
  | 0 => none
  | fuel + 1 =>
    match readConjunction? fuel ts with
    | some (a, r) => readOrs? fuel a r
    | none => none

/-- Further alternatives after the first. -/
def readOrs? (fuel : Nat) (a : Expr) (ts : List Token) : Option (Expr × List Token) :=
  match fuel with
  | 0 => none
  | fuel + 1 =>
    match ts with
    | .keyword .or :: r =>
      match readConjunction? fuel r with
      | some (b, r) => readOrs? fuel (.or a b) r
      | none => none
    | _ => some (a, ts)

def readConjunction? (fuel : Nat) (ts : List Token) : Option (Expr × List Token) :=
  match fuel with
  | 0 => none
  | fuel + 1 =>
    match readNegation? fuel ts with
    | some (a, r) => readAnds? fuel a r
    | none => none

/-- Further conditions after the first. -/
def readAnds? (fuel : Nat) (a : Expr) (ts : List Token) : Option (Expr × List Token) :=
  match fuel with
  | 0 => none
  | fuel + 1 =>
    match ts with
    | .keyword .and :: r =>
      match readNegation? fuel r with
      | some (b, r) => readAnds? fuel (.and a b) r
      | none => none
    | _ => some (a, ts)

def readNegation? (fuel : Nat) (ts : List Token) : Option (Expr × List Token) :=
  match fuel with
  | 0 => none
  | fuel + 1 =>
    match ts with
    | .keyword .not :: r =>
      match readNegation? fuel r with
      | some (e, r) => some (.not e, r)
      | none => none
    | _ =>
      match readComparison? fuel ts with
      | some (a, r) => readTests? fuel a r
      | none => none

/-- Equality, `LIKE`, `IN`, `BETWEEN` and null checks behind an operand. -/
def readTests? (fuel : Nat) (a : Expr) (ts : List Token) : Option (Expr × List Token) :=
  match fuel with
  | 0 => none
  | fuel + 1 =>
    match ts with
    | .equal :: r =>
      match readComparison? fuel r with
      | some (b, r) => readTests? fuel (.compare .eq a b) r
      | none => none
    | .unequal :: r =>
      match readComparison? fuel r with
      | some (b, r) => readTests? fuel (.compare .ne a b) r
      | none => none
    | .keyword .isnull :: r => readTests? fuel (.nullCheck false a) r
    | .keyword .notnull :: r => readTests? fuel (.nullCheck true a) r
    | .keyword .is :: .keyword .null :: r => readTests? fuel (.nullCheck false a) r
    | .keyword .is :: .keyword .not :: .keyword .null :: r =>
      readTests? fuel (.nullCheck true a) r
    | .keyword .not :: .keyword .null :: r => readTests? fuel (.nullCheck true a) r
    | .keyword .not :: r => readNegatable? fuel true a r
    | .keyword .like :: _ => readNegatable? fuel false a ts
    | .keyword .in :: _ => readNegatable? fuel false a ts
    | .keyword .between :: _ => readNegatable? fuel false a ts
    | _ => some (a, ts)

/-- The tests that may follow a `NOT`. -/
def readNegatable? (fuel : Nat) (negated : Bool) (a : Expr) (ts : List Token) :
    Option (Expr × List Token) :=
  match fuel with
  | 0 => none
  | fuel + 1 =>
    match ts with
    | .keyword .like :: r =>
      match readComparison? fuel r with
      | some (p, r) => readTests? fuel (.like negated a p) r
      | none => none
    | .keyword .between :: r =>
      match readComparison? fuel r with
      | some (low, .keyword .and :: r) =>
        match readComparison? fuel r with
        | some (high, r) => readTests? fuel (.between negated a low high) r
        | none => none
      | _ => none
    | .keyword .in :: .symbol '(' :: .symbol ')' :: r => readTests? fuel (.inList negated a []) r
    | .keyword .in :: .symbol '(' :: .keyword .select :: c :: .keyword .from :: r =>
      match partOfToken? c, readTableName? r with
      | some c, some (t, .symbol ')' :: r) => readTests? fuel (.inTable negated a c t) r
      | _, _ => none
    | .keyword .in :: .symbol '(' :: r =>
      match readExprs? fuel [] r with
      | some (ms, .symbol ')' :: r) => readTests? fuel (.inList negated a ms) r
      | _ => none
    | _ => none

/-- Operands of `<`, `<=`, `>` and `>=`. -/
def readComparison? (fuel : Nat) (ts : List Token) : Option (Expr × List Token) :=
  match fuel with
  | 0 => none
  | fuel + 1 =>
    match readSum? fuel ts with
    | some (a, r) => readComparisons? fuel a r
    | none => none

def readComparisons? (fuel : Nat) (a : Expr) (ts : List Token) : Option (Expr × List Token) :=
  match fuel with
  | 0 => none
  | fuel + 1 =>
    let continueWith (op : Comparison) (r : List Token) :=
      match readSum? fuel r with
      | some (b, r) => readComparisons? fuel (.compare op a b) r
      | none => none
    match ts with
    | .less :: r => continueWith .lt r
    | .lessEqual :: r => continueWith .le r
    | .greater :: r => continueWith .gt r
    | .greaterEqual :: r => continueWith .ge r
    | _ => some (a, ts)

def readSum? (fuel : Nat) (ts : List Token) : Option (Expr × List Token) :=
  match fuel with
  | 0 => none
  | fuel + 1 =>
    match readOperand? fuel ts with
    | some (a, r) => readAddends? fuel a r
    | none => none

/-- Further addends after the first. -/
def readAddends? (fuel : Nat) (a : Expr) (ts : List Token) : Option (Expr × List Token) :=
  match fuel with
  | 0 => none
  | fuel + 1 =>
    match ts with
    | .symbol '+' :: r =>
      match readOperand? fuel r with
      | some (b, r) => readAddends? fuel (.add a b) r
      | none => none
    | _ => some (a, ts)

/-- What no operator divides. -/
def readOperand? (fuel : Nat) (ts : List Token) : Option (Expr × List Token) :=
  match fuel with
  | 0 => none
  | fuel + 1 =>
    match ts with
    | .symbol '-' :: .number d i :: r => some (.literal (numberLiteral true d i), r)
    | .number d i :: r => some (.literal (numberLiteral false d i), r)
    | .text s :: r => some (.literal (.text s), r)
    | .blob bytes :: r => some (.literal (.blob bytes), r)
    | .keyword .null :: r => some (.literal .null, r)
    | .param n :: r => some (.param n, r)
    | .symbol '(' :: r =>
      match readExpr? fuel r with
      | some (e, .symbol ')' :: r) => some (.paren e, r)
      | _ => none
    | .keyword .case :: r => readArms? fuel [] r
    | .word f :: .symbol '(' :: .symbol '*' :: .symbol ')' :: r =>
      if f.toUpper = "COUNT" then some (.countAll, r) else none
    | .word f :: .symbol '(' :: .symbol ')' :: r => some (.call f [], r)
    | .word f :: .symbol '(' :: r =>
      match readExprs? fuel [] r with
      | some (args, .symbol ')' :: r) => some (.call f args, r)
      | _ => none
    | q :: .symbol '.' :: c :: r =>
      match partOfToken? q, partOfToken? c with
      | some q, some c => some (.column (some q) c, r)
      | _, _ => none
    | c :: r => (partOfToken? c).map fun c => (.column none c, r)
    | [] => none

/-- The arms of a choice, after those already read, which stand in reverse. -/
def readArms? (fuel : Nat) (before : List (Expr × Expr)) (ts : List Token) :
    Option (Expr × List Token) :=
  match fuel with
  | 0 => none
  | fuel + 1 =>
    match ts with
    | .keyword .when :: r =>
      match readExpr? fuel r with
      | some (c, .keyword .then :: r) =>
        match readExpr? fuel r with
        | some (e, r) => readArms? fuel ((c, e) :: before) r
        | none => none
      | _ => none
    | .keyword .else :: r =>
      match readExpr? fuel r with
      | some (e, .keyword .end :: r) =>
        if before.isEmpty then none else some (.choose before.reverse e, r)
      | _ => none
    | .keyword .end :: r =>
      if before.isEmpty then none else some (.choose before.reverse (.literal .null), r)
    | _ => none

/-- Expressions with commas between them, after those already read, which stand in reverse. -/
def readExprs? (fuel : Nat) (before : List Expr) (ts : List Token) :
    Option (List Expr × List Token) :=
  match fuel with
  | 0 => none
  | fuel + 1 =>
    match readExpr? fuel ts with
    | some (e, .symbol ',' :: r) => readExprs? fuel (e :: before) r
    | some (e, r) => some ((e :: before).reverse, r)
    | none => none

end

/-- A list of values in parentheses. -/
def readTuple? (fuel : Nat) (ts : List Token) : Option (List Expr × List Token) := do
  let r ← expect (.symbol '(') ts
  let (es, r) ← readExprs? fuel [] r
  let r ← expect (.symbol ')') r
  return (es, r)

/-- Rows of values with commas between them, after those already read, which stand in reverse. -/
def readTuples? (fuel : Nat) (before : List (List Expr)) (ts : List Token) :
    Option (List (List Expr) × List Token) :=
  match fuel with
  | 0 => none
  | n + 1 =>
    match readTuple? fuel ts with
    | some (es, .symbol ',' :: r) => readTuples? n (es :: before) r
    | some (es, r) => some ((es :: before).reverse, r)
    | none => none

/-- An alias, if one follows. -/
def readAlias? : List Token → Option (Option Part × List Token)
  | .keyword .as :: r => (readPart? r).map fun (a, r) => (some a, r)
  | ts => some (none, ts)

/-- The columns of a query's result. -/
def readColumns? (fuel : Nat) (before : List ResultColumn) (ts : List Token) :
    Option (List ResultColumn × List Token) :=
  match fuel with
  | 0 => none
  | n + 1 => do
    let (c, r) ← match ts with
      | .symbol '*' :: r => some (.all, r)
      | _ => do
        let (e, r) ← readExpr? fuel ts
        let (a, r) ← readAlias? r
        some (.expr e a, r)
    match r with
    | .symbol ',' :: r => readColumns? n (c :: before) r
    | _ => return ((c :: before).reverse, r)

/-- A condition, if one follows. -/
def readWhere? (fuel : Nat) : List Token → Option (Option Expr × List Token)
  | .keyword .where :: r => (readExpr? fuel r).map fun (e, r) => (some e, r)
  | ts => some (none, ts)

/-- The terms of an ordering. -/
def readOrderTerms? (fuel : Nat) (before : List OrderTerm) (ts : List Token) :
    Option (List OrderTerm × List Token) :=
  match fuel with
  | 0 => none
  | n + 1 => do
    let (e, r) ← readExpr? fuel ts
    let (d, r) := match r with
      | .keyword .asc :: r => (some Direction.ascending, r)
      | .keyword .desc :: r => (some Direction.descending, r)
      | r => (none, r)
    match r with
    | .symbol ',' :: r => readOrderTerms? n (⟨e, d⟩ :: before) r
    | _ => return ((⟨e, d⟩ :: before).reverse, r)

/-- An ordering, if one follows. -/
def readOrder? (fuel : Nat) : List Token → Option (List OrderTerm × List Token)
  | .keyword .order :: .keyword .by :: r => readOrderTerms? fuel [] r
  | ts => some ([], ts)

/-- A whole number with its sign. -/
def readInteger? : List Token → Option (Int × List Token)
  | .symbol '-' :: .number d true :: r => some (-d.digits, r)
  | .number d true :: r => some (d.digits, r)
  | _ => none

/-- A limit, if one follows. -/
def readLimit? : List Token → Option (Option Limit × List Token)
  | .keyword .limit :: r => do
    let (n, r) ← readInteger? r
    match r with
    | .keyword .offset :: r => do
      let (o, r) ← readInteger? r
      return (some ⟨n, some o⟩, r)
    | _ => return (some ⟨n, none⟩, r)
  | ts => some (none, ts)

mutual

/-- A query. -/
def readSelect? (fuel : Nat) (ts : List Token) : Option (Select × List Token) :=
  match fuel with
  | 0 => none
  | n + 1 => do
    let r ← expectWord .select ts
    let (columns, r) ← readColumns? fuel [] r
    let (source, r) ← match r with
      | .keyword .from :: r => (readSource? n r).map fun (s, r) => (some s, r)
      | r => some (none, r)
    let (condition, r) ← readWhere? fuel r
    let (order, r) ← readOrder? fuel r
    let (limit, r) ← readLimit? r
    return (.mk columns source condition order limit, r)

/-- Sources joined to one another. -/
def readSource? (fuel : Nat) (ts : List Token) : Option (Source × List Token) :=
  match fuel with
  | 0 => none
  | fuel + 1 =>
    match readPlainSource? fuel ts with
    | some (s, r) => readJoins? fuel s r
    | none => none

/-- A table, rows of values or a query in parentheses. -/
def readPlainSource? (fuel : Nat) (ts : List Token) : Option (Source × List Token) :=
  match fuel with
  | 0 => none
  | n + 1 =>
    match ts with
    | .symbol '(' :: .keyword .values :: r => do
      let (rows, r) ← readTuples? fuel [] r
      let r ← expect (.symbol ')') r
      return (.values rows, r)
    | .symbol '(' :: r => do
      let (q, r) ← readSelect? n r
      let r ← expect (.symbol ')') r
      let (a, r) ← readAlias? r
      return (.query q a, r)
    | ts => do
      let (t, r) ← readTableName? ts
      let (a, r) ← readAlias? r
      return (.table t a, r)

/-- Further sources joined to a first. -/
def readJoins? (fuel : Nat) (s : Source) (ts : List Token) : Option (Source × List Token) :=
  match fuel with
  | 0 => none
  | n + 1 =>
    match ts with
    | .keyword .inner :: .keyword .join :: r | .keyword .join :: r => do
      let (t, r) ← readPlainSource? n r
      let r ← expectWord .on r
      let (e, r) ← readExpr? fuel r
      readJoins? n (.join s t e) r
    | _ => some (s, ts)

end

/-- Constraints of a column, after those already read, which stand in reverse. -/
def readConstraints? (fuel : Nat) (before : List ColumnConstraint) (ts : List Token) :
    Option (List ColumnConstraint × List Token) :=
  match fuel with
  | 0 => none
  | n + 1 =>
    match ts with
    | .keyword .primary :: .keyword .key :: .keyword .autoincrement :: r =>
      readConstraints? n (.primaryKey true :: before) r
    | .keyword .primary :: .keyword .key :: r =>
      readConstraints? n (.primaryKey false :: before) r
    | .keyword .not :: .keyword .null :: r => readConstraints? n (.notNull :: before) r
    | .keyword .unique :: r => readConstraints? n (.unique :: before) r
    | .keyword .references :: r => do
      let (t, r) ← readTableName? r
      let r ← expect (.symbol '(') r
      let (c, r) ← readPart? r
      let r ← expect (.symbol ')') r
      match r with
      | .keyword .deferrable :: .keyword .initially :: .keyword .deferred :: r =>
        readConstraints? n (.references t c true :: before) r
      | _ => readConstraints? n (.references t c false :: before) r
    | .keyword .check :: .symbol '(' :: r => do
      let (e, r) ← readExpr? fuel r
      let r ← expect (.symbol ')') r
      readConstraints? n (.check e :: before) r
    | _ => some (before.reverse, ts)

/-- The words of a declared type. -/
def readType : List Token → List String × List Token
  | .word s :: r =>
    let (ws, r) := readType r
    (s :: ws, r)
  | ts => ([], ts)

/-- Columns of a new table, after those already read, which stand in reverse. -/
def readColumnDefs? (fuel : Nat) (before : List ColumnDef) (ts : List Token) :
    Option (List ColumnDef × List Token) :=
  match fuel with
  | 0 => none
  | n + 1 => do
    let (name, r) ← readPart? ts
    let (type, r) := readType r
    let (constraints, r) ← readConstraints? fuel [] r
    let c : ColumnDef := ⟨name, " ".intercalate type, constraints⟩
    match r with
    | .symbol ',' :: r => readColumnDefs? n (c :: before) r
    | _ => return ((c :: before).reverse, r)

/-- A new table after its keywords. -/
def readNewTable? (fuel : Nat) (unlessExists : Bool) (ts : List Token) :
    Option (Statement × List Token) := do
  let (t, r) ← readTableName? ts
  let r ← expect (.symbol '(') r
  let (columns, r) ← readColumnDefs? fuel [] r
  let r ← expect (.symbol ')') r
  return (.createTable unlessExists t columns, r)

/-- Assignments with commas between them. -/
def readAssignments? (fuel : Nat) (before : List (Part × Expr)) (ts : List Token) :
    Option (List (Part × Expr) × List Token) :=
  match fuel with
  | 0 => none
  | n + 1 => do
    let (c, r) ← readPart? ts
    let r ← expect .equal r
    let (e, r) ← readExpr? fuel r
    match r with
    | .symbol ',' :: r => readAssignments? n ((c, e) :: before) r
    | _ => return (((c, e) :: before).reverse, r)

/-- The rest of an insertion behind its table. -/
def readInsertion? (fuel : Nat) (table : Identifier) (ts : List Token) :
    Option (Statement × List Token) :=
  match ts with
  | .keyword .default :: .keyword .values :: r => some (.insertDefault table, r)
  | .keyword .select :: _ => do
    let (q, r) ← readSelect? fuel ts
    return (.insertQuery table (.select q), r)
  | .keyword .values :: r => do
    let (rows, r) ← readTuples? fuel [] r
    return (.insert table [] rows, r)
  | .symbol '(' :: r => do
    let (columns, r) ← readPartsAfter? [] r
    let r ← expect (.symbol ')') r
    let r ← expectWord .values r
    let (rows, r) ← readTuples? fuel [] r
    return (.insert table columns rows, r)
  | _ => none

/-- A statement at the front of some tokens. -/
def readStatement? (fuel : Nat) (ts : List Token) : Option (Statement × List Token) :=
  match ts with
  | .keyword .select :: _ => do
    let (q, r) ← readSelect? fuel ts
    return (.select q, r)
  | .keyword .insert :: .keyword .into :: r => do
    let (t, r) ← readTableName? r
    readInsertion? fuel t r
  | .keyword .update :: r => do
    let (t, r) ← readTableName? r
    let r ← expectWord .set r
    let (assignments, r) ← readAssignments? fuel [] r
    let (source, r) ← match r with
      | .keyword .from :: r => do
        let (s, r) ← readTableName? r
        let r ← expectWord .as r
        let (a, r) ← readPart? r
        some (some (s, a), r)
      | r => some (none, r)
    let (condition, r) ← readWhere? fuel r
    return (.update t assignments source condition, r)
  | .keyword .delete :: .keyword .from :: r => do
    let (t, r) ← readTableName? r
    let (condition, r) ← readWhere? fuel r
    return (.delete t condition, r)
  | .keyword .create :: .keyword .table :: .keyword .if :: .keyword .not :: .keyword .exists :: r =>
    readNewTable? fuel true r
  | .keyword .create :: .keyword .table :: r => readNewTable? fuel false r
  | .keyword .create :: .word w :: .keyword .table :: r => do
    if w.toUpper ≠ "TEMPORARY" ∧ w.toUpper ≠ "TEMP" then none
    let (t, r) ← readPart? r
    let r ← expectWord .as r
    let (q, r) ← readSelect? fuel r
    return (.createTemporary t (.select q), r)
  | .keyword .drop :: .keyword .table :: .keyword .if :: .keyword .exists :: r => do
    let (t, r) ← readTableName? r
    return (.dropTable true t, r)
  | .keyword .drop :: .keyword .table :: r => do
    let (t, r) ← readTableName? r
    return (.dropTable false t, r)
  | .keyword .begin :: .keyword .transaction :: r => some (.begin, r)
  | .keyword .begin :: r => some (.begin, r)
  | .keyword .commit :: r => some (.commit, r)
  | .keyword .end :: r => some (.commit, r)
  | .keyword .rollback :: r => some (.rollback, r)
  | _ => none

/-- The statement that some tokens are. Eight steps of nesting per token are more than any
statement needs. -/
def ofTokens? (ts : List Token) : Option Statement :=
  match readStatement? (8 * ts.length + 8) ts with
  | some (s, []) => some s
  | _ => none

/-- Number the parameters that have no number: each takes the next after the largest before it. -/
def numberParams (largest : Nat) : List Token → List Token
  | [] => []
  | .param none :: r => .param (some (largest + 1)) :: numberParams (largest + 1) r
  | .param (some n) :: r => .param (some n) :: numberParams (max largest n) r
  | t :: r => t :: numberParams largest r

/-- Tokens cut at semicolons, behind those of a statement already begun, which stand in reverse.
Pieces without tokens are dropped. -/
def splitStatements (begun : List Token) : List Token → List (List Token)
  | [] => if begun.isEmpty then [] else [begun.reverse]
  | .symbol ';' :: r =>
    if begun.isEmpty then splitStatements [] r else begun.reverse :: splitStatements [] r
  | t :: r => splitStatements (t :: begun) r

/-- The statements of a script; one that cannot be read is missing. -/
def readScript (text : String) : List (Option Statement) :=
  (splitStatements [] (Token.scan text)).map fun ts => ofTokens? (numberParams 0 ts)

end StagedStore.Sql
