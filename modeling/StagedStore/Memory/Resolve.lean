import StagedStore.Database.Fault
import StagedStore.Memory.Term

/-!
# Resolving names

`Resolver.resolve` turns an expression into a term. A name means a column of a table in scope,
compared without regard to the case of ASCII letters; where none has it, `rowid` means the hidden
key of a table, then the name of a result column that result. A quoted name that means nothing is a
text.
-/

namespace StagedStore

/-- A name in the form in which names are compared. -/
def foldName (name : String) : String :=
  name.map Char.toLower

/-- A place in the rows of a source. -/
structure Slot where
  /-- The table or alias that the place belongs to, if it has a name. -/
  source : Option String
  /-- The column as it was declared. -/
  name : String
  /-- The column's name in folded form. -/
  key : String
  affinity : Affinity
  /-- The place holds the hidden key. -/
  isHidden : Bool

/-- The place of a column. -/
def Slot.ofColumn (source : Option String) (name : String) (f : Affinity) : Slot :=
  ⟨source.map foldName, name, foldName name, f, false⟩

/-- The place of the hidden key of a table. -/
def Slot.hidden (source : String) : Slot :=
  ⟨some (foldName source), "rowid", "rowid", .integer, true⟩

/-- A term and the affinity it is compared with. -/
structure Resolved where
  term : Term
  affinity : Affinity

/-- What an expression is resolved against. -/
structure Resolver where
  slots : List Slot
  /-- Result columns by their folded aliases. -/
  aliases : List (String × Resolved)
  params : Array Storage
  /-- The key inserted last. -/
  lastKey : Int64
  /-- The cells of a column of a table, with the column's affinity. -/
  column : Identifier → Part → Except Fault (Affinity × List Storage)

namespace Resolver

/-- The names of the hidden key. -/
def hiddenNames : List String := ["rowid", "oid", "_rowid_"]

/-- The places that a test picks, counted from `i`. -/
def placesFrom (p : Slot → Bool) (i : Nat) : List Slot → List (Slot × Nat)
  | [] => []
  | s :: r => if p s then (s, i) :: placesFrom p (i + 1) r else placesFrom p (i + 1) r

/-- Whether a place belongs to a source of a folded name; without a name every place does. -/
def inSource (source : Option String) (s : Slot) : Bool :=
  match source with
  | none => true
  | some q => s.source = some q

/-- The place that a name means, if there is one. -/
def place? (r : Resolver) (qualifier : Option Part) (name : String) :
    Except Fault (Option (Slot × Nat)) :=
  let key := foldName name
  let source := qualifier.map fun q => foldName q.name
  match placesFrom (fun s => s.key = key && !s.isHidden && inSource source s) 0 r.slots with
  | [p] => .ok (some p)
  | _ :: _ => .error (.ambiguousName name)
  | [] =>
    if hiddenNames.contains key then
      match placesFrom (fun s => s.isHidden && inSource source s) 0 r.slots with
      | [p] => .ok (some p)
      | _ :: _ => .error (.ambiguousName name)
      | [] => .ok none
    else .ok none

/-- A name in an expression. -/
def resolveName (r : Resolver) (qualifier : Option Part) (name : Part) :
    Except Fault Resolved := do
  match ← r.place? qualifier name.name with
  | some (s, i) => return ⟨.slot i, s.affinity⟩
  | none =>
    match qualifier with
    | some q => throw (.unknownName (q.name ++ "." ++ name.name))
    | none =>
      match r.aliases.lookup (foldName name.name), name with
      | some a, _ => return a
      | none, .quoted s => return ⟨.cell (.text s), .none⟩
      | none, .bare s => throw (.unknownName s)

/-- The cell bound to a parameter. -/
def param (r : Resolver) (n : Nat) : Storage :=
  ((r.params[n - 1]?).getD .null).bound

mutual

/-- The term of an expression. -/
def resolve (r : Resolver) : Sql.Expr → Except Fault Resolved
  | .literal v => .ok ⟨.cell v, .none⟩
  | .param (some n) => .ok ⟨.cell (r.param n), .none⟩
  | .param none => .error .malformed
  | .column q n => r.resolveName q n
  | .paren e => resolve r e
  | .add a b => do
    let a ← resolve r a
    let b ← resolve r b
    return ⟨.add a.term b.term, .none⟩
  | .compare op a b => do
    let a ← resolve r a
    let b ← resolve r b
    return ⟨.compare op (a.affinity.forComparison b.affinity) a.term b.term, .none⟩
  | .like negated a p => do
    let a ← resolve r a
    let p ← resolve r p
    return ⟨.negatedIf negated (.like a.term p.term), .none⟩
  | .nullCheck negated a => do
    let a ← resolve r a
    return ⟨.negatedIf negated (.isNull a.term), .none⟩
  | .between negated a low high => do
    let a ← resolve r a
    let low ← resolve r low
    let high ← resolve r high
    let above := Term.compare .ge (a.affinity.forComparison low.affinity) a.term low.term
    let below := Term.compare .le (a.affinity.forComparison high.affinity) a.term high.term
    return ⟨.negatedIf negated (.and above below), .none⟩
  | .inList negated a ms => do
    let a ← resolve r a
    let ms ← resolveAll r ms
    return ⟨.negatedIf negated (.ofMembers a.affinity a.term ms), .none⟩
  | .inTable negated a c t => do
    let a ← resolve r a
    let (f, cells) ← r.column t c
    let f := a.affinity.forComparison f
    return ⟨.negatedIf negated (.inSet f a.term (.ofList f cells)), .none⟩
  | .not e => return ⟨.not (← resolve r e).term, .none⟩
  | .and a b => do
    let a ← resolve r a
    let b ← resolve r b
    return ⟨.and a.term b.term, .none⟩
  | .or a b => do
    let a ← resolve r a
    let b ← resolve r b
    return ⟨.or a.term b.term, .none⟩
  | .choose arms e => do
    let arms ← resolveArms r arms
    return ⟨.choose arms (← resolve r e).term, .none⟩
  | .call f args =>
    if foldName f = "last_insert_rowid" && args.isEmpty then .ok ⟨.cell (.integer r.lastKey), .none⟩
    else .error (.noSuchFunction f)
  | .countAll => .error .misplacedCount
  | .fragment _ => .error .malformed

def resolveAll (r : Resolver) : List Sql.Expr → Except Fault (List Term)
  | [] => .ok []
  | e :: es => do
    let e ← resolve r e
    return e.term :: (← resolveAll r es)

def resolveArms (r : Resolver) : List (Sql.Expr × Sql.Expr) → Except Fault (List (Term × Term))
  | [] => .ok []
  | (c, e) :: arms => do
    let c ← resolve r c
    let e ← resolve r e
    return (c.term, e.term) :: (← resolveArms r arms)

end

/-- A condition; a missing one always holds. -/
def resolveCondition (r : Resolver) (e : Option Sql.Expr) : Except Fault Term :=
  match e with
  | none => .ok (.cell (.ofBool true))
  | some e => (r.resolve e).map Resolved.term

end Resolver

end StagedStore
