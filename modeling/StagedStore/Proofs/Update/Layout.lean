import Mathlib.Data.List.Sublists
import StagedStore.Proofs.Literal
import StagedStore.Proofs.Schema.Keys
import StagedStore.Proofs.Update.Compile

/-!
# The table that a batch is laid out as

A batch is compiled unless two of its change sets have the same key in storage form. The columns of
the plan are the key and the fields of all calls in the order of their first mention, and each row
has one cell for every column, which the last call for its field decides.
-/

namespace StagedStore

variable {ε : Type} {s : Schema} {p : Plan}

/-- Two of some keys have this storage form. -/
def Schema.KeyTwice (s : Schema) (keys : List Value) (k : Storage) : Prop :=
  ∃ v w, [v, w].Sublist keys ∧ s.primaryKey.encode v = .ok k ∧ s.primaryKey.encode w = .ok k

/-! ## Batches of calls -/

/-- The calls that are to change one entity. -/
structure Called (ε : Type) where
  key : Value
  calls : List (String × Delta)
  item : ε

namespace Called

/-- The change set of calls, checked. -/
def build (s : Schema) (x : Called ε) : Except Error (ChangeSet ε) :=
  ChangeSet.new s x.key (.ofCalls x.calls) x.item

/-- The last call for a field. -/
def last? (x : Called ε) (field : String) : Option Delta :=
  x.calls.reverse.lookup field

/-- A change set was built by calls. -/
structure Builds (s : Schema) (x : Called ε) (c : ChangeSet ε) : Prop where
  key : c.key = x.key
  changes : c.changes = .ofCalls x.calls
  encodes : ∃ k, s.primaryKey.encode x.key = .ok k
  checked : c.Checked s

theorem builds_of_build {x : Called ε} {c : ChangeSet ε} (h : x.build s = .ok c) :
    x.Builds s c := by
  have hchecked := ChangeSet.checked_of_new h
  unfold build ChangeSet.new at h
  split at h
  · simp at h
  · obtain ⟨k, hk, h⟩ := Except.bind_eq_ok_iff.1 h
    obtain ⟨⟨⟩, -, h⟩ := Except.bind_eq_ok_iff.1 h
    obtain rfl := Except.ok.inj h
    exact ⟨rfl, rfl, ⟨k, hk⟩, hchecked⟩

end Called

/-! ## Cells -/

/-- The cell that the last call for a field leaves. -/
inductive Cell.FromLast (f : Field) : Option Delta → Cell → Prop
  | untouched : FromLast f none .untouched
  | set {v : Value} {w : Storage} (h : f.encode v = .ok w) : FromLast f (some (.set v)) (.value w)
  | unset : FromLast f (some .unset) (.value .null)
  | increment {a : Value} {w : Storage} (h : f.encode a = .ok w) :
      FromLast f (some (.increment a)) (.increment w)

theorem Cell.fromLast_of_ofDelta {f : Field} {d : Delta} {c : Cell} (h : ofDelta f d = .ok c) :
    FromLast f (some d) c := by
  cases d with
  | set v =>
      obtain ⟨w, hw, h⟩ := Except.bind_eq_ok_iff.1 h
      obtain rfl := Except.ok.inj h
      exact .set hw
  | unset =>
      obtain rfl := Except.ok.inj h
      exact .unset
  | increment a =>
      obtain ⟨w, hw, h⟩ := Except.bind_eq_ok_iff.1 h
      obtain rfl := Except.ok.inj h
      exact .increment hw

/-- A delta that its field takes has a storage form. -/
theorem Cell.exists_ofDelta {f : Field} {d : Delta} (h : d.check f = .ok ()) :
    ∃ c, ofDelta f d = .ok c := by
  cases d with
  | set v =>
      obtain ⟨w, hw, -⟩ := Except.bind_eq_ok_iff.1 h
      exact ⟨.value w, by rw [ofDelta, hw]; rfl⟩
  | unset => exact ⟨.value .null, rfl⟩
  | increment a =>
      have hcheck : ∃ w, f.encode a = .ok w := by
        unfold Delta.check at h
        dsimp only at h
        split at h
        · cases h
        · split at h
          · cases h
          · obtain ⟨w, hw, -⟩ := Except.bind_eq_ok_iff.1 h
            exact ⟨w, hw⟩
      obtain ⟨w, hw⟩ := hcheck
      exact ⟨.increment w, by rw [ofDelta, hw]; rfl⟩

namespace Plan

/-- A row as it stands under the columns: the key, then a cell for each field. -/
def layout (p : Plan) (r : PlanRow) : List Cell :=
  .value r.key :: p.fields.map r.cell

/-- The planned rows are the rows as they stand under the columns. -/
theorem bindRow_eq (p : Plan) (r : PlanRow) : p.bindRow r = (p.layout r).mapM bindCell := by
  rw [layout, List.mapM_cons, List.mapM_map]
  rfl

end Plan

/-- Under a column stands what the last call for its field says. -/
def Called.Gives (s : Schema) (x : Called ε) (name : String) (c : Cell) : Prop :=
  ∃ f, s.requireField name = .ok f ∧ Cell.FromLast f (x.last? name) c

/-- A row has the key of its calls and what they say of each field. -/
def Called.Fills (s : Schema) (p : Plan) (x : Called ε) (row : List Cell) : Prop :=
  ∃ k cells, s.primaryKey.encode x.key = .ok k ∧ row = .value k :: cells ∧
    List.Forall₂ (x.Gives s) p.fields cells

/-- A plan lays the calls of a batch out as a table. -/
structure Plan.LaysOut (s : Schema) (batch : List (Called ε)) (p : Plan) : Prop where
  columns : p.columns =
    s.primaryKey.name :: (batch.flatMap fun x => x.calls.map Prod.fst).eraseDups
  columns_nodup : p.columns.Nodup
  fields : p.fields = p.columns.tail
  rows : List.Forall₂ (fun x r => x.Fills s p (p.layout r)) batch p.rows
  width : ∀ r ∈ p.rows, (p.layout r).length = p.columns.length
  hasReturning : p.hasReturning = true ↔
    ∃ x ∈ batch, ∃ name a, x.last? name = some (.increment a)
  isNoop : p.isNoop = true ↔ ∀ x ∈ batch, x.calls = []

/-! ## What is refused -/

namespace Plan

theorem compileRow_cases {c : ChangeSet ε} (hc : c.Checked s) {k : Storage}
    (hk : s.primaryKey.encode c.key = .ok k) (seen : Std.HashSet String) :
    (seen.contains k.literal = true ∧
      compileRow s c seen = .error (.validation (.repeatedKey k.literal))) ∨
    ∃ r, compileRow s c seen = .ok (r, seen.insert k.literal) := by
  unfold compileRow
  rw [hk, Except.ok_bind]
  by_cases hseen : seen.contains k.literal = true
  · exact .inl ⟨hseen, by simp [hseen]⟩
  · have hcells : ∀ d ∈ c.changes.entries, ∃ x, (do
        let f ← s.requireField d.1
        return (d.1, ← Cell.ofDelta f d.2) : Except Error (String × Cell)) = .ok x := by
      intro d hd
      obtain ⟨-, f, hf, hcheck⟩ := hc.entries d hd
      obtain ⟨x, hx⟩ := Cell.exists_ofDelta hcheck
      exact ⟨(d.1, x), by rw [hf, Except.ok_bind, hx]; rfl⟩
    obtain ⟨cells, hcells⟩ := Except.exists_mapM_eq_ok hcells
    refine .inr ⟨⟨k, cells⟩, ?_⟩
    simp only [hseen, Bool.false_eq_true, if_false]
    rw [hcells]
    rfl

theorem compileRows_cons (c : ChangeSet ε) (sets : List (ChangeSet ε))
    (seen : Std.HashSet String) :
    ((c :: sets).mapM (compileRow s)).run seen = (do
      let (r, seen) ← compileRow s c seen
      let (rs, seen) ← (sets.mapM (compileRow s)).run seen
      return (r :: rs, seen)) := by
  rw [List.mapM_cons, StateT.run_bind]
  rfl

/-- Rows are compiled up to the first key whose literal was met before. -/
theorem compileRows_cases {sets : List (ChangeSet ε)}
    (hsets : ∀ c ∈ sets, c.Checked s ∧ ∃ k, s.primaryKey.encode c.key = .ok k)
    (seen : Std.HashSet String) :
    (∃ out, (sets.mapM (compileRow s)).run seen = .ok out) ∨
    ∃ before c after k, sets = before ++ c :: after ∧ s.primaryKey.encode c.key = .ok k ∧
      (sets.mapM (compileRow s)).run seen = .error (.validation (.repeatedKey k.literal)) ∧
      (seen.contains k.literal = true ∨
        ∃ d ∈ before, ∃ l, s.primaryKey.encode d.key = .ok l ∧ l.literal = k.literal) := by
  induction sets generalizing seen with
  | nil => exact .inl ⟨_, rfl⟩
  | cons c sets ih =>
      obtain ⟨⟨hc, k, hk⟩, hsets⟩ := List.forall_mem_cons.1 hsets
      rw [compileRows_cons]
      rcases compileRow_cases hc hk seen with ⟨hseen, herror⟩ | ⟨r, hr⟩
      · exact .inr ⟨[], c, sets, k, rfl, hk, by rw [herror]; rfl, .inl hseen⟩
      · rw [hr, Except.ok_bind]
        dsimp only
        rcases ih hsets (seen.insert k.literal) with ⟨out, hout⟩ |
          ⟨before, d, after, l, rfl, hl, herror, hmet⟩
        · exact .inl ⟨_, by rw [hout]; rfl⟩
        · refine .inr ⟨c :: before, d, after, l, rfl, hl, by rw [herror]; rfl, ?_⟩
          rcases hmet with hmet | ⟨d', hd', hmet⟩
          · rw [Std.HashSet.contains_insert, Bool.or_eq_true, beq_iff_eq] at hmet
            rcases hmet with hmet | hmet
            · exact .inr ⟨c, List.mem_cons_self, k, hk, hmet⟩
            · exact .inl hmet
          · exact .inr ⟨d', List.mem_cons_of_mem c hd', hmet⟩

/-- What is refused is a key that has the literal of another. -/
theorem literalTwice_of_error {sets : List (ChangeSet ε)}
    (hsets : ∀ c ∈ sets, c.Checked s ∧ ∃ k, s.primaryKey.encode c.key = .ok k) {e : Error}
    (h : compile s sets = .error e) :
    ∃ d c l k, [d, c].Sublist sets ∧ s.primaryKey.encode d.key = .ok l ∧
      s.primaryKey.encode c.key = .ok k ∧ l.literal = k.literal ∧
      e = .validation (.repeatedKey k.literal) := by
  unfold compile at h
  rcases compileRows_cases hsets {} with ⟨out, hout⟩ |
    ⟨before, c, after, k, rfl, hk, herror, hmet⟩
  · rw [hout] at h
    cases h
  · rw [herror] at h
    obtain rfl := Except.error.inj h
    rcases hmet with hmet | ⟨d, hd, l, hl, hliteral⟩
    · simp at hmet
    · have hbefore : [d].Sublist before := List.singleton_sublist.2 hd
      have hafter : [c].Sublist (c :: after) := List.singleton_sublist.2 List.mem_cons_self
      exact ⟨d, c, l, k, hbefore.append hafter, hl, hk, hliteral, rfl⟩

/-- What is refused is a key that has the storage form of another. -/
theorem keyTwice_of_error (hkind : s.primaryKey.kind ≠ .real) {sets : List (ChangeSet ε)}
    (hsets : ∀ c ∈ sets, c.Checked s ∧ ∃ k, s.primaryKey.encode c.key = .ok k) {e : Error}
    (h : compile s sets = .error e) :
    ∃ k, s.KeyTwice (sets.map ChangeSet.key) k ∧ e = .validation (.repeatedKey k.literal) := by
  obtain ⟨d, c, l, k, hsub, hl, hk, hliteral, rfl⟩ := literalTwice_of_error hsets h
  have hwrites := Schema.store_of_writes hkind (Schema.writes_of_encode hk)
  obtain rfl := Storage.eq_of_literal_eq hwrites.2.1 hwrites.1 hliteral
  exact ⟨l, ⟨d.key, c.key, hsub.map ChangeSet.key, hl, hk⟩, rfl⟩

/-- The rows of a plan have different literals. -/
theorem Compiled.literal_ne {sets : List (ChangeSet ε)} (h : p.Compiled s sets)
    {d c : ChangeSet ε} {l k : Storage} (hsub : [d, c].Sublist sets)
    (hl : s.primaryKey.encode d.key = .ok l) (hk : s.primaryKey.encode c.key = .ok k) :
    l.literal ≠ k.literal := by
  have hliterals : sets.map (fun c => (s.primaryKey.encode c.key).map Storage.literal) =
      (p.rows.map fun r => r.key.literal).map .ok := by
    rw [List.map_map]
    exact List.Forall₂.map_eq_map (h.rows.imp fun c r hof => by rw [hof.key]; rfl)
  have htwice := hsub.map fun c => (s.primaryKey.encode c.key).map Storage.literal
  rw [hliterals, List.map_cons, List.map_singleton, hl, hk] at htwice
  have hnodup := (h.literals_nodup.map fun _ _ => Except.ok.inj).sublist htwice
  intro he
  simp [Except.map, he] at hnodup

/-- The rows of a plan have different keys. -/
theorem Compiled.not_keyTwice {sets : List (ChangeSet ε)} (h : p.Compiled s sets) (k : Storage) :
    ¬ s.KeyTwice (sets.map ChangeSet.key) k := by
  rintro ⟨v, w, hsub, hv, hw⟩
  obtain ⟨two, hsub, htwo⟩ := List.sublist_map_iff.1 hsub
  obtain ⟨d, rest, rfl, rfl, hrest⟩ := List.map_eq_cons_iff.1 htwo.symm
  obtain ⟨c, rest, rfl, rfl, hnil⟩ := List.map_eq_cons_iff.1 hrest
  obtain rfl := List.map_eq_nil_iff.1 hnil
  exact h.literal_ne hsub hv hw rfl

theorem exists_compile (hkind : s.primaryKey.kind ≠ .real) {sets : List (ChangeSet ε)}
    (hsets : ∀ c ∈ sets, c.Checked s ∧ ∃ k, s.primaryKey.encode c.key = .ok k)
    (hno : ¬ ∃ k, s.KeyTwice (sets.map ChangeSet.key) k) : ∃ p, compile s sets = .ok p := by
  cases h : compile s sets with
  | error e =>
      obtain ⟨k, hk, -⟩ := keyTwice_of_error hkind hsets h
      exact absurd ⟨k, hk⟩ hno
  | ok p => exact ⟨p, rfl⟩

/-! ## What is laid out -/

section

variable {batch : List (Called ε)} {sets : List (ChangeSet ε)} {x : Called ε} {c : ChangeSet ε}
  {r : PlanRow}

theorem names_of_builds (hx : x.Builds s c) (hof : r.Of s c) :
    r.cells.map Prod.fst = (x.calls.map Prod.fst).eraseDups := by
  rw [hof.map_fst, hx.changes, Changes.map_fst_ofCalls]

/-- A row increments the fields whose last call is an increment. -/
theorem incremented_of_builds (hx : x.Builds s c) (hof : r.Of s c) (name : String) :
    name ∈ r.incremented ↔ ∃ a, x.last? name = some (.increment a) := by
  rw [hof.incremented_eq, Changes.mem_incremented, Called.last?, ← Changes.get?_ofCalls,
    ← hx.changes]
  constructor
  · rintro ⟨a, ha⟩
    exact ⟨a, Changes.get?_of_mem ha⟩
  · rintro ⟨a, ha⟩
    exact ⟨a, Changes.mem_of_get? ha⟩

theorem Compiled.fills (h : p.Compiled s sets) (hchecked : ∀ c ∈ sets, c.Checked s)
    (hx : x.Builds s c) (hof : r.Of s c) : x.Fills s p (p.layout r) := by
  refine ⟨r.key, p.fields.map r.cell, by rw [← hx.key]; exact hof.key, rfl, ?_⟩
  rw [List.forall₂_map_right_iff, List.forall₂_same]
  intro n hn
  have hcell := hof.cell n
  rw [hx.changes, Changes.get?_ofCalls] at hcell
  rcases hcell with ⟨hnone, hcell⟩ | ⟨d, f, hd, hf, hcell⟩
  · obtain ⟨c', hc', d, hd, rfl⟩ := h.exists_of_mem_fields hn
    obtain ⟨-, f, hf, -⟩ := (hchecked c' hc').entries d hd
    exact ⟨f, hf, by rw [Called.last?, hnone, hcell]; exact .untouched⟩
  · exact ⟨f, hf, by rw [Called.last?, hd]; exact Cell.fromLast_of_ofDelta hcell⟩

/-- The plan of a batch lays its calls out. -/
theorem Compiled.laysOut (h : p.Compiled s sets)
    (hbatch : List.Forall₂ (Called.Builds s) batch sets) : p.LaysOut s batch := by
  have hchecked : ∀ c ∈ sets, c.Checked s := by
    intro c hc
    obtain ⟨x, -, hx⟩ := hbatch.exists_left hc
    exact hx.checked
  have hrows := hbatch.comp h.rows
  have hfields : p.fields = (batch.flatMap fun x => x.calls.map Prod.fst).eraseDups := by
    have hnames : p.rows.map (fun r => r.cells.map Prod.fst) =
        (batch.map fun x => x.calls.map Prod.fst).map List.eraseDups := by
      rw [List.map_map]
      refine (List.Forall₂.map_eq_map (hrows.imp ?_)).symm
      rintro x r ⟨c, -, hx, hof⟩
      exact (names_of_builds hx hof).symm
    rw [h.fields, List.flatMap_def, hnames, ← List.flatMap_def, eraseDups_flatMap_eraseDups,
      List.flatMap_def]
  have hkey : s.primaryKey.name ∉ p.fields := by
    intro hin
    obtain ⟨c, hc, d, hd, hname⟩ := h.exists_of_mem_fields hin
    exact ((hchecked c hc).entries d hd).1 hname
  refine ⟨?_, ?_, rfl, ?_, ?_, ?_, ?_⟩
  · rw [columns, h.key, hfields]
  · rw [columns, h.key, List.nodup_cons]
    exact ⟨hkey, h.fields_nodup⟩
  · refine hrows.imp ?_
    rintro x r ⟨c, -, hx, hof⟩
    exact h.fills hchecked hx hof
  · intro r _
    simp [layout, columns]
  · rw [hasReturning, List.any_eq_true]
    simp only [Bool.not_eq_true', List.isEmpty_eq_false_iff_exists_mem]
    constructor
    · rintro ⟨r, hr, name, hname⟩
      obtain ⟨x, hx, c, -, hbuilds, hof⟩ := hrows.exists_left hr
      obtain ⟨a, ha⟩ := (incremented_of_builds hbuilds hof name).1 hname
      exact ⟨x, hx, name, a, ha⟩
    · rintro ⟨x, hx, name, a, ha⟩
      obtain ⟨r, hr, c, -, hbuilds, hof⟩ := hrows.exists_right hx
      exact ⟨r, hr, name, (incremented_of_builds hbuilds hof name).2 ⟨a, ha⟩⟩
  · rw [isNoop, Bool.or_eq_true, List.isEmpty_iff, List.isEmpty_iff]
    have hnone : p.fields = [] ↔ ∀ x ∈ batch, x.calls = [] := by
      rw [hfields, eraseDups_eq_nil, List.flatMap_eq_nil_iff]
      simp only [List.map_eq_nil_iff]
    rw [hnone, or_iff_left_iff_imp]
    intro hnil x hx
    obtain ⟨r, hr, -⟩ := hrows.exists_right hx
    rw [hnil] at hr
    cases hr

end

/-- Two change sets for one key are what compilation refuses. Otherwise the plan lays out, for each
change set and each touched field, what the last call for the field says. -/
theorem compile_lays_out_last_calls (hkind : s.primaryKey.kind ≠ .real) {batch : List (Called ε)}
    {sets : List (ChangeSet ε)} (hsets : batch.mapM (Called.build s) = .ok sets) :
    ((∃ e, compile s sets = .error e) ↔ ∃ k, s.KeyTwice (batch.map Called.key) k) ∧
    (∀ e, compile s sets = .error e →
      ∃ k, s.KeyTwice (batch.map Called.key) k ∧ e = .validation (.repeatedKey k.literal)) ∧
    ((¬ ∃ k, s.KeyTwice (batch.map Called.key) k) →
      ∃ p, compile s sets = .ok p ∧ p.LaysOut s batch) := by
  have hbatch : List.Forall₂ (Called.Builds s) batch sets :=
    (Except.mapM_eq_ok_iff.1 hsets).imp fun x c h => Called.builds_of_build h
  have hkeys : batch.map Called.key = sets.map ChangeSet.key :=
    List.Forall₂.map_eq_map (hbatch.imp fun x c hx => hx.key.symm)
  have hmade : ∀ c ∈ sets, c.Checked s ∧ ∃ k, s.primaryKey.encode c.key = .ok k := by
    intro c hc
    obtain ⟨x, -, hx⟩ := hbatch.exists_left hc
    exact ⟨hx.checked, hx.key ▸ hx.encodes⟩
  have herror {e : Error} (h : compile s sets = .error e) := keyTwice_of_error hkind hmade h
  rw [hkeys]
  refine ⟨⟨fun ⟨e, h⟩ => ?_, fun ⟨k, hk⟩ => ?_⟩, fun e h => herror h, fun hno => ?_⟩
  · obtain ⟨k, hk, -⟩ := herror h
    exact ⟨k, hk⟩
  · cases h : compile s sets with
    | error e => exact ⟨e, rfl⟩
    | ok p => exact absurd hk ((compiled_of_compile h).not_keyTwice k)
  · obtain ⟨p, h⟩ := exists_compile hkind hmade hno
    exact ⟨p, h, (compiled_of_compile h).laysOut hbatch⟩

end Plan

namespace Padded

def schema : Schema where
  table := .ofPart (.bare "t")
  fields := [⟨"id", .integer, false⟩, ⟨"x", .integer, true⟩, ⟨"y", .text, true⟩]
  primaryKey := ⟨"id", .integer, false⟩
  autoIncrement := false
  names_nodup := by decide
  names_valid := by decide +kernel
  key_mem := by decide
  key_required := Eq.refl false
  generated_integer := fun _ => Eq.refl FieldKind.integer

def first : Called Record :=
  ⟨.integer 2, [("y", .set (.text "a")), ("x", .increment (.integer 1)), ("y", .unset)], .empty⟩

/-- A member whose key is stored as the number one. -/
def second : Called Record :=
  ⟨.bool true, [("x", .set (.integer 7))], .empty⟩

def third : Called Record :=
  ⟨.integer 1, [], .empty⟩

/-- The change set of calls, as it is when the schema takes them. -/
def set (x : Called Record) : ChangeSet Record :=
  ⟨x.key, .ofCalls x.calls, x.item⟩

theorem build_members : [first, second, third].mapM (Called.build schema) =
    .ok [set first, set second, set third] := by
  with_unfolding_all rfl

theorem build_two : [first, second].mapM (Called.build schema) =
    .ok [set first, set second] := by
  with_unfolding_all rfl

theorem not_keyTwice (k : Storage) : ¬ schema.KeyTwice [first.key, second.key] k := by
  rintro ⟨v, w, hsub, hv, hw⟩
  obtain ⟨rfl, hw'⟩ := List.cons.inj (hsub.eq_of_length rfl)
  obtain ⟨rfl, -⟩ := List.cons.inj hw'
  have hboth : (Except.ok (.integer 2) : Except Error Storage) = .ok (.integer 1) :=
    hv.trans hw.symm
  simp at hboth

end Padded

open Padded in
/-- The second row is padded in the column that it does not mention. With a third member, whose key
is stored as the second one's, the batch is refused. -/
theorem Plan.compile_lays_out_last_calls_of_three :
    schema.primaryKey.kind ≠ .real ∧
    (∃ sets p, [first, second].mapM (Called.build schema) = .ok sets ∧
      compile schema sets = .ok p ∧ p.LaysOut schema [first, second] ∧
      p.columns = ["id", "y", "x"]) ∧
    ∃ sets e, [first, second, third].mapM (Called.build schema) = .ok sets ∧
      compile schema sets = .error e := by
  have hkind : schema.primaryKey.kind ≠ .real := by decide
  refine ⟨hkind, ?_, ?_⟩
  · obtain ⟨-, -, hok⟩ := compile_lays_out_last_calls hkind build_two
    obtain ⟨p, hp, hlaid⟩ := hok fun ⟨k, hk⟩ => not_keyTwice k hk
    exact ⟨_, p, build_two, hp, hlaid, hlaid.columns.trans (by decide)⟩
  · obtain ⟨hiff, -, -⟩ := compile_lays_out_last_calls hkind build_members
    obtain ⟨e, he⟩ := hiff.2 ⟨.integer 1, second.key, third.key,
      (List.Sublist.refl _).cons first.key, rfl, rfl⟩
    exact ⟨_, e, build_members, he⟩

end StagedStore
