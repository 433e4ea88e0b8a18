import StagedStore.Proofs.Calendar.Order
import StagedStore.Proofs.Schema.Codec
import StagedStore.Proofs.Store.Ordered

/-!
# Times in filters

A field of timestamps keeps texts, and a store compares texts. As these stand as the times do, a range
of times in a filter is a range of texts, and an ordering by the field is one by time.
-/

namespace StagedStore

open Memory MemoryDatabase Sql

/-- The comparison that an operator makes; none for a pattern. -/
def TestOp.comparison? : TestOp → Option Comparison
  | .eq => some .eq
  | .ne => some .ne
  | .gt => some .gt
  | .ge => some .ge
  | .lt => some .lt
  | .le => some .le
  | .like => none
  | .notLike => none

theorem TestOp.verdict_of_comparison? {op : TestOp} {c : Comparison} (h : op.comparison? = some c)
    (f : Affinity) (a b : Storage) : op.verdict f a b = (a.compareBy c f b).truth? := by
  cases op <;> cases h <;> rfl

/-- A row has a time with a year of four digits in a field of timestamps. -/
structure Schema.HoldsTime (s : Schema) (name : String) (e : Entry) (u : Timestamp) : Prop where
  field : ∃ g, s.requireField name = .ok g ∧ g.kind = .timestamp ∧
    g.encode (.timestamp u) = .ok (s.fieldCell name e)
  legible : (Value.timestamp u).Legible

namespace Schema.HoldsTime

variable {s : Schema} {name : String} {e e' : Entry} {u v : Timestamp}

theorem fieldCell_eq (h : s.HoldsTime name e u) : s.fieldCell name e = .text u.toStorageText := by
  obtain ⟨g, -, hkind, hencode⟩ := h.field
  have htext : g.encode (.timestamp u) = .ok (.text u.toStorageText) :=
    Field.encode_of_encodeKind? rfl (by rw [hkind]; rfl)
  exact Except.ok.inj (hencode.symm.trans htext)

theorem fieldAffinity_eq (h : s.HoldsTime name e u) : s.fieldAffinity name = .text := by
  obtain ⟨g, hg, hkind, -⟩ := h.field
  rw [Schema.fieldAffinity_eq hg, Field.affinity, hkind]
  rfl

/-- A comparison with a time is true if it is so of the times, and false otherwise. -/
theorem verdict_eq (h : s.HoldsTime name e u) (hv : (Value.timestamp v).Legible) {op : TestOp}
    {c : Comparison} (hop : op.comparison? = some c) :
    op.verdict (s.fieldAffinity name) (s.fieldCell name e) (Value.timestamp v).boundCell =
      some (c.accepts (u.toMicros.chronological v.toMicros)) := by
  rw [TestOp.verdict_of_comparison? hop, h.fieldAffinity_eq, h.fieldCell_eq,
    ← Timestamp.compare_toStorageText h.legible hv]
  exact Storage.truth?_ofTruth (some _)

theorem cmp_eq (h : s.HoldsTime name e u) (h' : s.HoldsTime name e' v) :
    (s.fieldCell name e).cmp (s.fieldCell name e') = u.toMicros.chronological v.toMicros := by
  rw [h.fieldCell_eq, h'.fieldCell_eq]
  exact Timestamp.compare_toStorageText h.legible h'.legible

end Schema.HoldsTime

namespace Filter

variable {s : Schema} {f : Filter} {name : String} {d : Direction} {rest : List (String × Direction)}

/-- Rows in the order of a filter stand by its first key. -/
theorem Ordered.pairwise_first {es : List Entry} (h : f.Ordered s es)
    (horder : f.order = (name, d) :: rest) :
    es.Pairwise fun a b =>
      (keyCmp (decide (d = .descending)) (s.fieldCell name a) (s.fieldCell name b)).isLE = true := by
  refine List.Pairwise.imp (fun {a b} hab => ?_) h
  rw [orderedBefore_orderCells, horder, keysCmp] at hab
  exact Ordering.isLE_left_of_isLE_then hab

end Filter

namespace TwoTimes

def builder : SchemaBuilder :=
  ((SchemaBuilder.new "t").key "id" .integer).nullable "at" .timestamp

def schema : Schema where
  table := .ofPart (.bare "t")
  fields := [⟨"id", .integer, false⟩, ⟨"at", .timestamp, true⟩]
  primaryKey := ⟨"id", .integer, false⟩
  autoIncrement := false
  names_nodup := by decide
  names_valid := by decide +kernel
  key_mem := by decide
  key_required := Eq.refl false
  generated_integer := fun _ => Eq.refl FieldKind.integer

theorem build_builder : builder.build = .ok schema := by
  with_unfolding_all rfl

theorem declared : ∀ n ∈ ["id", "at"], ∃ f, schema.requireField n = .ok f := by
  simp only [List.mem_cons, List.not_mem_nil, or_false, forall_eq_or_imp, forall_eq]
  exact ⟨⟨_, rfl⟩, ⟨_, rfl⟩⟩

/-- The first second of the year after the leap second. -/
def newYear : Timestamp where
  seconds := 1483228800
  nanos := 0
  nanos_lt := by decide
  leap := by decide

def table (sequence : Int64) (entries : List Entry) : Table :=
  ⟨"t", [⟨"id", .integer, true⟩, ⟨"at", .text, false⟩], some 0, false, [], [], [], sequence,
    entries⟩

def entries : List Entry :=
  [⟨2, #[.integer 2, .text "2017-01-01T00:00:00.000000Z"]⟩,
    ⟨1, #[.integer 1, .text "2016-12-31T23:59:60.123456Z"]⟩]

theorem prepare_createTable : prepare ⟨.empty, #[], 0⟩ schema.createTable =
    .ok (.create .main (table 0 [])) := by
  with_unfolding_all rfl

def insertion : Sql.Statement :=
  .insert schema.table.allQuoted [.quoted "id", .quoted "at"]
    [[.param (some 1), .param (some 2)], [.param (some 3), .param (some 4)]]

def params : Params :=
  #[.integer 1, .text "2016-12-31T23:59:60.123456Z", .integer 2, .text "2017-01-01T00:00:00.000000Z"]

theorem prepare_insertion : prepare ⟨⟨[table 0 []], []⟩, params, 0⟩ insertion =
    .ok (.insert .main (table 0 []) true [[.integer 1, .text "2016-12-31T23:59:60.123456Z"],
      [.integer 2, .text "2017-01-01T00:00:00.000000Z"]]) := by
  with_unfolding_all rfl

theorem insertAll_rows : (Insertion.start (table 0 [])).insertAll
    [[.integer 1, .text "2016-12-31T23:59:60.123456Z"],
      [.integer 2, .text "2017-01-01T00:00:00.000000Z"]] = (⟨table 2 entries, [], some 2⟩, none) := by
  with_unfolding_all rfl

theorem tableState : schema.TableState (table 2 entries) :=
  .inserted (.created prepare_createTable) prepare_insertion insertAll_rows

theorem holdsTime_leapSecond (id : Int64) : schema.HoldsTime "at"
    ⟨id, #[.integer id, .text "2016-12-31T23:59:60.123456Z"]⟩ Field.leapSecond := by
  refine ⟨⟨⟨"at", .timestamp, true⟩, rfl, rfl, by with_unfolding_all rfl⟩, ?_⟩
  change 0 ≤ Field.leapSecond.date.year ∧ Field.leapSecond.date.year ≤ 9999
  decide

theorem holdsTime_newYear (id : Int64) : schema.HoldsTime "at"
    ⟨id, #[.integer id, .text "2017-01-01T00:00:00.000000Z"]⟩ newYear := by
  refine ⟨⟨⟨"at", .timestamp, true⟩, rfl, rfl, by with_unfolding_all rfl⟩, ?_⟩
  change 0 ≤ newYear.date.year ∧ newYear.date.year ≤ 9999
  decide

/-- From the leap second on, the earliest first. -/
def earliest : Filter :=
  (Filter.all.and (.test "at" .ge (.timestamp Field.leapSecond))).orderBy "at" .ascending

def pool : Pool MemoryDatabase :=
  .ofDatabase ⟨⟨[table 2 entries], []⟩, none, 2, 2⟩ none

theorem suits : earliest.Suits schema (table 2 entries) where
  built := ⟨builder, build_builder⟩
  state := tableState
  declared n hn := declared n ((show earliest.columns ⊆ ["id", "at"] by decide) hn)
  complete := ⟨trivial, trivial⟩

def begun : MemoryDatabase :=
  ⟨⟨[table 2 entries], []⟩, some ⟨[table 2 entries], []⟩, 2, 2⟩

def query : Sql.Select :=
  .mk [.all] (some (.table schema.table.allQuoted none))
    (some (.compare .ge (.ofName "at") (.param (some 1)))) (earliest.terms schema) none

/-- The rows behind their hidden keys. -/
def rows : List (Array Storage) :=
  entries.reverse.map Table.rowOf

theorem sortRows_rows : sortRows (earliest.orderSlots schema) rows = rows := by
  refine sortRows_of_pairwise ?_
  with_unfolding_all decide

def context : Context := begun.context #[.text "2016-12-31T23:59:60.123456Z"]

/-- From the leap second on. -/
def term : Term := .compare .ge .text (.slot 2) (.cell (.text "2016-12-31T23:59:60.123456Z"))

theorem evalSelect_query :
    evalSelect context query = .ok (schema.results, entries.reverse.map Entry.cells) := by
  have hsource : evalFrom context (some (.table schema.table.allQuoted none)) =
      .ok ⟨(table 2 entries).slots "t", rows⟩ := by
    with_unfolding_all rfl
  have hrows : evalSelect context query = .ok ([schema.results].flatten,
      project [schema.results].flatten
        (cutRows none (sortRows (earliest.orderSlots schema) (rows.filter term.holds)))) :=
    evalSelect_rows hsource (by with_unfolding_all rfl) (by with_unfolding_all rfl)
      (by with_unfolding_all rfl) rfl
  have hfilter : rows.filter term.holds = rows := by
    with_unfolding_all rfl
  rw [hfilter, sortRows_rows] at hrows
  exact hrows

def found : List Record :=
  [.ofList [("id", .integer 1), ("at", .timestamp Field.leapSecond.toMicros)],
    .ofList [("id", .integer 2), ("at", .timestamp newYear)]]

theorem find_earliest : ∃ p', outcome (Pool.find schema earliest) pool = (.ok found, p') := by
  have hbuild : earliest.build #[] =
      (some (.compare .ge (.ofName "at") (.param (some 1))), #[.text "2016-12-31T23:59:60.123456Z"]) := by
    with_unfolding_all rfl
  have hquery := query_eq (m := begun) (q := query) (by decide) evalSelect_query (by decide)
  obtain ⟨q, hrun, -⟩ := Pool.withLease_eq (p := pool) rfl rfl (Session.runs_queryAll hquery)
    rfl rfl
  refine ⟨q, (Filter.outcome_select suits [] _ pool).trans ?_⟩
  rw [hbuild]
  refine Action.outcome_bind_eq_ok_iff.2 ⟨_, q, hrun, ?_⟩
  with_unfolding_all rfl

end TwoTimes

end StagedStore
