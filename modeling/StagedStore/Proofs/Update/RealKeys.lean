import StagedStore.Proofs.Decimal.ReadBack
import StagedStore.Proofs.Update.Layout
import StagedStore.Proofs.Update.OneByOne

/-!
# Updates under real keys

Keys that are reals are told apart by their literals. Finite reals have literals of their own, so
have the two zeros, which are one number; infinities have none and are written as null. Where no
two keys are zeros of different signs, and a change set under an infinity sets or unsets each field
of the batch, an update does what its change sets do one by one.
-/

namespace StagedStore

open Memory MemoryDatabase

/-! ## Literals of reals -/

theorem Binary64.toText_inj {x y : Binary64} (h : x.toText = y.toText) : x = y := by
  have hread := ofText?_toText x
  rw [h, ofText?_toText] at hread
  exact (Option.some.inj hread).symm

theorem Binary64.toText_ne_null (x : Binary64) : x.toText ≠ "NULL" := by
  intro h
  have hread := ofText?_toText x
  have hnull : ofText? "NULL" = none := by decide +kernel
  rw [h, hnull] at hread
  cases hread

/-- Two reals have one literal if they are the same or if neither is finite. -/
theorem Storage.literal_real_eq_iff {x y : Binary64} :
    (Storage.real x).literal = (Storage.real y).literal ↔
      x = y ∨ x.isFinite = false ∧ y.isFinite = false := by
  unfold literal
  dsimp only
  constructor
  · intro h
    cases hx : x.isFinite <;> cases hy : y.isFinite <;>
      simp only [hx, hy, Bool.false_eq_true, if_false, if_true] at h
    · exact .inr ⟨rfl, rfl⟩
    · exact absurd h.symm y.toText_ne_null
    · exact absurd h x.toText_ne_null
    · exact .inl (Binary64.toText_inj h)
  · rintro (rfl | ⟨hx, hy⟩)
    · rfl
    · simp only [hx, hy, Bool.false_eq_true, if_false]

section

variable {ε : Type} {s : Schema} {p : Plan} {t : Table} {sets : List (ChangeSet ε)}

/-- The key of a change set is written as a real. -/
def ChangeSet.Under (s : Schema) (c : ChangeSet ε) (x : Binary64) : Prop :=
  s.primaryKey.encode c.key = .ok (.real x)

/-- Changes set or unset a field. -/
def Changes.Replaces (c : Changes) (name : String) : Prop :=
  (∃ v, c.get? name = some (.set v)) ∨ c.get? name = some .unset

/-- A batch under real keys whose statements tell the keys apart: all are numbers, no two are zeros
of different signs, and where an infinity is a key, no arm of a field has to name it. -/
structure ChangeSet.TellsReals (s : Schema) (sets : List (ChangeSet ε)) : Prop where
  number : ∀ c ∈ sets, ¬ c.Under s .nan
  zeros : ∀ c ∈ sets, ∀ d ∈ sets, c.Under s (.zero true) → ¬ d.Under s (.zero false)
  infinite : ∀ c ∈ sets, ∀ negative, c.Under s (.infinite negative) →
    ∀ d ∈ sets, ∀ x ∈ d.changes.entries, c.changes.Replaces x.1

theorem ChangeSet.exists_under (hkind : s.primaryKey.kind = .real) {c : ChangeSet ε} {k : Storage}
    (h : s.primaryKey.encode c.key = .ok k) : ∃ x, k = .real x ∧ c.Under s x := by
  have hwrites := Schema.writes_of_encode h
  rw [hkind] at hwrites
  obtain ⟨x, rfl⟩ := hwrites
  exact ⟨x, rfl, h⟩

/-- Reals that compare as equal are the same key where no two keys are zeros of different signs. -/
theorem ChangeSet.TellsReals.eq_of_cmp (h : ChangeSet.TellsReals s sets) {c d : ChangeSet ε}
    (hc : c ∈ sets) (hd : d ∈ sets) {x y : Binary64} (hx : c.Under s x) (hy : d.Under s y)
    (hcmp : x.cmp y = .eq) : x = y := by
  have hnan : x ≠ .nan := by
    rintro rfl
    exact h.number c hc hx
  rcases Binary64.eq_or_zeros_of_cmp hnan hcmp with hsame | ⟨v, w, rfl, rfl⟩
  · exact hsame
  · cases v <;> cases w
    · rfl
    · exact absurd hx (h.zeros d hd c hc hy)
    · exact absurd hy (h.zeros c hc d hd hx)
    · rfl

/-- What a change set under an infinity makes of each field of the plan is a value. -/
theorem ChangeSet.TellsReals.isFinite (h : ChangeSet.TellsReals s sets) (hp : p.Compiled s sets)
    {c : ChangeSet ε} {r : PlanRow} (hc : c ∈ sets) (hof : r.Of s c) {x : Binary64}
    (hx : c.Under s x) {n : String} (hn : n ∈ p.fields) (hcell : ∀ v, r.cell n ≠ .value v) :
    x.isFinite = true := by
  cases x with
  | finite => rfl
  | nan => exact absurd hx (h.number c hc)
  | infinite negative =>
      obtain ⟨d, hd, y, hy, rfl⟩ := hp.exists_of_mem_fields hn
      rcases hof.cell y.1 with ⟨hnone, -⟩ | ⟨δ, f, hδ, hf, hδcell⟩
      · rcases h.infinite c hc negative hx d hd y hy with ⟨v, hv⟩ | hv <;>
          exact absurd (hnone.symm.trans hv) (by simp)
      · rcases h.infinite c hc negative hx d hd y hy with ⟨v, hv⟩ | hv <;>
          obtain rfl := Option.some.inj (hδ.symm.trans hv)
        · obtain ⟨w, -, hw⟩ := Except.bind_eq_ok_iff.1 hδcell
          exact absurd (Except.ok.inj hw).symm (hcell w)
        · exact absurd (Except.ok.inj hδcell).symm (hcell .null)

/-! ## What is refused -/

namespace Plan

/-- A batch under real keys is refused if and only if two of its keys are the same real or are both
not finite. -/
theorem compile_error_iff_of_real (hkind : s.primaryKey.kind = .real)
    (hsets : ∀ c ∈ sets, c.Checked s ∧ ∃ k, s.primaryKey.encode c.key = .ok k) :
    (∃ e, compile s sets = .error e) ↔
      ∃ c d x y, [c, d].Sublist sets ∧ c.Under s x ∧ d.Under s y ∧
        (x = y ∨ x.isFinite = false ∧ y.isFinite = false) := by
  constructor
  · rintro ⟨e, he⟩
    obtain ⟨c, d, l, k, hsub, hl, hk, hliteral, -⟩ := literalTwice_of_error hsets he
    obtain ⟨x, rfl, hx⟩ := ChangeSet.exists_under hkind hl
    obtain ⟨y, rfl, hy⟩ := ChangeSet.exists_under hkind hk
    exact ⟨c, d, x, y, hsub, hx, hy, Storage.literal_real_eq_iff.1 hliteral⟩
  · rintro ⟨c, d, x, y, hsub, hx, hy, hsame⟩
    cases hp : compile s sets with
    | error e => exact ⟨e, rfl⟩
    | ok p =>
        exact absurd (Storage.literal_real_eq_iff.2 hsame)
          ((compiled_of_compile hp).literal_ne hsub hx hy)

/-! ## What is updated -/

theorem Compiled.exists_real (h : p.Compiled s sets) (hkind : s.primaryKey.kind = .real)
    {r : PlanRow} (hr : r ∈ p.rows) :
    ∃ c ∈ sets, ∃ x, r.Of s c ∧ r.key = .real x ∧ c.Under s x := by
  obtain ⟨c, hc, hof⟩ := h.exists_of_mem_rows hr
  obtain ⟨x, hx, hunder⟩ := ChangeSet.exists_under hkind hof.key
  exact ⟨c, hc, x, hof, hx, hunder⟩


/-- The plan of checked change sets under reals is ready for every state of the table, if its
statements tell the reals apart. -/
theorem Compiled.ready_real (h : p.Compiled s sets) (hfits : s.Fits t)
    (hkind : s.primaryKey.kind = .real) (hchecked : ∀ c ∈ sets, c.Checked s)
    (hreals : ChangeSet.TellsReals s sets)
    (hfinite : ∀ c ∈ sets, ∀ d ∈ c.changes.entries, d.2.isFinite = true) : p.Ready s t where
  toLaid := h.laid hfits hchecked
  writes _ := h.writes
  bound_key r hr := by
    obtain ⟨c, hc, x, -, hx, hunder⟩ := h.exists_real hkind hr
    rw [hx]
    refine Storage.bound_real ?_
    rintro rfl
    exact hreals.number c hc hunder
  normals_nodup := by
    have hrows : p.rows.Nodup := List.Nodup.of_map _ h.keys_nodup
    refine List.Nodup.map_on (fun r hr q hq he => ?_) hrows
    obtain ⟨c, hc, x, -, hx, hunder⟩ := h.exists_real hkind hr
    obtain ⟨d, hd, y, -, hy, hunder'⟩ := h.exists_real hkind hq
    rw [hx, hy] at he
    have hsame := hreals.eq_of_cmp hc hd hunder hunder' (Storage.cmp_real_of_normal_eq he)
    refine List.inj_on_of_nodup_map h.keys_nodup hr hq ?_
    rw [hx, hy, hsame]
  literal_key r hr n hn hcell := by
    obtain ⟨c, hc, x, hof, hx, hunder⟩ := h.exists_real hkind hr
    have hfin := hreals.isFinite h hc hof hunder hn hcell
    rw [hx]
    simp [Sql.Expr.ofStorage, hfin]
  finite r hr n a ha := h.ofStorage_amount hfinite hr ha

end Plan

end

/-! ## A table with one unique column -/

namespace Memory

theorem Table.testUnique_one {t : Table} {used : Std.HashSet Storage} {e : Entry}
    (h : used.contains (e.cells[0]?.getD Storage.null).normal = false) :
    t.testUnique [⟨0, used⟩] e = .ok () := by
  have hnone : Occupied.conflict? [⟨0, used⟩] e.cells = none := by
    simp [Occupied.conflict?, h]
  unfold Table.testUnique
  rw [hnone]
  rfl

/-- A row is inserted whose unique cell is not in use. -/
theorem Insertion.insert_one {i : Insertion} {used : Std.HashSet Storage} {cells : List Storage}
    {e : Entry} (hunique : i.occupied = [⟨0, used⟩])
    (hcomplete : Insertion.complete i.table cells = .ok (e, false))
    (htest : i.table.testRow e = .ok ()) (hnew : Insertion.hasKey e.id i.table.entries = false)
    (hfree : used.contains (e.cells[0]?.getD Storage.null).normal = false) :
    i.insert cells = .ok
      { table := { i.table with
          entries := Table.place e i.table.entries
          sequence := max i.table.sequence e.id }
        occupied := Occupied.occupy i.occupied e.cells
        last := some e.id } := by
  unfold Insertion.insert
  dsimp only
  rw [hcomplete, Except.ok_bind]
  dsimp only
  rw [htest, Except.ok_bind, hnew, hunique, Table.testUnique_one hfree]
  rfl

/-- A row that keeps its unique cell is updated, as its own cell is released before. -/
theorem Revision.step_one {values : Entry → Option (List (Nat × Storage))} {r : Revision}
    (e new : Entry) {used : Std.HashSet Storage} {vs : List (Nat × Storage)}
    (hunique : r.occupied = [⟨0, used⟩])
    (hvalues : values e = some vs) (hassign : Revision.assign r.table vs e = .ok new)
    (htest : r.table.testRow new = .ok ()) (hid : new.id = e.id)
    (hcell : new.cells[0]?.getD .null = e.cells[0]?.getD .null) :
    Revision.step values r e = .ok { r with
      occupied := Occupied.occupy (Occupied.release r.occupied e.cells) new.cells
      entries := Table.place new r.entries
      count := r.count + 1 } := by
  have hfree : (used.erase (e.cells[0]?.getD Storage.null).normal).contains
      (new.cells[0]?.getD Storage.null).normal = false := by
    rw [hcell, Std.HashSet.contains_erase]
    simp
  unfold Revision.step
  rw [hvalues]
  dsimp only
  rw [hassign, Except.ok_bind, htest, Except.ok_bind, hunique]
  change (if _ then _ else _ : Except Fault Revision) = _
  rw [if_neg (by simp [hid])]
  change r.table.testUnique [⟨0, used.erase _⟩] new >>= _ = _
  rw [Table.testUnique_one hfree, Except.ok_bind, if_pos hid]
  rfl

end Memory

/-! ## A zero and an infinity -/

namespace RealKeys

def schema : Schema where
  table := .ofPart (.bare "t")
  fields := [⟨"id", .real, false⟩, ⟨"x", .integer, true⟩, ⟨"y", .integer, true⟩]
  primaryKey := ⟨"id", .real, false⟩
  autoIncrement := false
  names_nodup := by decide
  names_valid := by decide
  key_mem := by decide
  key_required := Eq.refl false
  generated_integer := fun h => absurd h Bool.false_ne_true

def staging : StagingTable := ⟨"stage"⟩

/-- The table of the schema with some rows. -/
def table (sequence : Int64) (entries : List Entry) : Table :=
  ⟨"t", [⟨"id", .real, true⟩, ⟨"x", .integer, false⟩, ⟨"y", .integer, false⟩], none, false, [0], [],
    [], sequence, entries⟩

def zeroRow (x y : Storage) : Entry := ⟨1, #[.real (.zero false), x, y]⟩

def infinityRow (x y : Storage) : Entry := ⟨2, #[.real (.infinite false), x, y]⟩

def entries : List Entry :=
  [infinityRow (.integer 3) (.integer 4), zeroRow (.integer 1) (.integer 2)]

theorem prepare_createTable : prepare ⟨.empty, #[], 0⟩ schema.createTable =
    .ok (.create .main (table 0 [])) := by
  with_unfolding_all rfl

/-- The statement that inserts the rows. -/
def insertion : Sql.Statement :=
  .insert schema.table.allQuoted [.quoted "id", .quoted "x", .quoted "y"]
    [[.param (some 1), .param (some 2), .param (some 3)],
      [.param (some 4), .param (some 5), .param (some 6)]]

def given : List (List Storage) :=
  [[.real (.zero false), .integer 1, .integer 2], [.real (.infinite false), .integer 3, .integer 4]]

theorem prepare_insertion : prepare ⟨⟨[table 0 []], []⟩, given.flatten.toArray, 0⟩ insertion =
    .ok (.insert .main (table 0 []) true given) := by
  with_unfolding_all rfl

theorem normal_infinite_ne :
    (Storage.real (.infinite false)).normal ≠ (Storage.real (.zero false)).normal := by
  intro h
  cases Storage.cmp_real_of_normal_eq h

theorem insertAll_rows : ∃ i, (Insertion.start (table 0 [])).insertAll given = (i, none) ∧
    i.table = table 2 entries := by
  have hfree : ((∅ : Std.HashSet Storage).insert (Storage.real (.zero false)).normal).contains
      (Storage.real (.infinite false)).normal = false := by
    rw [Std.HashSet.contains_insert]
    simpa using normal_infinite_ne.symm
  unfold given
  rw [Insertion.insertAll, Insertion.insert_one (e := zeroRow (.integer 1) (.integer 2)) rfl
    (by with_unfolding_all rfl) (by with_unfolding_all rfl) rfl Std.HashSet.contains_empty]
  dsimp only
  rw [Insertion.insertAll, Insertion.insert_one (e := infinityRow (.integer 3) (.integer 4)) rfl
    (by with_unfolding_all rfl) (by with_unfolding_all rfl) rfl hfree]
  exact ⟨_, rfl, rfl⟩

theorem tableState : schema.TableState (table 2 entries) := by
  obtain ⟨i, hi, htable⟩ := insertAll_rows
  rw [← htable]
  exact .inserted (.created prepare_createTable) prepare_insertion hi

/-- A change for the zero with the other sign, and one of both fields for the infinity. -/
def sets : List (ChangeSet Record) :=
  [⟨.real (.zero true), Changes.empty.set "x" (.integer 5), .ofList [("id", .real (.zero true))]⟩,
    ⟨.real (.infinite false), (Changes.empty.unset "x").set "y" (.integer 9),
      .ofList [("id", .real (.infinite false))]⟩]

def plan : Plan :=
  ⟨"id", ["x", "y"], [⟨.real (.zero true), [("x", .value (.integer 5))]⟩,
    ⟨.real (.infinite false), [("x", .value .null), ("y", .value (.integer 9))]⟩]⟩

theorem compile_sets : Plan.compile schema sets = .ok plan :=
  Plan.Compiled.compile_eq
    { key := rfl
      rows := .cons ⟨rfl, .cons ⟨rfl, _, rfl, rfl⟩ .nil⟩
        (.cons ⟨rfl, .cons ⟨rfl, _, rfl, rfl⟩ (.cons ⟨rfl, _, rfl, rfl⟩ .nil)⟩ .nil)
      literals_nodup := by decide +kernel
      fields := by decide }

theorem finite_sets : ∀ c ∈ sets, ∀ d ∈ c.changes.entries, d.2.isFinite = true := by
  decide

theorem new_sets :
    ∀ c ∈ sets, ∃ key changes item, ChangeSet.new schema key changes item = .ok c := by
  intro c hc
  refine ⟨c.key, c.changes, c.item, ?_⟩
  rcases List.mem_cons.1 hc with rfl | hc
  · rfl
  · rw [List.mem_singleton.1 hc]
    rfl

theorem tellsReals : ChangeSet.TellsReals schema sets where
  number c hc h := by
    simp only [sets, List.mem_cons, List.not_mem_nil, or_false] at hc
    rcases hc with rfl | rfl <;> cases h
  zeros c hc d hd h h' := by
    simp only [sets, List.mem_cons, List.not_mem_nil, or_false] at hd
    rcases hd with rfl | rfl <;> cases h'
  infinite c hc negative h := by
    simp only [sets, List.mem_cons, List.not_mem_nil, or_false] at hc
    rcases hc with rfl | rfl
    · cases h
    · intro d hd x hx
      have hname : x.1 = "x" ∨ x.1 = "y" := by
        revert x
        revert d
        decide
      rcases hname with hname | hname <;> rw [hname]
      · exact .inr rfl
      · exact .inl ⟨_, rfl⟩

theorem ready : plan.Ready schema (table 2 entries) :=
  (Plan.compiled_of_compile compile_sets).ready_real (Schema.fits_of_tableState tableState) rfl
    (ChangeSet.forall_checked new_sets) tellsReals finite_sets

/-- The rows behind the update. -/
def updated : List Entry :=
  [infinityRow .null (.integer 9), zeroRow (.integer 5) (.integer 2)]

/-- The tables while the update runs. -/
def during (entries : List Entry) (temp : List Table) (changes : Nat) : MemoryDatabase :=
  ⟨⟨[table 2 entries], temp⟩, some ⟨[table 2 RealKeys.entries], []⟩, 2, changes⟩

/-- The staged rows. -/
def staged : Table :=
  ⟨"stage", [⟨"id", .blob, false⟩, ⟨"x", .blob, false⟩, ⟨"y", .blob, false⟩], none, false, [], [],
    [], 2, [⟨2, #[.real (.infinite false), .null, .integer 9]⟩,
      ⟨1, #[.real (.zero true), .integer 5, .integer 2]⟩]⟩

def params : Sql.Params := (plan.select schema plan.rows).2

theorem prepare_create : prepare ((during entries [] 2).context params)
    (.createTemporary (.quoted "stage") (.select (plan.select schema plan.rows).1)) =
    .ok (.create .temp staged) := by
  obtain ⟨os, hos, hnames, hnone⟩ := ready.evalSelect_select
    ((during entries [] 2).context params) (fun _ (h : _ ∈ plan.rows) => h) (by decide) (a := .main)
    (by with_unfolding_all rfl) rfl
  have hrows : Plan.stagedRows schema plan (table 2 entries) plan.rows =
      [#[.real (.zero true), .integer 5, .integer 2],
        #[.real (.infinite false), .null, .integer 9]] := by
    with_unfolding_all rfl
  have hstaged : tableOfRows "stage" os [#[.real (.zero true), .integer 5, .integer 2],
      #[.real (.infinite false), .null, .integer 9]] = staged := by
    have hcolumns := ready.columns_tableOfRows hnames hnone "stage"
      [#[.real (.zero true), .integer 5, .integer 2], #[.real (.infinite false), .null, .integer 9]]
    unfold tableOfRows at hcolumns ⊢
    dsimp only at hcolumns ⊢
    rw [hcolumns]
    rfl
  rw [hrows] at hos
  rw [prepare_createTemporary (by with_unfolding_all rfl) (by with_unfolding_all rfl) hos]
  exact congrArg (fun u => Except.ok (Prepared.create .temp u)) hstaged

theorem updates : StagingTable.Updates schema staging (during entries [staged] 2).catalog .main
    (table 2 entries) staged ["id", "x", "y"] ["x", "y"] where
  fits := Schema.fits_of_tableState tableState
  origin := by with_unfolding_all rfl
  staging := by with_unfolding_all rfl
  named := ⟨rfl, by with_unfolding_all decide, by decide⟩
  alias_ne := by with_unfolding_all decide
  key_mem := by decide
  fields_mem := by decide
  declared := ready.declared

/-- What the staged rows assign. -/
def assigned (e : Entry) : Option (List (Nat × Storage)) :=
  (StagingTable.meeting? schema ["id", "x", "y"] ⟨"id", .blob, false⟩ staged e).map
    (schema.assignments ["id", "x", "y"] ["x", "y"])

theorem updateAll_rows : Revision.updateAll (table 2 entries) false assigned =
    .ok (table 2 updated, 2) := by
  unfold Revision.updateAll
  change ([zeroRow (.integer 1) (.integer 2), infinityRow (.integer 3) (.integer 4)].foldlM
    (Revision.step assigned) ⟨table 2 entries, Occupied.ofTable (table 2 entries), ∅, [], 0⟩ >>=
      _) = _
  rw [List.foldlM_cons, Revision.step_one (zeroRow (.integer 1) (.integer 2))
    (zeroRow (.integer 5) (.integer 2)) rfl (by with_unfolding_all rfl) (by with_unfolding_all rfl)
    (by with_unfolding_all rfl) rfl rfl, Except.ok_bind, List.foldlM_cons,
    Revision.step_one (infinityRow (.integer 3) (.integer 4)) (infinityRow .null (.integer 9)) rfl
    (by with_unfolding_all rfl) (by with_unfolding_all rfl) (by with_unfolding_all rfl) rfl rfl]
  rfl

theorem runs_update : Session.Runs (staging.applyUpdate schema ["x", "y"])
    (during entries [staged] 2) 2 (during updated [staged] 2) := by
  have hperform : (during entries [staged] 2).perform (.update .main (table 2 entries)
      ((["x", "y"].map schema.fieldIndex).any fun j => (table 2 entries).key = some j)
      assigned) = (.ok (), during updated [staged] 2) := by
    unfold perform
    dsimp only
    have hall : Revision.updateAll (table 2 entries)
        ((["x", "y"].map schema.fieldIndex).any fun j => (table 2 entries).key = some j) assigned =
          .ok (table 2 updated, 2) := updateAll_rows
    rw [hall]
    with_unfolding_all rfl
  exact StagingTable.runs_applyUpdate updates rfl rfl (by decide) (by decide) rfl
    (by decide) hperform

theorem runs_create : Session.Runs
    (staging.create (.select (plan.select schema plan.rows).1) params) (during entries [] 2) 2
    (during entries [staged] 2) := by
  have hdrop : (Database.script staging.dropScript : Step MemoryDatabase Unit).run
      (during entries [] 2) = (.ok (), during entries [] 2) := by
    with_unfolding_all rfl
  have hfill : (Database.run (.createTemporary (.quoted "stage")
      (.select (plan.select schema plan.rows).1)) params : Step MemoryDatabase Nat).run
        (during entries [] 2) = (.ok 2, during entries [staged] 2) :=
    run_eq (by decide) prepare_create (by decide) rfl rfl
  have hcount : (Database.query staging.countQuery #[] : Step MemoryDatabase (List Row)).run
      (during entries [staged] 2) = (.ok [⟨["n"], [.integer 2]⟩], during entries [staged] 2) := by
    with_unfolding_all rfl
  exact StagingTable.runs_create hdrop hfill hcount

theorem runs_apply : Session.Runs (plan.apply schema staging) (during entries [] 2) (2, [])
    (during updated [] 2) := by
  have hdrop : (Database.script staging.dropScript : Step MemoryDatabase Unit).run
      (during updated [staged] 2) = (.ok (), during updated [] 2) := by
    with_unfolding_all rfl
  have hstage : Session.Runs (plan.stage schema staging) (during entries [] 2) ()
      (during entries [staged] 2) := by
    have hchunks : plan.chunks = [plan.rows] := by with_unfolding_all rfl
    unfold Plan.stage
    rw [hchunks]
    exact Session.runs_bind runs_create (Session.runs_pure ())
  refine Session.runs_bind hstage (Session.runs_bind runs_update ?_)
  refine Session.runs_bind (Session.runs_pure []) ?_
  exact Session.runs_bind (StagingTable.runs_discard hdrop) (Session.runs_pure _)

/-- A pool of which the database holds the table. -/
def pool : Pool MemoryDatabase :=
  .ofDatabase ⟨⟨[table 2 entries], []⟩, none, 2, 2⟩ none

theorem update_sets : ∃ b pool', Pool.update schema staging sets pool = (b, pool') ∧
    b.result = .ok 2 ∧ pool'.database = some ⟨⟨[table 2 updated], []⟩, none, 2, 2⟩ := by
  obtain ⟨p, hrun, hdatabase⟩ := Pool.transaction_eq (p := pool) rfl rfl runs_apply rfl rfl
  unfold Pool.update
  rw [compile_sets]
  dsimp only
  rw [if_neg (by decide)]
  rw [show (Pool.transaction (plan.apply schema staging)).run pool = _ from hrun]
  exact ⟨_, _, rfl, rfl, hdatabase⟩

end RealKeys

end StagedStore
