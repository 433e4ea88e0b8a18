import StagedStore.Proofs.Schema.Whole
import StagedStore.Proofs.Store.Agreement
import StagedStore.Proofs.Store.Legible
import StagedStore.Proofs.Store.Told

/-!
# What was written is found

A field writes a value as its kind has it, a filter compares with the value as it is on its own. The
two agree but for an integer that is given to a field of reals: it is written as the nearest real,
and is found again if and only if that is the integer itself.
-/

namespace StagedStore

open Memory MemoryDatabase

/-! ## Values as they are compared -/

/-- If a field is one of reals and a value an integer, then the integer is a real. -/
def Field.Exact (f : Field) (v : Value) : Prop :=
  ∀ n, f.kind = .real → v = .integer n → (Binary64.ofInt n.toInt).toInt? = some n.toInt

theorem Value.isNull_boundCell {v : Value} (hnull : v.isNull = false) (hnan : v ≠ .real .nan) :
    v.boundCell.isNull = false := by
  cases v with
  | null => cases hnull
  | real x =>
      have hx : x ≠ .nan := by
        rintro rfl
        exact hnan rfl
      rw [boundCell, toStorage, Storage.bound_real hx]
      rfl
  | _ => rfl

namespace Field

variable {f : Field} {v : Value} {w : Storage}

/-- What a filter compares with is what a field writes, but for an integer in a field of reals. -/
theorem toStorage_or (h : f.encode v = .ok w) :
    (∀ n, f.kind = .real → v ≠ .integer n) ∧ v.toStorage = w ∨
      ∃ n, f.kind = .real ∧ v = .integer n ∧ w = .real (.ofInt n.toInt) := by
  by_cases hkind : f.kind = .real
  · rcases encode_ok h with ⟨rfl, -, rfl⟩ | ⟨-, h⟩
    · exact .inl ⟨nofun, rfl⟩
    · rw [hkind] at h
      cases v with
      | real x => exact .inl ⟨nofun, Option.some.inj h⟩
      | integer n => exact .inr ⟨n, hkind, rfl, (Option.some.inj h).symm⟩
      | _ => cases h
  · exact .inl ⟨fun _ hreal => absurd hreal hkind, toStorage_of_encode hkind h⟩

/-- Only null and a number that is none are bound as null. -/
theorem isNull_bound (h : f.encode v = .ok w) (hnull : v.isNull = false) (hnan : v ≠ .real .nan) :
    w.bound.isNull = false := by
  rcases toStorage_or h with ⟨-, rfl⟩ | ⟨n, -, -, rfl⟩
  · exact Value.isNull_boundCell hnull hnan
  · rw [Storage.bound_real (Binary64.ofInt_ne_nan n)]
    rfl

theorem kind_of_encode_real {x : Binary64} (h : f.encode v = .ok (.real x)) : f.kind = .real := by
  rcases encode_ok h with ⟨-, -, hx⟩ | ⟨-, h⟩
  · cases hx
  · have hwrites := writes_of_encodeKind? h
    cases hk : f.kind <;> rw [hk] at hwrites <;> obtain ⟨y, hy⟩ := hwrites <;>
      first
      | rfl
      | cases hy

/-- What a column keeps of a written cell compares as the cell does. -/
theorem normal_store (h : f.encode v = .ok w) :
    (f.affinity.forMember (f.affinity.store w.bound)).normal =
      (f.affinity.forMember w.bound).normal := by
  rw [store_encode h]
  by_cases hreal : ∃ x, w = .real x
  · obtain ⟨x, rfl⟩ := hreal
    have haffinity : f.affinity = .real := by rw [affinity_eq, kind_of_encode_real h]
    have hsame {a : Storage} (ha : a.isText = false) : f.affinity.forMember a = a := by
      rw [haffinity]
      exact Storage.textToNumber_of_notText ha
    by_cases hx : x = .nan
    · rw [hx]
      rfl
    · have hkept : (Storage.real x).kept.isText = false := by
        rcases Storage.kept_real hx with hkept | ⟨-, -, hkept⟩ <;> rw [hkept] <;> rfl
      rw [hsame hkept, Storage.normal_kept, Storage.bound_real hx, hsame rfl]
  · have hnot : ∀ x, w ≠ .real x := fun x hx => hreal ⟨x, hx⟩
    rw [Storage.bound_of_notReal hnot]
    cases w with
    | real x => exact absurd rfl (hnot x)
    | _ => rfl

/-- The cell that a column keeps of a value is found equal to the value if and only if the field
writes it exactly. -/
theorem equals_iff (h : f.encode v = .ok w) (hnull : v.isNull = false) (hnan : v ≠ .real .nan) :
    (f.affinity.store w.bound).equals f.affinity v.boundCell = some true ↔ f.Exact v := by
  have hstored : (f.affinity.store w.bound).isNull = false := by
    rw [store_encode h]
    exact Storage.isNull_kept (isNull_bound h hnull hnan)
  rw [Storage.equals_eq (f.affinity.store_store _), hstored, Value.isNull_boundCell hnull hnan,
    Bool.or_self, if_neg Bool.false_ne_true, Option.some_inj, decide_eq_true_iff, normal_store h,
    Value.boundCell]
  rcases toStorage_or h with ⟨hother, rfl⟩ | ⟨n, hkind, rfl, rfl⟩
  · exact iff_of_true rfl fun n hkind hv => absurd hv (hother n hkind)
  · have haffinity : f.affinity = .real := by rw [affinity_eq, hkind]
    rw [haffinity, Storage.bound_real (Binary64.ofInt_ne_nan n)]
    change (Storage.real _).normal = (Storage.integer n).normal ↔ _
    rw [← Storage.cmp_eq_iff_normal_eq, Storage.cmp_integer_eq_iff]
    constructor
    · rintro hwhole m - ⟨⟩
      exact hwhole
    · exact fun hexact => hexact n hkind rfl

end Field

/-! ## Rows that keep a value -/

variable {s : Schema} {t : Table} {name : String} {v : Value} {e : Entry}

/-- A row keeps in a field what the field writes for a value. -/
def Schema.Keeps (s : Schema) (name : String) (v : Value) (e : Entry) : Prop :=
  ∃ f w, s.requireField name = .ok f ∧ f.encode v = .ok w ∧
    s.fieldCell name e = f.affinity.store w.bound

/-- The field of a name writes a value exactly. -/
def Schema.Exact (s : Schema) (name : String) (v : Value) : Prop :=
  ∀ f, s.requireField name = .ok f → f.Exact v

/-- A row keeps a value and is matched by the filters that ask for the value, alone or among others,
if the field writes it exactly. -/
structure Schema.FindsAgain (s : Schema) (t : Table) (name : String) (v : Value) (e : Entry) :
    Prop where
  kept : s.Keeps name v e
  equal : e ∈ (Filter.all.and (.test name .eq v)).matched s t #[] ↔ s.Exact name v
  listed : s.Exact name v → ∀ vs : List Value, v ∈ vs →
    e ∈ (Filter.all.isIn name vs).matched s t #[]

theorem Truth.disjunction_eq_true_iff {vs : List Truth} :
    Truth.disjunction vs = some true ↔ some true ∈ vs := by
  unfold disjunction
  split
  · rename_i h
    exact iff_of_true rfl (List.contains_iff_mem.1 h)
  · rename_i h
    refine iff_of_false ?_ fun hin => h (List.contains_iff_mem.2 hin)
    split <;> exact nofun

/-- A filter with one condition on a column matches the rows of which it is true. -/
theorem Filter.mem_matched_and (hfits : s.Fits t) (he : e ∈ t.entries)
    (hname : ∃ f, s.requireField name = .ok f) {c : Condition} (hcolumns : c.columns = [name])
    (hfree : c.hasFragment = false) (hempty : c.isEmpty = false) :
    e ∈ (Filter.all.and c).matched s t #[] ↔ c.verdict s e = some true := by
  have hdeclared : ∀ n ∈ (Filter.all.and c).columns, ∃ f, s.requireField n = .ok f := by
    intro n hn
    obtain rfl : n = name := by
      simpa [Filter.columns, Filter.all, Filter.and, Condition.allColumns, hcolumns] using hn
    exact hname
  have hverdicts : Condition.verdicts s e (Filter.all.and c).conditions = [c.verdict s e] := by
    simp [Condition.verdicts_eq, Filter.all, Filter.and, hempty]
  rw [mem_matched_iff hfits hdeclared ?_ rfl rfl, hverdicts, Truth.conjunction_singleton]
  · exact and_iff_right he
  · simp [Filter.all, Filter.and, Condition.anyFragment, hfree]

/-- A filter with a list of values for a column matches the rows with one of them. -/
theorem Filter.mem_matched_isIn (hfits : s.Fits t) (he : e ∈ t.entries)
    (hname : ∃ f, s.requireField name = .ok f) {vs : List Value} (hne : vs ≠ []) :
    e ∈ (Filter.all.isIn name vs).matched s t #[] ↔ ∃ v ∈ vs,
      (s.fieldCell name e).equals (s.fieldAffinity name) v.boundCell = some true := by
  rw [isIn, Condition.isIn, List.isEmpty_eq_false_iff.2 hne, if_neg Bool.false_ne_true,
    mem_matched_and hfits he hname rfl rfl rfl, Condition.verdict, Truth.negateIf,
    if_neg Bool.false_ne_true, Truth.disjunction_eq_true_iff, List.mem_map]
  rfl

namespace Schema.Keeps

theorem equals_iff (h : s.Keeps name v e) (hnull : v.isNull = false) (hnan : v ≠ .real .nan) :
    (s.fieldCell name e).equals (s.fieldAffinity name) v.boundCell = some true ↔
      s.Exact name v := by
  obtain ⟨f, w, hf, hw, hcell⟩ := h
  rw [hcell, fieldAffinity_eq hf, Field.equals_iff hw hnull hnan]
  constructor
  · intro hexact g hg
    rwa [Except.ok.inj (hg.symm.trans hf)]
  · exact fun hexact => hexact f hf

/-- A row that keeps a value is found again by it. -/
theorem findsAgain (h : s.Keeps name v e) (hfits : s.Fits t) (he : e ∈ t.entries)
    (hnull : v.isNull = false) (hnan : v ≠ .real .nan) : s.FindsAgain t name v e := by
  have hname : ∃ f, s.requireField name = .ok f := by
    obtain ⟨f, w, hf, -⟩ := h
    exact ⟨f, hf⟩
  refine ⟨h, ?_, fun hexact vs hv => ?_⟩
  · rw [Filter.mem_matched_and hfits he hname rfl rfl rfl]
    exact h.equals_iff hnull hnan
  · exact (Filter.mem_matched_isIn hfits he hname (List.ne_nil_of_mem hv)).2
      ⟨v, hv, (h.equals_iff hnull hnan).2 hexact⟩

end Schema.Keeps

/-! ## Rows that operations write -/

/-- A row keeps what an entity has in the fields of a schema and is found again by it. -/
def Schema.FindsEntity {ε : Type} [Entity ε] (s : Schema) (t : Table) (item : ε) (e : Entry) :
    Prop :=
  ∀ f ∈ s.fields, (Entity.fieldOrNull item f.name).isNull = false →
    Entity.fieldOrNull item f.name ≠ .real .nan →
    s.FindsAgain t f.name (Entity.fieldOrNull item f.name) e

section Operations

variable {ε : Type} [Entity ε] {a : Area} {m : MemoryDatabase} {p p' : Pool MemoryDatabase}
  {stg : StagingTable}

/-- A row that carries what an entity is written as keeps what the entity has. -/
theorem Schema.Carries.findsEntity {item : ε} {fields : List Field} {row : List Storage}
    (h : s.Carries fields row e) (hfits : s.Fits t) (he : e ∈ t.entries)
    (hencoded : List.Forall₂ (fun f w => f.encode (Entity.fieldOrNull item f.name) = .ok w) fields
      row)
    (hfields : ∀ f ∈ s.fields, (Entity.fieldOrNull item f.name).isNull = false → f ∈ fields) :
    s.FindsEntity t item e := by
  intro f hf hnull hnan
  obtain ⟨w, hin, hw⟩ := exists_zip_of_forall₂ hencoded (hfields f hf hnull)
  have hcell := h f w hin (Field.isNull_bound hw hnull hnan)
  exact Keeps.findsAgain ⟨f, w, requireField_of_mem hf, hw, hcell⟩ hfits he hnull hnan

theorem Pool.findsEntity_insert {items : List ε} {b : Batch ε Nat} {n : Nat}
    (hm : p.database = some m) (ht : m.catalog.find s.table.allQuoted = .ok (a, t))
    (hstate : s.TableState t) (h : Pool.insert s items p = (b, p')) (hok : b.result = .ok n) :
    ∃ m' t', p'.database = some m' ∧ m'.catalog.find s.table.allQuoted = .ok (a, t') ∧
      s.TableState t' ∧
      (∀ e ∈ t'.entries, e ∈ t.entries ∨ ∃ item ∈ items, s.FindsEntity t' item e) ∧
      ∀ item ∈ items, ∃ e ∈ t'.entries, s.FindsEntity t' item e := by
  obtain ⟨m', t', fields, rows, hm', ht', hgrows, hrows, hfields⟩ :=
    Pool.insert_grows hm ht hstate h hok
  have hfits := Schema.fits_of_tableState hgrows.state
  refine ⟨m', t', hm', ht', hgrows.state, fun e he => ?_, fun item hitem => ?_⟩
  · refine (hgrows.grown e he).imp_right ?_
    rintro ⟨row, hrow, hcarries⟩
    obtain ⟨item, hitem, hencoded⟩ := hrows.exists_left hrow
    exact ⟨item, hitem, hcarries.findsEntity hfits he hencoded (hfields item hitem)⟩
  · obtain ⟨row, hrow, hencoded⟩ := hrows.exists_right hitem
    obtain ⟨e, he, hcarries⟩ := hgrows.carried row hrow
    exact ⟨e, he, hcarries.findsEntity hfits he hencoded (hfields item hitem)⟩

/-- Changes that set a field let a row keep the value. -/
theorem Changes.keeps_applyTo {c : Changes} (hfits : s.Fits t) (he : e ∈ t.entries)
    (hcheck : ∀ d ∈ c.entries, d.1 ≠ s.primaryKey.name ∧
      ∃ f, s.requireField d.1 = .ok f ∧ d.2.check f = .ok ())
    (hset : c.get? name = some (.set v)) : s.Keeps name v (c.applyTo s e) := by
  obtain ⟨-, f, hf, hchecked⟩ := hcheck _ (mem_of_get? hset)
  obtain ⟨w, hw⟩ := Delta.encode_of_check hchecked
  obtain ⟨-, hname⟩ := Schema.getElem?_fieldIndex hf
  refine ⟨f, w, hf, hw, ?_⟩
  rw [fieldCell_applyTo hfits hf he, cellAfter, hname, hset, Field.store_encode hw]
  change ((f.encode v).toOption.getD .null).kept = w.kept
  rw [hw]
  rfl

theorem Pool.findsAgain_patch {f : Filter} {c : Changes} {returning : List String} {r : Patched}
    (hf : f.Suits s t) (hnul : '\x00' ∉ stg.name.toList) (hclear : s.table.Clear stg.name)
    (halias : foldName s.table.name ≠ "_staged")
    (hfind : m.catalog.find s.table.allQuoted = .ok (a, t)) (hp : p.database = some m)
    (h : outcome (Pool.patch s stg f c returning) p = (.ok r, p')) :
    ∃ es m' t', es.Perm (f.matched s t (c.bound s)) ∧ p'.database = some m' ∧
      m'.catalog.find s.table.allQuoted = .ok (a, t') ∧ s.TableState t' ∧
      t' = c.applyToRows s es t ∧
      ∀ e ∈ es, ∀ name v, c.get? name = some (.set v) → v.isNull = false → v ≠ .real .nan →
        c.applyTo s e ∈ t'.entries ∧ s.FindsAgain t' name v (c.applyTo s e) := by
  obtain ⟨plan, cs, hplan⟩ := PatchPlan.planned_of_patch h
  obtain ⟨m', t', hm', hfind', hstate'⟩ := Pool.state_patch hf hnul hclear hfind hp h
  obtain ⟨⟨es, hes, -⟩, m'', hm'', hrewritten⟩ :=
    Pool.patch_ok hf hnul hclear (fun _ => halias) hfind hp h
  obtain rfl := Option.some.inj (hm'.symm.trans hm'')
  obtain ⟨-, rfl⟩ := Prod.mk.inj (Except.ok.inj (hfind'.symm.trans hrewritten.origin))
  have hsame : c.applyToRows s (f.matched s t (c.bound s)) t = c.applyToRows s es t := by
    simp only [Changes.applyToRows, hes.mem_iff]
  refine ⟨es, m', _, hes, hm', hfind', hstate', hsame, fun e he name v hset hnull hnan => ?_⟩
  have hmatched := hes.mem_iff.1 he
  have hin := (Filter.mem_of_matched hmatched).1
  have hrow : c.applyTo s e ∈ (c.applyToRows s (f.matched s t (c.bound s)) t).entries :=
    List.mem_map.2 ⟨e, hin, if_pos hmatched⟩
  have hkeeps := Changes.keeps_applyTo (Schema.fits_of_tableState hf.state) hin
    (Changes.check_ok hplan.checked) hset
  exact ⟨hrow, hkeeps.findsAgain (Schema.fits_of_tableState hstate') hrow hnull hnan⟩

omit [Entity ε] in
/-- A plan lets the row with the key of a change set keep what this sets. -/
theorem Plan.Compiled.keeps_after {plan : Plan} {sets : List (ChangeSet ε)} {c : ChangeSet ε}
    (h : plan.Compiled s sets) (hready : plan.written.Ready s t) (hc : c ∈ sets) {e' : Entry}
    (he' : e' ∈ (plan.written.appliedTo s t).entries) (hconcerns : c.concerns s e' = true)
    (hset : c.changes.get? name = some (.set v)) : s.Keeps name v e' := by
  obtain ⟨e, he, rfl, hkey⟩ := hready.exists_of_concerns he' hconcerns
  obtain ⟨r, hr, hof⟩ := h.rows.exists_right hc
  have hrow : r.written ∈ plan.written.rows := List.mem_map_of_mem hr
  have hsame : s.keyCell e = r.written.key := Except.ok.inj (hkey.symm.trans hof.key)
  rcases hof.cell name with ⟨hnone, -⟩ | ⟨d, f, hd, hf, hcell⟩
  · rw [hset] at hnone
    cases hnone
  · obtain rfl := Option.some.inj (hset.symm.trans hd)
    obtain ⟨w, hw, hcell⟩ := Except.bind_eq_ok_iff.1 hcell
    have hn : name ∈ plan.fields :=
      (h.mem_fields_iff name).2 ⟨c, hc, List.mem_map_of_mem (Changes.mem_of_get? hset)⟩
    refine ⟨f, w, hf, hw, ?_⟩
    rw [hready.fieldCell_after hrow he (hready.keyCell_eq_kept hrow he hsame) hf hn,
      hready.namedCell_field _ e hn,
      PlanRow.cell_written, ← Except.ok.inj hcell]
    rfl

theorem Pool.findsAgain_update {sets : List (ChangeSet ε)} {b : Batch ε Nat} {n : Nat}
    (hkind : s.primaryKey.kind ≠ .real) (hchecked : ∀ c ∈ sets, c.Checked s)
    (hclear : s.table.Clear stg.name) (halias : foldName s.table.name ≠ "_staged")
    (hm : p.database = some m) (ht : m.catalog.find s.table.allQuoted = .ok (a, t))
    (hstate : s.TableState t) (h : Pool.update s stg sets p = (b, p')) (hok : b.result = .ok n) :
    ∃ m' t', p'.database = some m' ∧ m'.catalog.find s.table.allQuoted = .ok (a, t') ∧
      s.TableState t' ∧ ∀ c ∈ sets, ∀ e ∈ t'.entries, c.concerns s e = true → ∀ name v,
        c.changes.get? name = some (.set v) → v.isNull = false → v ≠ .real .nan →
        s.FindsAgain t' name v e := by
  rcases Pool.update_applied hkind hchecked hclear halias hm ht hstate h with
    ⟨-, ⟨err, herror⟩ | ⟨hempty, rfl⟩⟩ | ⟨plan, bs, m', hcompiled, hready, -, hm', ht', hstate', -⟩
  · rw [hok] at herror
    cases herror
  -- Without changes nothing is set.
  · refine ⟨m, t, hm, ht, hstate, fun c hc e _ _ name v hset => ?_⟩
    have hin := Changes.mem_of_get? hset
    rw [List.isEmpty_iff.1 (hempty c hc)] at hin
    cases hin
  · refine ⟨m', _, hm', ht', hstate', fun c hc e he hconcerns name v hset hnull hnan => ?_⟩
    exact (hcompiled.keeps_after hready hc he hconcerns hset).findsAgain
      (Schema.fits_of_tableState hstate') he hnull hnan

end Operations

/-- A row whose field was written from a value, be it by an insertion, a patch or an update, is
matched by the filters that ask for the value, alone or among others, if and only if the value is no
integer that a field of reals rounds. -/
theorem written_values_are_found {ε : Type} [Entity ε] (s : Schema) (t : Table)
    (hstate : s.TableState t) :
    (∀ e ∈ t.entries, ∀ name v, s.Keeps name v e → v.isNull = false → v ≠ .real .nan →
      s.FindsAgain t name v e) ∧
    ∀ (a : Area) (m : MemoryDatabase) (p : Pool MemoryDatabase),
      m.catalog.find s.table.allQuoted = .ok (a, t) → p.database = some m →
      (∀ (items : List ε) (b : Batch ε Nat) n p', Pool.insert s items p = (b, p') →
        b.result = .ok n →
        ∃ m' t', p'.database = some m' ∧ m'.catalog.find s.table.allQuoted = .ok (a, t') ∧
          s.TableState t' ∧
          (∀ e ∈ t'.entries, e ∈ t.entries ∨ ∃ item ∈ items, s.FindsEntity t' item e) ∧
          ∀ item ∈ items, ∃ e ∈ t'.entries, s.FindsEntity t' item e) ∧
      ∀ stg : StagingTable, '\x00' ∉ stg.name.toList → s.table.Clear stg.name →
        foldName s.table.name ≠ "_staged" →
        (∀ f c returning r p', (∃ b : SchemaBuilder, b.build = .ok s) →
          Condition.AllComplete f.conditions →
          outcome (Pool.patch s stg f c returning) p = (.ok r, p') →
          ∃ es m' t', es.Perm (f.matched s t (c.bound s)) ∧ p'.database = some m' ∧
            m'.catalog.find s.table.allQuoted = .ok (a, t') ∧ s.TableState t' ∧
            t' = c.applyToRows s es t ∧
            ∀ e ∈ es, ∀ name v, c.get? name = some (.set v) → v.isNull = false →
              v ≠ .real .nan →
              c.applyTo s e ∈ t'.entries ∧ s.FindsAgain t' name v (c.applyTo s e)) ∧
        (s.primaryKey.kind ≠ .real → ∀ (sets : List (ChangeSet ε)) (b : Batch ε Nat) n p',
          (∀ c ∈ sets, ∃ key changes item, ChangeSet.new s key changes item = .ok c) →
          Pool.update s stg sets p = (b, p') → b.result = .ok n →
          ∃ m' t', p'.database = some m' ∧ m'.catalog.find s.table.allQuoted = .ok (a, t') ∧
            s.TableState t' ∧ ∀ c ∈ sets, ∀ e ∈ t'.entries, c.concerns s e = true → ∀ name v,
              c.changes.get? name = some (.set v) → v.isNull = false → v ≠ .real .nan →
              s.FindsAgain t' name v e) := by
  have hfits := Schema.fits_of_tableState hstate
  refine ⟨fun e he name v h => h.findsAgain hfits he, fun a m p hfind hm => ⟨?_, ?_⟩⟩
  · exact fun items b n p' h hok => Pool.findsEntity_insert hm hfind hstate h hok
  · refine fun stg hnul hclear halias => ⟨?_, fun hkind sets b n p' hnew h hok => ?_⟩
    · intro f c returning r p' hb hcomplete h
      exact Pool.findsAgain_patch ⟨hb, hstate, Filter.declared_of_patch h, hcomplete⟩ hnul hclear
        halias hfind hm h
    · exact Pool.findsAgain_update hkind (ChangeSet.forall_checked hnew) hclear halias hm hfind
        hstate h hok

/-! ## An integer between two reals -/

namespace SignedZero

/-- The least positive integer that is no real. -/
def odd : Int64 := 9007199254740993

def oddItem : Record := .ofList [("id", .integer 2), ("x", .integer odd)]

theorem insert_odd : (Pool.insert schema [oddItem] pool).1.result = .ok 1 := by
  with_unfolding_all rfl

theorem not_exact_odd : ¬ schema.Exact "x" (.integer odd) := by
  intro h
  have hreal := h ⟨"x", .real, true⟩ rfl odd rfl rfl
  exact absurd hreal (by decide +kernel)

end SignedZero

open SignedZero in
/-- An integer that is no real is inserted, and no filter that asks for it matches the row. -/
theorem rounded_integer_is_not_found :
    (Pool.insert schema [oddItem] pool).1.result = .ok 1 ∧
    ∃ m t e, (Pool.insert schema [oddItem] pool).2.database = some m ∧
      m.catalog.find schema.table.allQuoted = .ok (.main, t) ∧ e ∈ t.entries ∧
      schema.Keeps "id" (.integer 2) e ∧ schema.Keeps "x" (.integer odd) e ∧
      e ∉ (Filter.all.and (.test "x" .eq (.integer odd))).matched schema t #[] ∧
      e ∉ (Filter.all.isIn "x" [.integer odd]).matched schema t #[] := by
  obtain ⟨m, t, hm, ht, hstate, -, hinserted⟩ := Pool.findsEntity_insert
    (show pool.database = some _ from rfl) (by with_unfolding_all rfl) tableState_holding
    (show Pool.insert schema [oddItem] pool = (_, _) from rfl) insert_odd
  obtain ⟨e, he, hfinds⟩ := hinserted oddItem (by simp)
  have hid := hfinds ⟨"id", .integer, false⟩ (by decide) rfl nofun
  have hx := hfinds ⟨"x", .real, true⟩ (by decide) rfl nofun
  have hinexact : ¬ schema.Exact "x" (.integer odd) := not_exact_odd
  refine ⟨insert_odd, m, t, e, hm, ht, he, hid.kept, hx.kept, fun hequal => ?_, fun hlisted => ?_⟩
  · exact hinexact (hx.equal.1 hequal)
  · obtain ⟨v, hv, hequals⟩ := (Filter.mem_matched_isIn (Schema.fits_of_tableState hstate) he
      ⟨_, rfl⟩ (List.cons_ne_nil _ _)).1 hlisted
    obtain rfl := List.mem_singleton.1 hv
    exact hinexact ((hx.kept.equals_iff rfl nofun).1 hequals)

/-! ## Rows that are written and found -/

namespace SignedZero

def evenItem : Record := .ofList [("id", .integer 2), ("x", .integer 6)]

theorem insert_even : (Pool.insert schema [evenItem] pool).1.result = .ok 1 := by
  with_unfolding_all rfl

end SignedZero

namespace ThreeRows

def level : Changes := Changes.empty.set "x" (.integer 10)

def levelPlan : PatchPlan where
  query := below.query schema (PatchPlan.selected schema level []
    [.expr (.param (some 1)) (some (.quoted "x"))]) (below.build #[.integer 10]).1
  params := #[.integer 10, .integer 8]
  staged := ["id", "x"]
  touched := ["x"]
  reported := []

theorem compile_level : PatchPlan.compile schema below level [] = .ok levelPlan := by
  with_unfolding_all rfl

/-- The rows behind the patch. -/
def levelled : List Entry :=
  [⟨3, #[.integer 3, .integer 10]⟩, ⟨2, #[.integer 2, .null]⟩, ⟨1, #[.integer 1, .integer 10]⟩]

/-- The staged rows. -/
def levels : Table :=
  ⟨"stage", [⟨"id", .integer, false⟩, ⟨"x", .blob, false⟩], none, false, [], [], [], 2,
    [⟨2, #[.integer 3, .integer 10]⟩, ⟨1, #[.integer 1, .integer 10]⟩]⟩

def fillingLevels : Sql.Statement :=
  .createTemporary (.quoted "stage") (.select levelPlan.query)

theorem run_fillLevels : (Database.run fillingLevels levelPlan.params : Step MemoryDatabase Nat).run
    (during entries [] 3) = (.ok 3, during entries [levels] 3) := by
  have hprepare : prepare ((during entries [] 3).context levelPlan.params) fillingLevels =
      .ok (.create .temp levels) := by
    with_unfolding_all rfl
  exact run_eq (by decide) hprepare (by decide) rfl rfl

theorem run_countLevels : (Database.query staging.countQuery #[] :
    Step MemoryDatabase (List Row)).run (during entries [levels] 3) =
      (.ok [⟨["n"], [.integer 2]⟩], during entries [levels] 3) := by
  with_unfolding_all rfl

theorem runs_updateLevels : Session.Runs (staging.applyUpdate schema ["x"])
    (during entries [levels] 3) 2 (during levelled [levels] 2) := by
  have hupdates : StagingTable.Updates schema staging (during entries [levels] 3).catalog .main
      (table 3 entries) levels ["id", "x"] ["x"] :=
    { fits := Schema.fits_of_tableState tableState
      origin := by with_unfolding_all rfl
      staging := by with_unfolding_all rfl
      named := ⟨rfl, by with_unfolding_all decide, by decide⟩
      alias_ne := by with_unfolding_all decide
      key_mem := by decide
      fields_mem := by decide
      declared := fun n hn => declared n (by simp_all) }
  have hperform : (during entries [levels] 3).perform (.update .main (table 3 entries)
      ((["x"].map schema.fieldIndex).any fun j => (table 3 entries).key = some j)
      fun e => (StagingTable.meeting? schema ["id", "x"] ⟨"id", .integer, false⟩ levels e).map
        (schema.assignments ["id", "x"] ["x"])) = (.ok (), during levelled [levels] 2) := by
    with_unfolding_all rfl
  exact StagingTable.runs_applyUpdate hupdates rfl rfl (by decide) (by decide) rfl
    (by decide) hperform

theorem patch_level : ∃ p', outcome (Pool.patch schema staging below level []) pool =
    (.ok ⟨2, [.integer 1, .integer 3], []⟩, p') := by
  have hread : (Database.query (staging.readBackQuery levelPlan.staged) #[] :
      Step MemoryDatabase (List Row)).run (during levelled [levels] 2) =
        (.ok [⟨["id", "x"], [.integer 1, .integer 10]⟩, ⟨["id", "x"], [.integer 3, .integer 10]⟩],
          during levelled [levels] 2) := by
    cbv
  have hdrop : (Database.script staging.dropScript : Step MemoryDatabase Unit).run
      (during levelled [levels] 2) = (.ok (), during levelled [] 2) := by
    with_unfolding_all rfl
  have hdecode : [(⟨["id", "x"], [.integer 1, .integer 10]⟩ : Row),
      ⟨["id", "x"], [.integer 3, .integer 10]⟩].mapM (levelPlan.decodeRow schema) =
        .ok [(.integer 1, []), (.integer 3, [])] := by
    with_unfolding_all rfl
  have hruns : Session.Runs (levelPlan.apply schema staging) (during entries [] 3)
      ⟨2, [.integer 1, .integer 3], []⟩ (during levelled [] 2) := by
    rw [PatchPlan.apply_eq]
    refine Session.runs_bind (StagingTable.runs_create run_drop run_fillLevels run_countLevels) ?_
    refine Session.runs_bind runs_updateLevels ?_
    refine Session.runs_bind (StagingTable.runs_readBack hread) ?_
    refine Session.runs_bind (StagingTable.runs_discard hdrop) ?_
    exact Session.runs_bind (Session.runs_ofExcept hdecode) (Session.runs_pure _)
  obtain ⟨q, hrun, -⟩ := Pool.withLease_eq (p := pool) rfl rfl hruns rfl rfl
  refine ⟨q.note (.patchApplied "t" 2 2), ?_⟩
  refine Action.outcome_bind_eq_ok_iff.2 ⟨levelPlan, pool, ?_, ?_⟩
  · rw [Action.outcome_ofExcept, compile_level]
  · exact Action.outcome_bind_eq_ok_iff.2 ⟨_, q, hrun, rfl⟩

end ThreeRows

open SignedZero in
/-- An even integer that is inserted into a field of reals is found, as is the zero that an update
sets there, and so are the integers of two rows that a patch sets. -/
theorem written_values_are_found_of_four :
    (∃ m t e, (Pool.insert schema [evenItem] pool).2.database = some m ∧
      m.catalog.find schema.table.allQuoted = .ok (.main, t) ∧ e ∈ t.entries ∧
      e ∈ (Filter.all.and (.test "x" .eq (.integer 6))).matched schema t #[]) ∧
    (∃ b p' m t e, Pool.update schema staging sets pool = (b, p') ∧ p'.database = some m ∧
      m.catalog.find schema.table.allQuoted = .ok (.main, t) ∧ e ∈ t.entries ∧
      e ∈ (Filter.all.and (.test "x" .eq (.real (.zero true)))).matched schema t #[]) ∧
    ∃ p' m t, ∃ es : List Entry, outcome (Pool.patch ThreeRows.schema ThreeRows.staging
        ThreeRows.below ThreeRows.level []) ThreeRows.pool =
          (.ok ⟨2, [.integer 1, .integer 3], []⟩, p') ∧
      p'.database = some m ∧ m.catalog.find ThreeRows.schema.table.allQuoted = .ok (.main, t) ∧
      es.Perm (ThreeRows.below.matched ThreeRows.schema (ThreeRows.table 3 ThreeRows.entries)
        (ThreeRows.level.bound ThreeRows.schema)) ∧
      ∀ e ∈ es, ThreeRows.level.applyTo ThreeRows.schema e ∈
        (Filter.all.isIn "x" [.integer 4, .integer 10]).matched ThreeRows.schema t #[] := by
  obtain ⟨-, hone⟩ := written_values_are_found (ε := Record) schema (holding .null)
    tableState_holding
  obtain ⟨hinsert, hrest⟩ := hone .main ⟨⟨[holding .null], []⟩, none, 1, 1⟩ pool
    (by with_unfolding_all rfl) rfl
  obtain ⟨-, hupdate⟩ := hrest staging (by decide) (by decide +kernel) (by decide +kernel)
  obtain ⟨-, hthree⟩ := written_values_are_found (ε := Record) ThreeRows.schema
    (ThreeRows.table 3 ThreeRows.entries) ThreeRows.tableState
  obtain ⟨-, hpatches⟩ := hthree .main ⟨⟨[ThreeRows.table 3 ThreeRows.entries], []⟩, none, 3, 3⟩
    ThreeRows.pool (by with_unfolding_all rfl) rfl
  obtain ⟨hpatch, -⟩ := hpatches ThreeRows.staging (by decide) (by decide +kernel)
    (by decide +kernel)
  refine ⟨?_, ?_, ?_⟩
  · obtain ⟨m, t, hm, ht, -, -, hinserted⟩ := hinsert [evenItem] _ 1 _ rfl insert_even
    obtain ⟨e, he, hfinds⟩ := hinserted evenItem (by simp)
    have hx := hfinds ⟨"x", .real, true⟩ (by decide) rfl nofun
    refine ⟨m, t, e, hm, ht, he, hx.equal.2 ?_⟩
    rintro f hf n hkind ⟨⟩
    decide +kernel
  · obtain ⟨b, p', hrun, hok, hdatabase⟩ := update_sets
    obtain ⟨m, t, hm, ht, -, hset⟩ := hupdate (by decide) sets b 1 p' new_sets hrun hok
    obtain rfl := Option.some.inj (hdatabase.symm.trans hm)
    have hfind : (⟨[holding (.real (.zero false))], []⟩ : Catalog).find schema.table.allQuoted =
        .ok (.main, holding (.real (.zero false))) := by
      with_unfolding_all rfl
    obtain ⟨-, rfl⟩ := Prod.mk.inj (Except.ok.inj (hfind.symm.trans ht))
    have hx := hset (sets.head (by decide)) (List.head_mem _)
      ⟨1, #[.integer 1, .real (.zero false)]⟩ (by simp [holding, table]) (by decide +kernel) "x"
      (.real (.zero true)) rfl rfl (fun h => nomatch Value.real.inj h)
    exact ⟨b, p', _, _, _, hrun, hdatabase, hfind, by simp [holding, table],
      hx.equal.2 fun f hf n hkind hv => nomatch hv⟩
  · obtain ⟨p', hrun⟩ := ThreeRows.patch_level
    obtain ⟨es, m, t, hes, hm, ht, -, -, hset⟩ := hpatch ThreeRows.below ThreeRows.level [] _ p'
      ⟨_, ThreeRows.build_builder⟩ ⟨trivial, trivial⟩ hrun
    refine ⟨p', m, t, es, hrun, hm, ht, hes, fun e he => ?_⟩
    obtain ⟨-, hx⟩ := hset e he "x" (.integer 10) rfl rfl nofun
    refine hx.listed ?_ _ (by simp)
    rintro f hf n hkind -
    obtain rfl := Except.ok.inj (hf.symm.trans (show ThreeRows.schema.requireField "x" =
      .ok ⟨"x", .integer, true⟩ from rfl))
    cases hkind

end StagedStore
