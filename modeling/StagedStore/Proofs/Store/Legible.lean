import StagedStore.Proofs.Filter.Columns
import StagedStore.Proofs.Insert.Rows
import StagedStore.Proofs.Store.Chronology
import StagedStore.Proofs.Store.Told

/-!
# Timestamps that are read back

A timestamp is written with a sign if its year does not have four digits, and with a sign no text is
read. What was written of the others is read again, so that rows into which only such timestamps were
stored are found.
-/

namespace StagedStore

open Memory MemoryDatabase

/-! ## Fields of timestamps -/

/-- A cell can be read by a field. -/
def Field.Reads (f : Field) (w : Storage) : Prop :=
  ∃ v, f.decode w = .ok v

namespace Field

variable {f : Field} {v : Value} {w : Storage} {e : Error}

/-- What cannot be decoded is told with the name of the field. -/
theorem decode_error (h : f.decode w = .error e) : ∃ r, e = .decode f.name r := by
  have helim {α : Type} {o : Option α} {g : α → Value} {k : FieldKind}
      (h : (o.elim (.error (.decode f.name (.malformed k))) fun x => .ok (g x) :
        Except Error Value) = .error e) : ∃ r, e = .decode f.name r := by
    cases o with
    | none => exact ⟨_, (Except.error.inj h).symm⟩
    | some x => cases h
  unfold decode at h
  dsimp only at h
  split at h
  case h_9 | h_10 | h_11 => exact helim h
  case h_3 =>
      split at h
      · cases h
      · exact ⟨_, (Except.error.inj h).symm⟩
  case h_12 => exact ⟨_, (Except.error.inj h).symm⟩
  all_goals cases h

theorem reads_null (f : Field) : f.Reads .null := by
  obtain ⟨name, kind, nullable⟩ := f
  cases kind <;> exact ⟨.null, rfl⟩

namespace Reads

theorem bound (h : f.Reads w) : f.Reads w.bound := by
  unfold Storage.bound
  split
  · exact f.reads_null
  · exact h

/-- What a field reads, it reads from its column. -/
theorem store (h : f.Reads w) : f.Reads (f.affinity.store w) := by
  obtain ⟨v, hv⟩ := h
  obtain ⟨u, hu, -⟩ := decode_store hv
  exact ⟨u, hu⟩

end Reads

/-- A legible value that a field takes can be read again. -/
theorem reads_of_encode (h : f.encode v = .ok w) (hv : v.Legible) : f.Reads w := by
  rcases encode_ok h with ⟨-, -, rfl⟩ | ⟨-, hkind⟩
  · exact f.reads_null
  · exact ⟨_, decode_of_encodeKind? hkind hv⟩

section Timestamps

variable {u : Timestamp}

theorem encode_timestamp (hkind : f.kind = .timestamp) :
    f.encode (.timestamp u) = .ok (.text u.toStorageText) :=
  encode_of_encodeKind? rfl (by rw [hkind]; rfl)

/-- A timestamp is read again, but for what is below a microsecond, if its year has four digits. -/
theorem decode_encoded (hkind : f.kind = .timestamp) (h : f.encode (.timestamp u) = .ok w)
    (hu : (Value.timestamp u).Legible) : f.decode w = .ok (.timestamp u.toMicros) := by
  obtain ⟨name, kind, nullable⟩ := f
  cases hkind
  obtain rfl := Except.ok.inj (h.symm.trans (encode_timestamp rfl))
  exact decode_timestamp (Timestamp.ofText?_toStorageText hu.1 hu.2)

/-- Of any other timestamp, which a field takes as well, the text cannot be read. -/
theorem decode_encoded_of_signed (hkind : f.kind = .timestamp)
    (h : f.encode (.timestamp u) = .ok w) (hu : ¬ (Value.timestamp u).Legible) :
    f.decode w = .error (.decode f.name (.malformed .timestamp)) := by
  obtain ⟨name, kind, nullable⟩ := f
  cases hkind
  obtain rfl := Except.ok.inj (h.symm.trans (encode_timestamp rfl))
  simp only [decode, Timestamp.ofText?_toStorageText_of_signed hu, Option.elim_none]

end Timestamps

end Field

/-! ## Rows that are not found -/

theorem Fault.toError_ne_decode (f : Fault) (n : String) (r : Undecodable) :
    f.toError ≠ .decode n r := by
  cases f <;> simp [toError]

section Find

variable {s : Schema} {t : Table} {f : Filter} {a : Area} {m : MemoryDatabase}
  {p p' : Pool MemoryDatabase} {e : Entry} {n : String} {r : Undecodable}

/-- A query under a lease decodes nothing. -/
theorem Pool.ne_decode_of_queryAll {q : Sql.Statement} {params : Sql.Params} {err : Error}
    (h : outcome (withLease (Connection.queryAll q params : Action (Session MemoryDatabase) _)) p =
      (.error err, p')) : err ≠ .decode n r := by
  have hundo (e : Error) (d : MemoryDatabase) (he : e ≠ .decode n r) :
      (undo e d).1 ≠ .decode n r := by
    unfold undo
    split
    · exact he
    · simp
  have hsettle {α : Type} (x : α) (d : MemoryDatabase) {e : Error} (he : (settle x d).1 = .error e) :
      e ≠ .decode n r := by
    unfold settle at he
    split at he
    · cases he
    · split at he <;> exact Except.error.inj he ▸ Fault.toError_ne_decode _ n r
  have hquery {σ : Session MemoryDatabase} {e : Error} {σ' : Session MemoryDatabase}
      (he : outcome (Connection.queryAll q params) σ = (.error e, σ')) : e ≠ .decode n r := by
    change outcome (Session.observe _ _) σ = _ at he
    unfold outcome ExceptT.run Session.observe at he
    dsimp only at he
    split at he
    · cases he
    · exact Except.error.inj (Prod.mk.inj he).1 ▸ Fault.toError_ne_decode _ n r
  rw [outcome_withLease] at h
  split at h
  · rw [← Except.error.inj (Prod.mk.inj h).1]
    simp [Error.poolClosed]
  · have hrun := (Prod.mk.inj h).1
    rw [outcome_transaction] at hrun
    split at hrun
    · rw [← Except.error.inj hrun]
      simp [Error.poolClosed]
    · dsimp only at hrun
      rw [transact_eq] at hrun
      split at hrun
      · exact Except.error.inj hrun ▸ Fault.toError_ne_decode _ n r
      · split at hrun
        · exact hsettle _ _ hrun
        · rename_i hfailed
          exact Except.error.inj hrun ▸ hundo _ _ (hquery hfailed)

/-- A record cannot be made of a row as one of the fields cannot be decoded. -/
theorem Schema.recordOf_error {err : Error} (h : s.recordOf e = .error err) :
    ∃ g ∈ s.fields, g.decode (s.fieldCell g.name e) = .error err := by
  rcases Except.bind_eq_error_iff.1 h with hfields | ⟨fields, -, h⟩
  · obtain ⟨g, hg, hfailed⟩ := Except.mapM_eq_error hfields
    refine ⟨g, hg, ?_⟩
    rcases Except.bind_eq_error_iff.1 hfailed with hfailed | ⟨v, -, hfailed⟩
    · exact hfailed
    · cases hfailed
  · cases h

theorem Schema.recordOf_ok {record : Record} (h : s.recordOf e = .ok record) :
    ∀ g ∈ s.fields, g.Reads (s.fieldCell g.name e) := by
  intro g hg
  obtain ⟨fields, hfields, -⟩ := Except.bind_eq_ok_iff.1 h
  obtain ⟨x, -, hx⟩ := (Except.mapM_eq_ok_iff.1 hfields).exists_right hg
  obtain ⟨v, hv, -⟩ := Except.bind_eq_ok_iff.1 hx
  exact ⟨v, hv⟩

/-- Finding fails to decode only what a field of a matched row holds. -/
theorem Pool.find_decode_error (hb : ∃ b : SchemaBuilder, b.build = .ok s) (hstate : s.TableState t)
    (hcomplete : Condition.AllComplete f.conditions)
    (hfind : m.catalog.find s.table.allQuoted = .ok (a, t)) (hp : p.database = some m)
    (h : outcome (Pool.find s f) p = (.error (.decode n r), p')) :
    ∃ e ∈ f.matched s t #[], ∃ g ∈ s.fields, g.name = n ∧
      g.decode (s.fieldCell n e) = .error (.decode n r) := by
  -- An undeclared name is refused before there is a query, and that is no failure to decode.
  have hdeclared : ∀ c ∈ f.columns, ∃ g, s.requireField c = .ok g := by
    rcases Action.outcome_bind_eq_error_iff.1 h with hselect | ⟨q, p₁, hselect, -⟩
    · have hcheck : (Selection.mk s f [.all]).check = .error (.decode n r) := by
        rcases Except.bind_eq_error_iff.1 (Prod.mk.inj hselect).1 with hcheck | ⟨x, -, hbuild⟩
        · exact hcheck
        · cases hbuild
      rw [Selection.check_eq (by simp)] at hcheck
      obtain ⟨c, -, -, he⟩ := Selection.checkColumns_eq_error hcheck
      cases he
    · exact Filter.declared_of_select (Prod.mk.inj hselect).1
  rcases find_error ⟨hb, hstate, hdeclared, hcomplete⟩ hfind hp h with hquery | hrecords
  · exact absurd rfl (ne_decode_of_queryAll hquery)
  · obtain ⟨e, he, hrecord⟩ := Except.mapM_eq_error hrecords
    obtain ⟨g, hg, hdecode⟩ := Schema.recordOf_error hrecord
    obtain ⟨r', hr⟩ := Field.decode_error hdecode
    obtain ⟨rfl, -⟩ := Error.decode.inj hr
    exact ⟨e, he, g, hg, rfl, hdecode⟩

/-- The names in the filter of a find that succeeds are declared. -/
theorem Pool.suits_of_find {records : List Record} (hb : ∃ b : SchemaBuilder, b.build = .ok s)
    (hstate : s.TableState t) (hcomplete : Condition.AllComplete f.conditions)
    (h : outcome (Pool.find s f) p = (.ok records, p')) : f.Suits s t := by
  obtain ⟨q, p₁, hselect, -⟩ := Action.outcome_bind_eq_ok_iff.1 h
  exact ⟨hb, hstate, Filter.declared_of_select (Prod.mk.inj hselect).1, hcomplete⟩

/-- Finding does not succeed with a row of which a field cannot be read. -/
theorem Pool.reads_of_find {records : List Record} (hb : ∃ b : SchemaBuilder, b.build = .ok s)
    (hstate : s.TableState t) (hcomplete : Condition.AllComplete f.conditions)
    (hfind : m.catalog.find s.table.allQuoted = .ok (a, t)) (hp : p.database = some m)
    (h : outcome (Pool.find s f) p = (.ok records, p')) {g : Field} (he : e ∈ f.matched s t #[])
    (hg : g ∈ s.fields) : g.Reads (s.fieldCell g.name e) := by
  have hrecords := (find_ok (suits_of_find hb hstate hcomplete h) hfind hp h).1
  obtain ⟨record, -, hrecord⟩ := (Except.mapM_eq_ok_iff.1 hrecords).exists_right he
  exact Schema.recordOf_ok hrecord g hg

end Find

/-! ## Rows that are stored -/

/-- Every field of timestamps can be read in a row. -/
def Schema.ReadsTimes (s : Schema) (e : Entry) : Prop :=
  ∀ f ∈ s.fields, f.kind = .timestamp → f.Reads (s.fieldCell f.name e)

/-- What is given for fields of timestamps can be read when it is stored. -/
def Schema.TakesTimes (s : Schema) (given : String → Option Value) : Prop :=
  ∀ f ∈ s.fields, f.kind = .timestamp → ∀ v, given f.name = some v → v.Legible

/-- The value that changes set a field to. -/
def Changes.given? (c : Changes) (n : String) : Option Value :=
  match c.get? n with
  | some (.set v) => some v
  | _ => none

section Stored

variable {ε : Type} {s : Schema} {t : Table} {e : Entry} {f : Field} {c : Changes} {p : Plan}
  {sets : List (ChangeSet ε)}

theorem Delta.encode_of_check {v : Value} (h : (Delta.set v).check f = .ok ()) :
    ∃ w, f.encode v = .ok w := by
  obtain ⟨w, hw, -⟩ := Except.bind_eq_ok_iff.1 h
  exact ⟨w, hw⟩

theorem Changes.check_get? {d : Delta} (h : ∀ d ∈ c.entries, d.1 ≠ s.primaryKey.name ∧
    ∃ f, s.requireField d.1 = .ok f ∧ d.2.check f = .ok ()) (hf : s.requireField f.name = .ok f)
    (hd : c.get? f.name = some d) : d.check f = .ok () := by
  obtain ⟨-, g, hg, hcheck⟩ := h _ (mem_of_get? hd)
  obtain rfl := Except.ok.inj (hf.symm.trans hg)
  exact hcheck

/-- Changes with legible values leave what the field of a row can read. -/
theorem Changes.reads_cellAfter {old : Storage} (hkind : f.kind.isNumeric = false)
    (hcheck : ∀ d, c.get? f.name = some d → d.check f = .ok ())
    (hgiven : ∀ v, c.given? f.name = some v → v.Legible) (hold : f.Reads old) :
    f.Reads (c.cellAfter f old) := by
  unfold cellAfter
  cases hd : c.get? f.name with
  | none => exact hold
  | some d =>
      have hchecked := hcheck d hd
      cases d with
      | set v =>
          obtain ⟨w, hw⟩ := Delta.encode_of_check hchecked
          have hv : v.Legible := hgiven v (by rw [given?, hd])
          have hcell : (Delta.set v).cellAfter f old = f.affinity.store w.bound := by
            rw [Field.store_encode hw, Delta.cellAfter, hw]
            rfl
          change f.Reads ((Delta.set v).cellAfter f old)
          rw [hcell]
          exact (Field.reads_of_encode hw hv).bound.store
      | increment v =>
          rw [Delta.isNumeric_of_check hchecked] at hkind
          cases hkind
      | unset => exact f.reads_null

/-- A row made of legible values can be read in its fields of timestamps. -/
theorem Schema.MadeOf.readsTimes {fields : List Field} {row : List Storage} {given : String → Value}
    (h : s.MadeOf fields row e)
    (hencoded : List.Forall₂ (fun f w => f.encode (given f.name) = .ok w) fields row)
    (hgiven : s.TakesTimes fun n => some (given n)) : s.ReadsTimes e := by
  intro f hf hkind
  have hkey : s.hasRowKey = true → f ≠ s.primaryKey := by
    rintro hrow rfl
    rw [hasRowKey, s.primaryKey.affinity_eq, hkind] at hrow
    cases hrow
  rcases h f hf hkey with hcell | ⟨w, hw, hcell⟩ <;> rw [hcell]
  · exact f.reads_null.store
  · have hv := (List.forall₂_iff_zip.1 hencoded).2 hw
    exact (Field.reads_of_encode hv (hgiven f hf hkind _ rfl)).bound.store

/-- The cell of a field that is none of numbers is no amount, and is written as it is. -/
theorem PlanRow.Of.cell_written {c : ChangeSet ε} {r : PlanRow} (h : r.Of s c) (hc : c.Checked s)
    (hf : s.requireField f.name = .ok f) (hkind : f.kind.isNumeric = false) :
    r.written.cell f.name = r.cell f.name := by
  rw [PlanRow.cell_written]
  cases hx : r.cell f.name with
  | increment x =>
      rcases h.cell f.name with ⟨-, hnone⟩ | ⟨d, g, hd, hg, hcell⟩
      · rw [hx] at hnone
        cases hnone
      · obtain rfl := Except.ok.inj (hf.symm.trans hg)
        rw [hx] at hcell
        obtain ⟨v, rfl, -⟩ := Cell.increment_of_ofDelta hcell
        rw [Delta.isNumeric_of_check (Changes.check_get? hc.entries hf hd)] at hkind
        cases hkind
  | _ => rfl

/-- A plan leaves in a field that is none of numbers what it held before, or what one of its change
sets makes of it. -/
theorem Plan.Compiled.fieldCell_after (h : p.Compiled s sets) (hready : p.written.Ready s t)
    (hchecked : ∀ c ∈ sets, c.Checked s) (he : e ∈ t.entries) (hf : s.requireField f.name = .ok f)
    (hkind : f.kind.isNumeric = false) :
    s.fieldCell f.name (p.written.after s t e) = s.fieldCell f.name e ∨
      ∃ c ∈ sets, s.fieldCell f.name (p.written.after s t e) =
        c.changes.cellAfter f (s.fieldCell f.name e) := by
  obtain ⟨hplace, -⟩ := Schema.getElem?_fieldIndex hf
  by_cases hn : f.name ∈ p.fields
  · cases hrow : p.written.rowOf? s e with
    | none =>
        left
        unfold after StagingTable.updated source
        rw [hrow]
        rfl
    | some r =>
        right
        obtain ⟨hr, hkey⟩ := hready.rowOf?_eq_some.1 hrow
        obtain ⟨q, hq, rfl⟩ := List.mem_map.1 hr
        obtain ⟨c, hc, hof⟩ := h.exists_of_mem_rows hq
        refine ⟨c, hc, ?_⟩
        rw [hready.fieldCell_after hr he hkey hf hn, hready.namedCell_field _ e hn,
          hof.cell_written (hchecked c hc) hf hkind]
        exact store_resolved hof hf ((hready.fits.rows e he).stored _ f hplace)
  · left
    unfold Schema.fieldCell
    rw [hready.getElem?_after_of_notMem e hplace hn]

end Stored

/-! ## Calls, one after the other -/

/-- A call that succeeds and gives no field of timestamps what it cannot read again. -/
inductive Schema.Accepts (s : Schema) (stg : StagingTable) :
    Pool MemoryDatabase → Pool MemoryDatabase → Prop
  | insert {ε : Type} [Entity ε] {items : List ε} {b : Batch ε Nat} {n : Nat}
      {p p' : Pool MemoryDatabase}
      (given : ∀ item ∈ items, s.TakesTimes fun n => some (Entity.fieldOrNull item n))
      (run : Pool.insert s items p = (b, p')) (ok : b.result = .ok n) : Accepts s stg p p'
  | update {ε : Type} [Entity ε] {sets : List (ChangeSet ε)} {b : Batch ε Nat} {n : Nat}
      {p p' : Pool MemoryDatabase} (key : s.primaryKey.kind ≠ .real)
      (new : ∀ c ∈ sets, ∃ key changes item, ChangeSet.new s key changes item = .ok c)
      (given : ∀ c ∈ sets, s.TakesTimes c.changes.given?)
      (run : Pool.update s stg sets p = (b, p')) (ok : b.result = .ok n) : Accepts s stg p p'
  | patch {f : Filter} {c : Changes} {returning : List String} {r : Patched}
      {p p' : Pool MemoryDatabase} (complete : Condition.AllComplete f.conditions)
      (given : s.TakesTimes c.given?)
      (run : outcome (Pool.patch s stg f c returning) p = (.ok r, p')) : Accepts s stg p p'
  | find {f : Filter} {records : List Record} {p p' : Pool MemoryDatabase}
      (complete : Condition.AllComplete f.conditions)
      (run : outcome (Pool.find s f) p = (.ok records, p')) : Accepts s stg p p'

/-- The table of a schema stands in an area of the database of a pool, and every field of timestamps
can be read in each of its rows. -/
def Schema.HoldsTimes (s : Schema) (a : Area) (p : Pool MemoryDatabase) : Prop :=
  ∃ m t, p.database = some m ∧ m.catalog.find s.table.allQuoted = .ok (a, t) ∧ s.TableState t ∧
    ∀ e ∈ t.entries, s.ReadsTimes e

namespace Schema

variable {s : Schema} {stg : StagingTable} {a : Area} {p p' : Pool MemoryDatabase} {t : Table}

/-- A row after changes with legible values. -/
theorem ReadsTimes.applyTo {c : Changes} {e : Entry} (hfits : s.Fits t) (he : e ∈ t.entries)
    (hcheck : ∀ d ∈ c.entries, d.1 ≠ s.primaryKey.name ∧
      ∃ f, s.requireField d.1 = .ok f ∧ d.2.check f = .ok ()) (hgiven : s.TakesTimes c.given?)
    (h : s.ReadsTimes e) : s.ReadsTimes (c.applyTo s e) := by
  intro f hf hkind
  have hfield := requireField_of_mem hf
  rw [Changes.fieldCell_applyTo hfits hfield he]
  exact Changes.reads_cellAfter (by rw [hkind]; rfl) (fun d => Changes.check_get? hcheck hfield)
    (hgiven f hf hkind) (h f hf hkind)

/-- A row after a plan of change sets with legible values. -/
theorem ReadsTimes.after {ε : Type} {sets : List (ChangeSet ε)} {plan : Plan} {e : Entry}
    (h : s.ReadsTimes e) (hcompiled : plan.Compiled s sets) (hready : plan.written.Ready s t)
    (hchecked : ∀ c ∈ sets, c.Checked s) (hgiven : ∀ c ∈ sets, s.TakesTimes c.changes.given?)
    (he : e ∈ t.entries) : s.ReadsTimes (plan.written.after s t e) := by
  intro f hf hkind
  have hfield := requireField_of_mem hf
  have hnumber : f.kind.isNumeric = false := by
    rw [hkind]
    rfl
  rcases hcompiled.fieldCell_after hready hchecked he hfield hnumber with hcell | ⟨c, hc, hcell⟩
  · rw [hcell]
    exact h f hf hkind
  · rw [hcell]
    exact Changes.reads_cellAfter hnumber
      (fun d => Changes.check_get? (hchecked c hc).entries hfield) (hgiven c hc f hf hkind)
      (h f hf hkind)

/-- One accepted call leaves rows that can be read. -/
theorem HoldsTimes.step (hb : ∃ b : SchemaBuilder, b.build = .ok s) (hnul : '\x00' ∉ stg.name.toList)
    (hclear : s.table.Clear stg.name) (halias : foldName s.table.name ≠ "_staged")
    (h : s.HoldsTimes a p) (hstep : s.Accepts stg p p') : s.HoldsTimes a p' := by
  obtain ⟨m, t, hm, hfind, hstate, hreads⟩ := h
  cases hstep with
  | insert hgiven hrun hok =>
      obtain ⟨m', t', fields, rows, hm', hfind', hextends, hencoded⟩ :=
        Pool.insert_extends hm hfind hstate hrun hok
      refine ⟨m', t', hm', hfind', hextends.state, fun e he => ?_⟩
      rcases hextends.entries e he with he | ⟨row, hrow, hmade⟩
      · exact hreads e he
      · obtain ⟨item, hitem, hencoded⟩ := hencoded row hrow
        exact hmade.readsTimes hencoded (hgiven item hitem)
  | @update _ _ sets _ _ _ _ hkind hnew hgiven hrun hok =>
      have hchecked := ChangeSet.forall_checked hnew
      rcases Pool.update_applied hkind hchecked hclear halias hm hfind hstate hrun with
        ⟨-, ⟨err, herror⟩ | ⟨-, rfl⟩⟩ | ⟨plan, bs, m', hcompiled, hready, -, hm', hfind', hstate', -⟩
      · rw [hok] at herror
        cases herror
      -- With nothing to change, no plan is applied.
      · exact ⟨m, t, hm, hfind, hstate, hreads⟩
      · refine ⟨m', _, hm', hfind', hstate', fun e' he' => ?_⟩
        obtain ⟨e, he, rfl⟩ := List.mem_map.1 he'
        exact (hreads e he).after hcompiled hready hchecked hgiven he
  | @patch f c _ _ _ _ hcomplete hgiven hrun =>
      obtain ⟨plan, cs, hplan⟩ := PatchPlan.planned_of_patch hrun
      have hsuits : f.Suits s t := ⟨hb, hstate, hplan.columns, hcomplete⟩
      have hcheck := Changes.check_ok hplan.checked
      obtain ⟨m', t', hm', hfind', hstate'⟩ := Pool.state_patch hsuits hnul hclear hfind hm hrun
      obtain ⟨-, m'', hm'', hrewritten⟩ :=
        Pool.patch_ok hsuits hnul hclear (fun _ => halias) hfind hm hrun
      obtain rfl := Option.some.inj (hm'.symm.trans hm'')
      obtain ⟨-, rfl⟩ := Prod.mk.inj (Except.ok.inj (hfind'.symm.trans hrewritten.origin))
      refine ⟨m', _, hm', hfind', hstate', fun e' he' => ?_⟩
      obtain ⟨e, he, rfl⟩ := List.mem_map.1 he'
      split
      · exact (hreads e he).applyTo (fits_of_tableState hstate) he hcheck hgiven
      · exact hreads e he
  | find hcomplete hrun =>
      have hsuits := Pool.suits_of_find hb hstate hcomplete hrun
      obtain ⟨-, m', hm', hcatalog⟩ := Pool.find_ok hsuits hfind hm hrun
      exact ⟨m', t, hm', hcatalog ▸ hfind, hstate, hreads⟩

/-- Accepted calls, one after the other, leave rows that can be read. -/
theorem HoldsTimes.run (hb : ∃ b : SchemaBuilder, b.build = .ok s) (hnul : '\x00' ∉ stg.name.toList)
    (hclear : s.table.Clear stg.name) (halias : foldName s.table.name ≠ "_staged")
    (h : s.HoldsTimes a p) (hrun : Relation.ReflTransGen (s.Accepts stg) p p') :
    s.HoldsTimes a p' := by
  induction hrun with
  | refl => exact h
  | tail _ hstep ih => exact ih.step hb hnul hclear halias hstep

end Schema

namespace TwoTimes

/-- The last second of the year 9999 an hour west of Greenwich. -/
def tenThousand : Timestamp where
  seconds := 253402304399
  nanos := 0
  nanos_lt := newYear.nanos_lt
  leap := by decide

def near : Record := .ofList [("at", .timestamp newYear), ("id", .integer 3)]

def far : Record := .ofList [("at", .timestamp tenThousand), ("id", .integer 3)]

def farRow : Entry := ⟨3, #[.integer 3, .text "+10000-01-01T00:59:59.000000Z"]⟩

theorem insert_near : (Pool.insert schema [near] pool).1.result = .ok 1 := by
  with_unfolding_all rfl

theorem insert_far : (Pool.insert schema [far] pool).1.result = .ok 1 := by
  with_unfolding_all rfl

theorem not_legible_tenThousand : ¬ (Value.timestamp tenThousand).Legible := by
  change ¬ (0 ≤ tenThousand.date.year ∧ tenThousand.date.year ≤ 9999)
  decide

theorem readsTimes_holdsTime {e : Entry} {u : Timestamp} (h : schema.HoldsTime "at" e u) :
    schema.ReadsTimes e := by
  obtain ⟨g, hg, -, hencode⟩ := h.field
  obtain rfl : (⟨"at", .timestamp, true⟩ : Field) = g := Except.ok.inj hg
  intro f hf hkind
  rcases List.mem_cons.1 hf with rfl | hf
  · cases hkind
  · obtain rfl := List.mem_singleton.1 hf
    exact Field.reads_of_encode hencode h.legible

theorem holdsTimes : schema.HoldsTimes .main pool := by
  refine ⟨_, table 2 entries, rfl, by with_unfolding_all rfl, tableState, fun e he => ?_⟩
  rcases List.mem_cons.1 he with rfl | he
  · exact readsTimes_holdsTime (holdsTime_newYear 2)
  · obtain rfl := List.mem_singleton.1 he
    exact readsTimes_holdsTime (holdsTime_leapSecond 1)

theorem accepts_near : schema.Accepts ⟨"stage"⟩ pool (Pool.insert schema [near] pool).2 := by
  refine .insert (fun item hitem f hf hkind v hv => ?_)
    (show Pool.insert schema [near] pool = (_, _) from rfl) insert_near
  obtain rfl := List.mem_singleton.1 hitem
  rcases List.mem_cons.1 hf with rfl | hf
  · cases hkind
  · obtain rfl := List.mem_singleton.1 hf
    obtain rfl := Option.some.inj hv
    exact (holdsTime_newYear 3).legible

/-- The far row is stored in front of the others. -/
theorem insert_far_stores : ∃ m, (Pool.insert schema [far] pool).2.database = some m ∧
    m.catalog.find schema.table.allQuoted = .ok (.main, table 3 (farRow :: entries)) := by
  have htables : (Pool.insert schema [far] pool).2.database.map MemoryDatabase.catalog =
      some ⟨[table 3 (farRow :: entries)], []⟩ := by
    with_unfolding_all rfl
  obtain ⟨m, hm, hcatalog⟩ := Option.map_eq_some_iff.1 htables
  refine ⟨m, hm, ?_⟩
  rw [hcatalog]
  with_unfolding_all rfl

theorem tableState_far : schema.TableState (table 3 (farRow :: entries)) := by
  obtain ⟨m, hm, hfind⟩ := insert_far_stores
  obtain ⟨m', t', fields, rows, hm', hfind', hextends, -⟩ :=
    Pool.insert_extends (show pool.database = some _ from rfl) (by with_unfolding_all rfl) tableState
      (show Pool.insert schema [far] pool = (_, _) from rfl) insert_far
  obtain rfl := Option.some.inj (hm.symm.trans hm')
  obtain ⟨-, rfl⟩ := Prod.mk.inj (Except.ok.inj (hfind.symm.trans hfind'))
  exact hextends.state

end TwoTimes

end StagedStore
