import StagedStore.Proofs.Filter.Statements
import StagedStore.Proofs.Memory.Transaction
import StagedStore.Proofs.Staging

/-!
# Counting and finding what a filter matches

Counting gives the number of the rows that the filter matches, and finding gives their records in
their order. Neither changes a table.
-/

namespace StagedStore

open Memory MemoryDatabase Sql

/-! ## Counted rows -/

namespace Memory

variable {ctx : Context} {q : Select} {os : List Output} {rows : List (Array Storage)}

theorem evalSelect_count (hq : evalSelect ctx q = .ok (os, rows))
    (hsizes : ∀ row ∈ rows, row.size = os.length) :
    evalSelect ctx (.mk [.expr .countAll (some (.bare "n"))] (some (.query q none)) none [] none) =
      .ok ([⟨"n", .slot os.length, .none⟩], [#[.integer (.ofNat rows.length)]]) := by
  have hkept : rows.filter (Term.cell (.ofBool true)).holds = rows :=
    List.filter_eq_self.2 fun _ _ => rfl
  have hlast : (rows.getLast?.getD (.replicate os.length .null)).size = os.length := by
    cases hlast : rows.getLast? with
    | none => simp
    | some row => exact hsizes row (List.mem_of_getLast? hlast)
  have hsource : evalFrom ctx (some (.query q none)) =
      .ok ⟨os.map fun o => .ofColumn none o.name o.affinity, rows⟩ := by
    rw [evalFrom, evalSource, hq]
    rfl
  have hresults (r : Resolver) : [ResultColumn.expr .countAll (some (.bare "n"))].mapM (outputs r) =
      .ok [[⟨"n", .slot r.slots.length, .none⟩]] := rfl
  have hcount : [ResultColumn.expr .countAll (some (.bare "n"))].any isCount = true := rfl
  rw [evalSelect, hsource, Except.ok_bind]
  simp only [hresults, hcount, Except.ok_bind, Resolver.resolveCondition, hkept, if_true,
    cutRows, List.map_cons, List.map_nil, List.flatten_cons, List.flatten_nil, List.append_nil,
    List.length_map, Context.resolver, Term.eval]
  generalize rows.getLast?.getD (.replicate os.length .null) = last at hlast ⊢
  rw [← hlast]
  rw [Array.getElem?_push_size]
  rfl

end Memory

namespace Filter

variable {s : Schema} {t : Table} {f : Filter} {a : Area} {p : Params} {css : List (List Token)}
  {cs : List ResultColumn} {m m' : MemoryDatabase} {r : Prepared}

/-- The query of a filter gives its columns for the rows that the filter matches. -/
theorem executeFirst_query (hf : f.Suits s t) (hcs : Takes s p.size css cs)
    (hfind : m.catalog.find s.table.allQuoted = .ok (a, t))
    (h : m.executeFirst (.select (f.query s cs (f.build p).1)) (f.build p).2 = (.ok r, m')) :
    m' = m ∧ ∃ results,
      cs.mapM (outputs ((m.context (f.build p).2).resolver (t.slots t.name))) = .ok results ∧
      r = .rows results.flatten (project results.flatten ((f.matched s t p).map Table.rowOf)) := by
  obtain ⟨st, rest, hread, -, -⟩ := executeFirst_ok h
  obtain ⟨q, rfl, hquery⟩ := readings_matched frame_select hf hcs hread
  obtain ⟨rfl, os, rows, hq, rfl⟩ := StagingTable.executeFirst_select hread h
  obtain ⟨results, hresults, rfl, rfl⟩ := hquery hfind rfl hq
  exact ⟨rfl, results, hresults, rfl⟩

theorem executeFirst_count (hf : f.Suits s t) (hcs : Takes s p.size css cs)
    (hfind : m.catalog.find s.table.allQuoted = .ok (a, t))
    (h : m.executeFirst (countQuery (f.query s cs (f.build p).1)) (f.build p).2 = (.ok r, m')) :
    m' = m ∧ rowsOf r = [⟨["n"], [.integer (.ofNat (f.matched s t p).length)]⟩] := by
  obtain ⟨st, rest, hread, -, -⟩ := executeFirst_ok h
  obtain ⟨q, rfl, hquery⟩ := readings_matched frame_count hf hcs hread
  obtain ⟨rfl, os, rows, hq, rfl⟩ := StagingTable.executeFirst_select hread h
  obtain ⟨os', rows', hq'⟩ : ∃ os' rows', evalSelect (m'.context (f.build p).2) q =
      .ok (os', rows') := by
    rw [evalSelect, evalFrom, evalSource] at hq
    obtain ⟨src, hsrc, -⟩ := Except.bind_eq_ok_iff.1 hq
    obtain ⟨⟨os', rows'⟩, hq', -⟩ := Except.bind_eq_ok_iff.1 hsrc
    exact ⟨os', rows', hq'⟩
  obtain ⟨results, -, rfl, rfl⟩ := hquery hfind rfl hq'
  have hcount := evalSelect_count hq' fun row hrow => by
    obtain ⟨x, -, rfl⟩ := List.mem_map.1 hrow
    rw [List.size_toArray, List.length_map]
  obtain ⟨rfl, rfl⟩ := Prod.mk.inj (Except.ok.inj (hq.symm.trans hcount))
  refine ⟨rfl, ?_⟩
  simp only [project, List.length_map]
  rfl

/-- The operations on what a filter matches start with its query. -/
theorem outcome_select {σ α : Type} (hf : f.Suits s t) (fields : List String)
    (g : Select × Params → Action σ α) (x : σ) :
    outcome (Action.ofExcept (f.select s fields) >>= g) x =
      outcome (g (f.query s (columnsOf fields) (f.build #[]).1, (f.build #[]).2)) x := by
  rw [select_ok hf.declared]
  rfl

end Filter

/-! ## Records -/

/-- The record of a row, if every field can be decoded. -/
def Schema.recordOf (s : Schema) (e : Entry) : Except Error Record := do
  let fields ← s.fields.mapM fun f => do return (f.name, ← f.decode (s.fieldCell f.name e))
  return .ofList fields

namespace Schema

variable {s : Schema} {t : Table}

/-- A row under the names of the fields is decoded field by field. -/
theorem decodeRow_eq (s : Schema) (e : Entry) :
    s.decodeRow ⟨s.fields.map Field.name, s.fields.map fun f => s.fieldCell f.name e⟩ =
      s.recordOf e := by
  have hdeclared : ∀ f ∈ s.fields, s.field? f.name = some f := by
    intro f hf
    have hok := requireField_of_mem hf
    unfold requireField at hok
    split at hok
    · rename_i g hg
      rw [hg, Except.ok.inj hok]
    · simp at hok
  unfold decodeRow recordOf Row.cells
  rw [List.zip_map']
  refine congrArg (· >>= fun fields => Except.ok (Record.ofList fields))
    (Except.filterMapM_map fun f hf => ?_)
  simp only [hdeclared f hf]
  cases f.decode (s.fieldCell f.name e) <;> rfl

/-- The fields as results. -/
def results (s : Schema) : List Output :=
  s.fields.map fun f => ⟨f.name, .slot (1 + s.fieldIndex f.name), f.affinity⟩

/-- All columns of the table of a schema are its fields. -/
theorem Fits.outputs_all (h : s.Fits t) {r : Resolver} (hslots : r.slots = t.slots t.name) :
    outputs r .all = .ok s.results := by
  have hcolumns : t.slots t.name = .hidden t.name ::
      s.fields.map fun f => .ofColumn (some t.name) f.name f.affinity := by
    rw [Table.slots, h.columns, List.map_map]
    rfl
  rw [outputs, hslots, hcolumns, List.zipIdx_cons, List.filter_cons_of_neg (by simp [Slot.hidden]),
    Nat.zero_add, List.filter_eq_self.2 ?visible]
  case visible =>
    rintro ⟨x, i⟩ hx
    obtain ⟨f, -, rfl⟩ := List.mem_map.1 (List.fst_mem_of_mem_zipIdx hx)
    rfl
  refine congrArg Except.ok (List.ext_getElem? fun i => ?_)
  rw [results, List.getElem?_map, List.getElem?_zipIdx, List.getElem?_map, List.getElem?_map]
  cases hi : s.fields[i]? with
  | none => rfl
  | some f => simp [Slot.ofColumn, fieldIndex_eq hi]

end Schema

/-! ## The operations -/

namespace Pool

variable {s : Schema} {t : Table} {f : Filter} {a : Area} {m : MemoryDatabase}
  {p p' : Pool MemoryDatabase}

theorem count_ok {n : UInt64} (hf : f.Suits s t)
    (hfind : m.catalog.find s.table.allQuoted = .ok (a, t)) (hp : p.database = some m)
    (h : outcome (Pool.count s f) p = (.ok n, p')) :
    n = .ofNat (f.matched s t #[]).length ∧
      ∃ m', p'.database = some m' ∧ m'.catalog = m.catalog := by
  replace h := (Filter.outcome_select hf _ _ _).symm.trans h
  obtain ⟨r, p₂, hlease, h⟩ := Action.outcome_bind_eq_ok_iff.1 h
  obtain ⟨k, p₃, hk, h⟩ := Action.outcome_bind_eq_ok_iff.1 h
  obtain ⟨hn, rfl⟩ := Prod.mk.inj h
  obtain ⟨hk, rfl⟩ := Prod.mk.inj hk
  obtain ⟨m₁, σ, m', hm, hquery, hm', hcatalog⟩ := withLease_ok hlease
  obtain rfl : m = m₁ := Option.some.inj (hp.symm.trans hm)
  obtain ⟨pr, rest, hfirst, hrows, -⟩ := Session.querySingle_ok hquery
  obtain ⟨css, hcs⟩ := Filter.exists_takes_key s
  obtain ⟨hsame, hcount⟩ := Filter.executeFirst_count (p := #[])
    (m := { m with saved := some m.catalog }) hf hcs hfind hfirst
  obtain ⟨rfl, -⟩ := List.cons.inj (hrows.symm.trans hcount)
  refine ⟨?_, m', hm', by rw [hcatalog, hsame]⟩
  have hn : k.toUInt64 = n := Except.ok.inj hn
  have hk : (⟨["n"], [.integer (.ofNat (f.matched s t #[]).length)]⟩ : Row).getInteger "n" =
      .ok k := congrArg Prod.fst hk
  simp only [Row.getInteger, Row.get, Row.get?, Row.cells, List.zip_cons_cons, List.zip_nil_right,
    List.lookup_cons_self] at hk
  rw [← hn, ← Except.ok.inj hk, Int64.toUInt64_ofNat']

/-- The rows that a query of all fields gives are decoded as the records of the matched rows. -/
theorem find_rows {rows : List Row} (hf : f.Suits s t)
    (hfind : m.catalog.find s.table.allQuoted = .ok (a, t)) (hp : p.database = some m)
    (h : outcome (withLease (Connection.queryAll
      (.select (f.query s (Filter.columnsOf []) (f.build #[]).1)) (f.build #[]).2)) p =
        (.ok rows, p')) :
    rows.mapM s.decodeRow = (f.matched s t #[]).mapM s.recordOf ∧
      ∃ m', p'.database = some m' ∧ m'.catalog = m.catalog := by
  obtain ⟨m₁, σ, m', hm, hquery, hm', hcatalog⟩ := withLease_ok h
  obtain rfl : m = m₁ := Option.some.inj (hp.symm.trans hm)
  obtain ⟨pr, hfirst, rfl, -⟩ := Session.queryAll_ok hquery
  obtain ⟨css, hcs⟩ := Filter.exists_takes (s := s) [] (by simp)
  obtain ⟨hsame, results, hresults, rfl⟩ := Filter.executeFirst_query (p := #[])
    (m := { m with saved := some m.catalog }) hf hcs hfind hfirst
  refine ⟨?_, m', hm', by rw [hcatalog, hsame]⟩
  have hall : (Filter.columnsOf []).mapM (outputs ((m.context (f.build #[]).2).resolver
      (t.slots t.name))) = .ok [s.results] := by
    have hcolumns : Filter.columnsOf [] = [.all] := rfl
    rw [hcolumns, List.mapM_cons, List.mapM_nil,
      (Schema.fits_of_tableState hf.state).outputs_all rfl]
    rfl
  obtain rfl : results = [s.results] := Except.ok.inj (hresults.symm.trans hall)
  have hrow (e : Entry) : s.decodeRow ⟨s.fields.map Field.name,
      s.fields.map fun g => (Term.slot (1 + s.fieldIndex g.name)).eval (Table.rowOf e)⟩ =
        s.recordOf e := by
    simp only [s.eval_slot, s.decodeRow_eq]
  change (resultRows _ (project _ _)).mapM s.decodeRow = _
  simp only [resultRows, project, Schema.results, List.map_map, List.mapM_map, List.flatten_cons,
    List.flatten_nil, List.append_nil, Function.comp_def, hrow]

theorem find_ok {records : List Record} (hf : f.Suits s t)
    (hfind : m.catalog.find s.table.allQuoted = .ok (a, t)) (hp : p.database = some m)
    (h : outcome (Pool.find s f) p = (.ok records, p')) :
    (f.matched s t #[]).mapM s.recordOf = .ok records ∧
      ∃ m', p'.database = some m' ∧ m'.catalog = m.catalog := by
  replace h := (Filter.outcome_select hf _ _ _).symm.trans h
  obtain ⟨rows, p₂, hlease, h⟩ := Action.outcome_bind_eq_ok_iff.1 h
  obtain ⟨hdecode, rfl⟩ := Prod.mk.inj h
  obtain ⟨hrows, hkept⟩ := find_rows hf hfind hp hlease
  exact ⟨hrows.symm.trans hdecode, hkept⟩

/-- Finding fails in its query, or as the records of the matched rows cannot be decoded. -/
theorem find_error {err : Error} (hf : f.Suits s t)
    (hfind : m.catalog.find s.table.allQuoted = .ok (a, t)) (hp : p.database = some m)
    (h : outcome (Pool.find s f) p = (.error err, p')) :
    outcome (withLease (Connection.queryAll
      (.select (f.query s (Filter.columnsOf []) (f.build #[]).1)) (f.build #[]).2)) p =
        (.error err, p') ∨
      (f.matched s t #[]).mapM s.recordOf = .error err := by
  replace h := (Filter.outcome_select hf _ _ _).symm.trans h
  refine (Action.outcome_bind_eq_error_iff.1 h).imp_right ?_
  rintro ⟨rows, p₂, hlease, h⟩
  obtain ⟨hdecode, rfl⟩ := Prod.mk.inj h
  exact (find_rows hf hfind hp hlease).1.symm.trans hdecode

end Pool

end StagedStore
