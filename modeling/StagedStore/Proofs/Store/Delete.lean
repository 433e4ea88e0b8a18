import StagedStore.Proofs.Schema.Keys
import StagedStore.Proofs.Staging.ReadBack
import StagedStore.Proofs.Store.Read
import StagedStore.Store.Delete

/-!
# Deleting what a filter matches

The keys of the rows that the filter matches are staged, and the rows with these keys are deleted.
No two rows have one key, so they are the rows that the filter matches and no others.
-/

namespace StagedStore

open Memory MemoryDatabase Sql

deriving instance DecidableEq for Memory.Entry

namespace Schema

variable {s : Schema} {t : Table}

/-- The key as a result. -/
def keyResult (s : Schema) : Output :=
  ⟨s.primaryKey.name, .slot (1 + s.keyIndex), s.primaryKey.affinity⟩

theorem Fits.keyColumn (h : s.Fits t) : t.columns[s.keyIndex]? = some s.primaryKey.toColumn := by
  rw [h.columns, List.getElem?_map, s.getElem?_keyIndex, Option.map_some]

theorem storedAffinity_field (f : Field) : storedAffinity f.affinity = f.affinity := by
  rw [Field.affinity_eq]
  cases f.kind <;> rfl

/-- A staged key is that of its row. -/
theorem Fits.stagedCells_key (h : s.Fits t) {e : Entry} (he : e ∈ t.entries) :
    stagedCells [s.keyResult] e = #[s.keyCell e] := by
  have hcell : (Term.slot (1 + s.keyIndex)).eval (Table.rowOf e) = s.keyCell e := by
    rw [← s.fieldIndex_primaryKey, s.eval_slot, s.fieldCell_primaryKey]
  simp only [stagedCells, keyResult, List.map_cons, List.map_nil, hcell, storedAffinity_field]
  exact congrArg (fun v => #[v])
    ((h.rows e he).stored s.keyIndex s.primaryKey s.getElem?_keyIndex)

/-- A row is among others of the table if its key is equal to that of one of them. -/
theorem Fits.holds_member_iff (h : s.Fits t) {es : List Entry} (hes : ∀ e ∈ es, e ∈ t.entries)
    {e : Entry} (he : e ∈ t.entries) {vs : List Storage} (hvs : vs.Perm (es.map s.keyCell)) :
    ((CellSet.ofList (s.primaryKey.affinity.forComparison s.primaryKey.affinity) vs).member
      (s.primaryKey.affinity.forComparison s.primaryKey.affinity) (s.keyCell e)).holds = true ↔
      e ∈ es := by
  have hcompares := (s.primaryKey.affinity.compares_forComparison (.inr (.inr rfl))).1
  have hsame {e : Entry} (he : e ∈ t.entries) := h.forMember_keyCell he hcompares
  have hnull {e : Entry} (he : e ∈ t.entries) := keyCell_not_null (h.rows e he)
  rw [CellSet.holds_member]
  constructor
  · rintro ⟨-, w, hw, -, hnormal⟩
    obtain ⟨e', he', rfl⟩ := List.mem_map.1 (hvs.subset hw)
    rw [hsame he, hsame (hes e' he')] at hnormal
    rwa [← h.eq_of_normal_key (hes e' he') he hnormal]
  · intro hin
    refine ⟨hnull he, s.keyCell e, hvs.symm.subset (List.mem_map_of_mem hin), ?_, rfl⟩
    rw [hsame he]
    exact hnull he

end Schema

namespace StagingTable

variable {stg : StagingTable} {s : Schema} {t u : Table} {a : Area} {es : List Entry} {c : Catalog}
  {σ σ' : Session MemoryDatabase}

theorem column_filled (h : s.Fits t) (hes : ∀ e ∈ es, e ∈ t.entries)
    (hu : stg.Filled [s.keyResult] es c u) : (u.column 0).Perm (es.map s.keyCell) := by
  rw [Table.column_eq]
  refine (List.reverse_perm _).trans ?_
  have hcells := hu.cells.map fun cells => cells[0]?.getD Storage.null
  rw [Table.cells, List.map_map, List.map_map] at hcells
  refine hcells.trans (.of_eq (List.map_congr_left fun e he => ?_))
  rw [Function.comp_apply, h.stagedCells_key (hes e he)]
  rfl

/-- The condition of the deletion asks for a staged key. -/
theorem resolve_deleteOrigin {ctx : Context} {r : Resolver} (h : s.Fits t)
    (hu : stg.Filled [s.keyResult] es ctx.catalog u)
    (hr : r = ctx.resolver (t.slots t.name)) :
    r.resolveCondition (some (.inTable false (.ofName s.primaryKey.name)
      (.quoted s.primaryKey.name) stg.table)) =
        .ok (.inSet (s.primaryKey.affinity.forComparison s.primaryKey.affinity)
          (.slot (1 + s.keyIndex)) (.ofList
            (s.primaryKey.affinity.forComparison s.primaryKey.affinity) (u.column 0))) := by
  have hkey : r.resolve (.ofName s.primaryKey.name) =
      .ok ⟨.slot (1 + s.keyIndex), s.primaryKey.affinity⟩ := by
    have hfield := h.resolve_field (r := r) (q := none) [] [] t.name (by rw [hr]; simp; rfl)
      (by simp) (by simp) (by simp) s.getElem?_keyIndex
    rw [List.length_nil, Nat.zero_add] at hfield
    exact hfield
  have hindex : u.columnIndex? s.primaryKey.name = some 0 := by
    unfold Table.columnIndex?
    rw [hu.columns]
    simp [stagedColumns, Schema.keyResult]
  have hcolumn : r.column stg.table (.quoted s.primaryKey.name) =
      .ok (s.primaryKey.affinity, u.column 0) := by
    rw [hr]
    change ctx.column _ _ = _
    rw [Context.column, Catalog.find_staging hu.staging, Except.ok_bind]
    dsimp only [Part.name]
    rw [hindex, hu.columns]
    simp [stagedColumns, Schema.keyResult, Schema.storedAffinity_field]
  rw [Resolver.resolveCondition, Resolver.resolve, hkey, Except.ok_bind, hcolumn]
  rfl

/-- The condition of the deletion holds for the rows whose keys are staged. -/
theorem holds_deleteOrigin (h : s.Fits t) (hes : ∀ e ∈ es, e ∈ t.entries)
    (hu : stg.Filled [s.keyResult] es c u) : ∀ e ∈ t.entries,
      ((Term.inSet (s.primaryKey.affinity.forComparison s.primaryKey.affinity)
        (.slot (1 + s.keyIndex)) (.ofList (s.primaryKey.affinity.forComparison
          s.primaryKey.affinity) (u.column 0))).holds (Table.rowOf e) = true ↔ e ∈ es) := by
  intro e he
  rw [← h.holds_member_iff hes he (column_filled h hes hu), Term.holds, Term.eval,
    ← s.fieldIndex_primaryKey, s.eval_slot, s.fieldCell_primaryKey]

/-- The rows whose keys are staged are deleted, and no others. -/
theorem applyDelete_ok {n : Nat} (hstate : s.TableState t) (hes : ∀ e ∈ es, e ∈ t.entries)
    (hfind : σ.database.catalog.find s.table.allQuoted = .ok (a, t))
    (hu : stg.Filled [s.keyResult] es σ.database.catalog u)
    (hrun : outcome (stg.applyDelete s) σ = (.ok n, σ')) :
    ∃ rest : List Entry, rest.Sublist t.entries ∧ (∀ e, e ∈ rest ↔ e ∈ t.entries ∧ e ∉ es) ∧
      s.TableState { t with entries := rest } ∧ n = t.entries.length - rest.length ∧
      σ'.database = { σ.database with
        catalog := σ.database.catalog.replace a { t with entries := rest }, changes := n } := by
  have h := Schema.fits_of_tableState hstate
  obtain ⟨n₁, σ₁, hexec, hlast⟩ := Action.outcome_bind_eq_ok_iff.1 hrun
  obtain ⟨rfl, hn⟩ := Session.lastChanges_ok hlast
  obtain ⟨p, hp, hn₁, hchanges⟩ := Session.run_ok hexec
  have hmade : ∀ e ∈ (stg.deleteOrigin s).leaves, e.isMade = true := by
    simp [deleteOrigin, Statement.leaves, leaves?, Expr.leaves, Expr.ofName, Expr.isMade]
  obtain ⟨-, hprepared, hperform⟩ := executeFirst_made hmade hp
  have hprepare := hprepared
  obtain ⟨⟨b, t₁⟩, hfind', hprepare⟩ := Except.bind_eq_ok_iff.1 hprepare
  obtain ⟨rfl, rfl⟩ := Prod.mk.inj (Except.ok.inj (hfind.symm.trans hfind'))
  obtain ⟨condition, hcondition, hprepare⟩ := Except.bind_eq_ok_iff.1 hprepare
  obtain ⟨⟨⟩, -, hprepare⟩ := Except.bind_eq_ok_iff.1 hprepare
  obtain rfl := Except.ok.inj hprepare
  obtain rfl := Except.ok.inj (hcondition.symm.trans (resolve_deleteOrigin h hu rfl))
  have hmem := holds_deleteOrigin h hes hu
  generalize Term.inSet _ (.slot (1 + s.keyIndex)) _ = condition at hmem hperform hprepared
  have hdb := perform_delete_ok hperform
  refine ⟨t.entries.filter fun e => !condition.holds (Table.rowOf e), List.filter_sublist, fun e => ?_,
    .deleted hstate hprepared, ?_, ?_⟩
  · rw [List.mem_filter]
    refine and_congr_right fun he => ?_
    rw [Bool.not_eq_true', ← Bool.not_eq_true, hmem e he]
  · rw [hn, hchanges, hn₁, hdb]
  · rw [hdb, hn, hchanges, hn₁, hdb]

end StagingTable

/-! ## The operation -/

/-- The value of the key of a row. -/
def Schema.keyOf (s : Schema) (e : Entry) : Except Error Value :=
  s.primaryKey.decode (s.keyCell e)

/-- Rows that some rows leave are as many as these are not. -/
theorem length_rest {es rest found : List Entry} (hnodup : es.Nodup) (hfound : found.Nodup)
    (hsub : ∀ e ∈ found, e ∈ es) (hrest : rest.Sublist es)
    (hmem : ∀ e, e ∈ rest ↔ e ∈ es ∧ e ∉ found) : es.length - rest.length = found.length := by
  have hdisjoint : rest.Disjoint found := fun e he hin => ((hmem e).1 he).2 hin
  have hperm : es.Perm (rest ++ found) := by
    rw [List.perm_ext_iff_of_nodup hnodup ((hrest.nodup hnodup).append hfound hdisjoint)]
    intro e
    rw [List.mem_append, hmem]
    have hin := hsub e
    tauto
  rw [hperm.length_eq, List.length_append, Nat.add_sub_cancel_left]

theorem Schema.Fits.nodup_entries {s : Schema} {t : Table} (h : s.Fits t) : t.entries.Nodup :=
  h.sorted.imp fun hlt heq => by
    rw [heq] at hlt
    exact Int64.lt_irrefl hlt

theorem Filter.nodup_matched {s : Schema} {t : Table} (h : s.Fits t) (f : Filter) (p : Params) :
    (f.matched s t p).Nodup := by
  obtain ⟨es, hsub, hperm⟩ := f.subperm_matched (s := s) (t := t) p
  exact hsub.nodup (hperm.nodup_iff.2 (h.nodup_entries.filter _))

namespace Schema

variable {s : Schema} {t : Table}

/-- The columns of a deletion's query are the key. -/
theorem Fits.outputs_key (h : s.Fits t) {r : Resolver} {results : List (List Output)}
    (hslots : r.slots = t.slots t.name)
    (hresults : (Filter.columnsOf [s.primaryKey.name]).mapM (outputs r) = .ok results) :
    results.flatten = [s.keyResult] := by
  have hkey : outputs r (.expr (.ofName s.primaryKey.toColumn.name) none) = .ok [s.keyResult] :=
    Table.outputs_ofName hslots h.columns_nodup h.keyColumn
  obtain rfl : [[s.keyResult]] = results := by
    refine Except.ok.inj (Eq.trans (Eq.symm ?_) hresults)
    change [ResultColumn.expr (.ofName s.primaryKey.toColumn.name) none].mapM (outputs r) = _
    rw [List.mapM_cons, List.mapM_nil, hkey]
    rfl
  rfl

/-- The staged keys are decoded as those of their rows. -/
theorem Fits.decodeKeys (h : s.Fits t) {es : List Entry} (hes : ∀ e ∈ es, e ∈ t.entries) :
    (es.map fun e => (⟨[s.primaryKey.name], [s.primaryKey.name].map
      (StagedStore.namedCell ([s.keyResult].map Output.name) (stagedCells [s.keyResult] e))⟩ : Row)
        ).mapM s.decodeKey = es.mapM s.keyOf := by
  rw [List.mapM_map]
  induction es with
  | nil => rfl
  | cons e es ih =>
      obtain ⟨he, hes⟩ := List.forall_mem_cons.1 hes
      rw [List.mapM_cons, List.mapM_cons, ih hes, Function.comp_apply, h.stagedCells_key he]
      congr 1
      simp [decodeKey, keyOf, Row.get, Row.get?, Row.cells, namedCell, keyResult]

end Schema

/-- The rows that a filter matches are deleted and their keys told. -/
theorem StagingTable.deleteSelected_ok {stg : StagingTable} {s : Schema} {t : Table} {f : Filter}
    {a : Area} {σ σ' : Session MemoryDatabase} {d : Deleted} (hf : f.Suits s t)
    (hnul : '\x00' ∉ stg.name.toList) (hclear : s.table.Clear stg.name)
    (hfind : σ.database.catalog.find s.table.allQuoted = .ok (a, t))
    (h : outcome (stg.deleteSelected s
      (f.query s (Filter.columnsOf [s.primaryKey.name]) (f.build #[]).1) (f.build #[]).2) σ =
        (.ok d, σ')) :
    (∃ es : List Entry, Recalled [s.primaryKey.name] (f.matched s t #[]) es ∧
        es.mapM s.keyOf = .ok d.keys) ∧
      d.modified = (f.matched s t #[]).length ∧
      ∃ rest, rest.Sublist t.entries ∧
        (∀ e, e ∈ rest ↔ e ∈ t.entries ∧ e ∉ f.matched s t #[]) ∧
        s.TableState { t with entries := rest } ∧
        σ.database.catalog.Rewritten stg.name a s.table.allQuoted { t with entries := rest }
          σ'.database.catalog := by
  have hfits := Schema.fits_of_tableState hf.state
  have hmatched : ∀ e ∈ f.matched s t #[], e ∈ t.entries := fun e he =>
    (Filter.mem_of_matched he).1
  obtain ⟨n, σ₁, hcreate, h⟩ := Action.outcome_bind_eq_ok_iff.1 h
  obtain ⟨modified, σ₂, hdelete, h⟩ := Action.outcome_bind_eq_ok_iff.1 h
  obtain ⟨rows, σ₃, hread, h⟩ := Action.outcome_bind_eq_ok_iff.1 h
  obtain ⟨⟨⟩, σ₄, hdiscard, h⟩ := Action.outcome_bind_eq_ok_iff.1 h
  obtain ⟨keys, σ₅, hkeys, h⟩ := Action.outcome_bind_eq_ok_iff.1 h
  obtain ⟨⟨⟩, σ₆, hreport, h⟩ := Action.outcome_bind_eq_ok_iff.1 h
  obtain ⟨hd, rfl⟩ := Prod.mk.inj h
  obtain rfl := Except.ok.inj hd
  obtain ⟨hdecoded, rfl⟩ := Session.ofExcept_ok hkeys
  obtain ⟨css, hcs⟩ := Filter.exists_takes_key s
  have hnodup : ([s.keyResult].map fun o => foldName o.name).Nodup := by simp
  obtain ⟨c, u, hdropped, hu, hdb₁, hfilled, horigin⟩ := create_filled (p := #[]) hf hcs hnul hclear
    hfind (fun r results hslots _ hresults => hfits.outputs_key hslots hresults) hnodup hcreate
  obtain ⟨rest, hsub, hmem, hstate, rfl, hdb₂⟩ :=
    applyDelete_ok hf.state hmatched horigin hfilled hdelete
  have hi := Identifier.clear_allQuoted.2 hclear
  have htable := Catalog.other_of_clear hi hfind
  have hfilled₂ : stg.Filled [s.keyResult] (f.matched s t #[]) σ₂.database.catalog u := by
    rw [hdb₂]
    exact hfilled.replace htable
  obtain ⟨hdb₃, es, hes, rfl⟩ := readBack_ok hfilled₂ hnodup (by simp [Schema.keyResult]) hread
  rw [hfits.decodeKeys fun e he => hmatched e (hes.perm.subset he)] at hdecoded
  refine ⟨⟨es, hes, hdecoded⟩, length_rest hfits.nodup_entries (f.nodup_matched hfits #[]) hmatched
    hsub hmem, rest, hsub, hmem, hstate, ?_⟩
  obtain ⟨c', hdb₄, hdropped'⟩ := discard_ok hdiscard
  have hbeside := hdropped.beside.trans (Catalog.beside_add (congrArg foldName hu))
  refine hbeside.rewritten hi hfind rfl ?_
  rw [(Session.report_ok hreport).1, hdb₄]
  rwa [hdb₃, hdb₂, hdb₁] at hdropped'

namespace Pool

variable {s : Schema} {t : Table} {f : Filter} {a : Area} {m : MemoryDatabase}
  {p p' : Pool MemoryDatabase} {stg : StagingTable}

/-- The rows that a filter matches are deleted, and their keys told as they are read back. -/
theorem delete_recalled {d : Deleted} (hf : f.Suits s t) (hnul : '\x00' ∉ stg.name.toList)
    (hclear : s.table.Clear stg.name)
    (hfind : m.catalog.find s.table.allQuoted = .ok (a, t)) (hp : p.database = some m)
    (h : outcome (Pool.delete s stg f) p = (.ok d, p')) :
    (∃ es : List Entry, Recalled [s.primaryKey.name] (f.matched s t #[]) es ∧
        es.mapM s.keyOf = .ok d.keys) ∧
      d.modified = (f.matched s t #[]).length ∧
      ∃ m' rest, p'.database = some m' ∧ rest.Sublist t.entries ∧
        (∀ e, e ∈ rest ↔ e ∈ t.entries ∧ e ∉ f.matched s t #[]) ∧
        m.catalog.Rewritten stg.name a s.table.allQuoted { t with entries := rest } m'.catalog := by
  replace h := (Filter.outcome_select hf _ _ _).symm.trans h
  obtain ⟨m₁, σ, m', hm, h, hm', hcatalog⟩ := withLease_ok h
  obtain rfl : m = m₁ := Option.some.inj (hp.symm.trans hm)
  obtain ⟨hkeys, hmodified, rest, hsub, hmem, -, hrewritten⟩ :=
    StagingTable.deleteSelected_ok hf hnul hclear hfind h
  exact ⟨hkeys, hmodified, m', rest, hm', hsub, hmem, hcatalog ▸ hrewritten⟩

theorem delete_ok {d : Deleted} (hf : f.Suits s t) (hnul : '\x00' ∉ stg.name.toList)
    (hclear : s.table.Clear stg.name)
    (hfind : m.catalog.find s.table.allQuoted = .ok (a, t)) (hp : p.database = some m)
    (h : outcome (Pool.delete s stg f) p = (.ok d, p')) :
    (∃ es : List Entry, es.Perm (f.matched s t #[]) ∧ es.mapM s.keyOf = .ok d.keys) ∧
      d.modified = (f.matched s t #[]).length ∧
      ∃ m' rest, p'.database = some m' ∧ rest.Sublist t.entries ∧
        (∀ e, e ∈ rest ↔ e ∈ t.entries ∧ e ∉ f.matched s t #[]) ∧
        m.catalog.Rewritten stg.name a s.table.allQuoted { t with entries := rest } m'.catalog := by
  obtain ⟨⟨es, hes, hkeys⟩, hrest⟩ := delete_recalled hf hnul hclear hfind hp h
  exact ⟨⟨es, hes.perm, hkeys⟩, hrest⟩

end Pool

end StagedStore
