import StagedStore.Proofs.Staging.ReadBack
import StagedStore.Proofs.Update.Staged
import StagedStore.Store.Update

/-!
# Applied batches

A plan applied through a staging table.  The staged row of a row of the origin table is that of the
plan's row with its key, and what the update assigns is what the change set does on its own.
-/

namespace StagedStore

open Memory MemoryDatabase

variable {ε : Type} {s : Schema} {p : Plan} {t u : Table} {stg : StagingTable} {a : Area}

/-! ## The staged row of a row -/

namespace Plan

/-- The row of a plan that has a row's key. -/
def rowOf? (s : Schema) (p : Plan) (e : Entry) : Option PlanRow :=
  p.rows.find? fun r => decide (s.keyCell e = r.key.kept)

/-- The staged row of a row. -/
def source (s : Schema) (p : Plan) (e : Entry) : Option (Array Storage) :=
  (p.rowOf? s e).map fun r => (r.staged s p e).toArray

theorem Ready.rowOf?_eq_some (h : p.Ready s t) {r : PlanRow} {e : Entry} :
    p.rowOf? s e = some r ↔ r ∈ p.rows ∧ s.keyCell e = r.key.kept := by
  unfold rowOf?
  constructor
  · intro hr
    exact ⟨List.mem_of_find?_eq_some hr, by simpa using List.find?_some hr⟩
  · rintro ⟨hr, hkey⟩
    cases hfind : p.rows.find? fun r => decide (s.keyCell e = r.key.kept) with
    | none =>
        have := List.find?_eq_none.1 hfind r hr
        simp [hkey] at this
    | some r' =>
        have hr' := List.mem_of_find?_eq_some hfind
        have hkey' : s.keyCell e = r'.key.kept := by simpa using List.find?_some hfind
        rw [h.row_eq_of_kept_eq hr' hr (hkey'.symm.trans hkey)]

/-- A row that has the key of a planned row has it as it is kept. -/
theorem Ready.keyCell_eq_kept (h : p.Ready s t) {r : PlanRow} {e : Entry} (hr : r ∈ p.rows)
    (he : e ∈ t.entries) (hkey : s.keyCell e = r.key) : s.keyCell e = r.key.kept := by
  refine (h.fits.holds_keyCell_iff_kept he (h.writes r hr) (h.bound_key r hr) (f := .none)
    ⟨by simp [Affinity.isNumeric], by simp⟩).1 ?_
  rw [hkey]
  exact Storage.holds_compareBy_self rfl (h.key_not_null hr)

theorem namedCell_key (r : PlanRow) (e : Entry) (hkey : p.key = s.primaryKey.name) :
    namedCell p.columns (r.staged s p e).toArray s.primaryKey.name = r.key := by
  unfold namedCell columns PlanRow.staged
  rw [hkey, List.idxOf_cons_self]
  rfl

theorem Ready.namedCell_field (h : p.Ready s t) (r : PlanRow) (e : Entry) {n : String}
    (hn : n ∈ p.fields) :
    namedCell p.columns (r.staged s p e).toArray n =
      (r.cell n).resolved (s.fieldCell n e) := by
  have hne : p.key ≠ n := fun he => h.key_notMem (h.key ▸ he ▸ hn)
  have hlt := List.idxOf_lt_length_of_mem hn
  unfold namedCell columns PlanRow.staged
  rw [List.idxOf_cons_ne _ hne]
  simp [hlt]

/-- A row meets no other staged row than that of its key. -/
theorem Ready.source_eq_some (h : p.Ready s t) (hcells : u.cells.Perm (stagedRows s p t p.rows))
    {e : Entry} (he : e ∈ t.entries) (row : Array Storage) :
    p.source s e = some row ↔
      row ∈ u.cells ∧ StagingTable.meets s p.columns (stagedColumn p.key) row e = true := by
  have hmeets (r : PlanRow) (hr : r ∈ p.rows) (e' : Entry) :
      StagingTable.meets s p.columns (stagedColumn p.key) (r.staged s p e').toArray e = true ↔
        s.keyCell e = r.key.kept := by
    unfold StagingTable.meets
    rw [namedCell_key r e' h.key]
    exact h.fits.holds_keyCell_iff_kept he (h.writes r hr) (h.bound_key r hr)
      (Affinity.compares_forComparison s.primaryKey.affinity (.inr (.inl rfl))).1
  rw [hcells.mem_iff, mem_stagedRows]
  unfold source
  rw [Option.map_eq_some_iff]
  constructor
  · rintro ⟨r, hr, rfl⟩
    obtain ⟨hr, hkey⟩ := h.rowOf?_eq_some.1 hr
    exact ⟨⟨r, hr, e, he, hkey, rfl⟩, (hmeets r hr e).2 hkey⟩
  · rintro ⟨⟨r, hr, e', he', hkey, rfl⟩, hmeet⟩
    have hkey' := (hmeets r hr e').1 hmeet
    obtain rfl := h.fits.eq_of_keyCell_eq he he' (hkey'.trans hkey.symm)
    exact ⟨r, h.rowOf?_eq_some.2 ⟨hr, hkey⟩, rfl⟩

/-! ## The plan applied -/

theorem Ready.named (h : p.Ready s t) (hcols : u.columns = p.columns.map stagedColumn)
    (hcells : u.cells.Perm (stagedRows s p t p.rows)) : u.Named p.columns where
  columns := by
    rw [hcols, List.map_map]
    exact (List.map_congr_left fun _ _ => rfl).trans (List.map_id _)
  nodup := h.columns_nodup
  sizes row hrow := by
    obtain ⟨r, -, e, -, -, rfl⟩ := mem_stagedRows.1 (hcells.mem_iff.1 hrow)
    rw [List.size_toArray, length_staged]

/-- The origin table after a plan is applied. -/
def appliedTo (s : Schema) (p : Plan) (t : Table) : Table :=
  { t with entries := t.entries.map (StagingTable.updated s t p.columns p.fields (p.source s)) }

/-- What a plan reads back for its rows is decoded, if one of them increments a field. -/
def Decodes (s : Schema) (p : Plan) (t : Table) (decoded : List WriteBack) : Prop :=
  if p.hasReturning then ∃ vs : List (Array Storage), vs.Perm (stagedRows s p t p.rows) ∧
    p.decodeReturning s (vs.map fun cells => ⟨p.columns, p.columns.map (namedCell p.columns cells)⟩) =
      .ok decoded
  else decoded = []

/-- A plan that is carried out has staged its rows, has updated the table from them, has read back
what it increments and has dropped the staged rows. -/
theorem apply_run {σ σ' : Session MemoryDatabase} {n : Nat} {decoded : List WriteBack}
    (h : outcome (p.apply s stg) σ = (.ok (n, decoded), σ')) :
    ∃ σ₁ σ₂ σ₃, outcome (p.stage s stg) σ = (.ok (), σ₁) ∧
      outcome (stg.applyUpdate s p.fields) σ₁ = (.ok n, σ₂) ∧
      (if p.hasReturning then ∃ rows, outcome (stg.readBack p.columns) σ₂ = (.ok rows, σ₃) ∧
        p.decodeReturning s rows = .ok decoded
      else decoded = [] ∧ σ₃ = σ₂) ∧
      outcome stg.discard σ₃ = (.ok (), σ') := by
  obtain ⟨⟨⟩, σ₁, hstage, h⟩ := Action.outcome_bind_eq_ok_iff.1 h
  obtain ⟨n', σ₂, hupdate, h⟩ := Action.outcome_bind_eq_ok_iff.1 h
  have hlast {decoded' : List WriteBack} {σ₃ : Session MemoryDatabase}
      (h : outcome (stg.discard >>= fun _ => pure (n', decoded')) σ₃ = (.ok (n, decoded), σ')) :
      n' = n ∧ decoded' = decoded ∧ outcome stg.discard σ₃ = (.ok (), σ') := by
    obtain ⟨⟨⟩, σ₄, hdiscard, h⟩ := Action.outcome_bind_eq_ok_iff.1 h
    obtain ⟨hresult, rfl⟩ := Prod.mk.inj h
    obtain ⟨hn, hdecoded⟩ := Prod.mk.inj (Except.ok.inj hresult)
    exact ⟨hn, hdecoded, hdiscard⟩
  dsimp only at h
  split at h
  · rename_i hreturning
    obtain ⟨rows, σ₃, hread, hrest⟩ := Action.outcome_bind_eq_ok_iff.1 h
    obtain ⟨decoded', σ₄, hdecode, hdrop⟩ := Action.outcome_bind_eq_ok_iff.1 hrest
    obtain ⟨hdecoded, rfl⟩ := Session.ofExcept_ok hdecode
    obtain ⟨rfl, rfl, hdiscard⟩ := hlast hdrop
    exact ⟨σ₁, σ₂, _, hstage, hupdate, by rw [if_pos hreturning]; exact ⟨rows, hread, hdecoded⟩,
      hdiscard⟩
  · rename_i hreturning
    obtain ⟨rfl, rfl, hdiscard⟩ := hlast h
    exact ⟨σ₁, σ₂, σ₂, hstage, hupdate, by rw [if_neg hreturning]; exact ⟨rfl, rfl⟩, hdiscard⟩

theorem Ready.apply_decoded (h : p.Ready s t) (hne : p.rows ≠ [])
    (hclear : s.table.Clear stg.name)
    (halias : foldName s.table.name ≠ "_staged") {σ σ' : Session MemoryDatabase}
    (hfind : σ.database.catalog.find s.table.allQuoted = .ok (a, t)) {n : Nat}
    {decoded : List WriteBack} (hrun : outcome (p.apply s stg) σ = (.ok (n, decoded), σ')) :
    σ'.database.catalog.find s.table.allQuoted = .ok (a, p.appliedTo s t) ∧
      (n = t.entries.countP fun e => (p.source s e).isSome) ∧ p.Decodes s t decoded := by
  obtain ⟨σ₁, σ₂, σ₃, hstage, hupdate, hreturned, hdiscard⟩ := apply_run hrun
  obtain ⟨horigin, u, hu, hcols, -, hcells⟩ := h.staged_stage hclear hne hfind hstage
  have hnamed := h.named hcols hcells
  have hkey : u.columns[p.columns.idxOf s.primaryKey.name]? = some (stagedColumn p.key) := by
    rw [← h.key, hcols]
    unfold columns
    rw [List.idxOf_cons_self]
    rfl
  have hfields : ∀ f ∈ p.fields, f ∈ p.columns := fun f hf => List.mem_cons_of_mem _ hf
  obtain ⟨hn, hdb⟩ := StagingTable.applyUpdate_rows
    { fits := h.fits
      origin := horigin
      staging := hu
      named := hnamed
      alias_ne := halias
      key_mem := h.key ▸ List.mem_cons_self
      fields_mem := hfields
      declared := h.declared } hkey h.key h.key_notMem
    (fun e he row => h.source_eq_some hcells he row) hupdate
  have hu₂ : σ₂.database.catalog.findIn? .temp stg.name = some u := by
    have htable := Catalog.other_of_clear (Identifier.clear_allQuoted.2 hclear) hfind
    rw [hdb, ← hu]
    exact Catalog.findIn?_temp_replace htable
  obtain ⟨hsame, hdecodes⟩ : σ₃.database = σ₂.database ∧ p.Decodes s t decoded := by
    unfold Decodes
    split at hreturned
    · rename_i hreturning
      obtain ⟨rows, hread, hdecoded⟩ := hreturned
      obtain ⟨hsame, vs, hvs, rfl⟩ := StagingTable.readBack_named hu₂ hnamed (fun _ hc => hc) hread
      exact ⟨hsame, by rw [if_pos hreturning]; exact ⟨vs, hvs.trans hcells, hdecoded⟩⟩
    · rename_i hreturning
      obtain ⟨rfl, rfl⟩ := hreturned
      exact ⟨rfl, by rw [if_neg hreturning]⟩
  refine ⟨?_, hn, hdecodes⟩
  obtain ⟨c, hc, hdropped⟩ := StagingTable.discard_ok hdiscard
  rw [hc]
  rw [hsame, hdb] at hdropped
  change c.find _ = _
  rw [hdropped.find (Identifier.clear_allQuoted.2 hclear)]
  exact Catalog.find_replace horigin rfl

theorem Ready.apply_ok (h : p.Ready s t) (hne : p.rows ≠ [])
    (hclear : s.table.Clear stg.name)
    (halias : foldName s.table.name ≠ "_staged") {σ σ' : Session MemoryDatabase}
    (hfind : σ.database.catalog.find s.table.allQuoted = .ok (a, t)) {n : Nat}
    {decoded : List WriteBack} (hrun : outcome (p.apply s stg) σ = (.ok (n, decoded), σ')) :
    σ'.database.catalog.find s.table.allQuoted = .ok (a, p.appliedTo s t) ∧
      n = t.entries.countP fun e => (p.source s e).isSome :=
  have hall := h.apply_decoded hne hclear halias hfind hrun
  ⟨hall.1, hall.2.1⟩

end Plan

end StagedStore
