import StagedStore.Proofs.Store.OneRow
import StagedStore.Proofs.Update.Written

/-!
# States behind updates and patches

An update or a patch that succeeds leads from a state of the table of a schema to another one.
-/

namespace StagedStore

open Memory MemoryDatabase

variable {s : Schema} {t : Table} {stg : StagingTable} {a : Area} {σ σ' : Session MemoryDatabase}

/-! ## Steps over a staging table -/

namespace StagingTable

/-- Updating the origin table leads to a state of it. -/
theorem state_applyUpdate (hstate : s.TableState t)
    (hfind : σ.database.catalog.find s.table.allQuoted = .ok (a, t)) {fields : List String} {n : Nat}
    (h : outcome (stg.applyUpdate s fields) σ = (.ok n, σ')) :
    ∃ t', σ'.database.catalog.find s.table.allQuoted = .ok (a, t') ∧ s.TableState t' := by
  obtain ⟨b, u, changesKey, values, t', hp, hu, hdb⟩ := applyUpdate_ok h
  obtain ⟨⟨b', u'⟩, horigin, hrest⟩ := Except.bind_eq_ok_iff.1 hp
  obtain ⟨rfl, rfl⟩ := Prod.mk.inj (Except.ok.inj (hfind.symm.trans horigin))
  obtain ⟨rfl, rfl⟩ : b = a ∧ u = t := by
    obtain ⟨columns, -, hrest⟩ := Except.bind_eq_ok_iff.1 hrest
    obtain ⟨source, -, hrest⟩ := Except.bind_eq_ok_iff.1 hrest
    obtain ⟨terms, -, hrest⟩ := Except.bind_eq_ok_iff.1 hrest
    obtain ⟨condition, -, hrest⟩ := Except.bind_eq_ok_iff.1 hrest
    obtain ⟨⟨⟩, -, hrest⟩ := Except.bind_eq_ok_iff.1 hrest
    obtain ⟨rfl, rfl, -, -⟩ := Prepared.update.inj (Except.ok.inj hrest)
    exact ⟨rfl, rfl⟩
  have hname : t'.name = u.name := by
    obtain ⟨r, -, hr⟩ := Except.bind_eq_ok_iff.1 hu
    obtain ⟨rfl, -⟩ := Prod.mk.inj (Except.ok.inj hr)
    rfl
  refine ⟨t', ?_, .updated hstate hp hu⟩
  rw [hdb]
  exact Catalog.find_replace hfind (by rw [hname])

/-- Discarding the staging table leaves the others. -/
theorem find_discard (hclear : s.table.Clear stg.name)
    (h : outcome stg.discard σ = (.ok (), σ')) :
    σ'.database.catalog.find s.table.allQuoted = σ.database.catalog.find s.table.allQuoted := by
  obtain ⟨c, hc, hdropped⟩ := discard_ok h
  rw [hc]
  exact hdropped.find (Identifier.clear_allQuoted.2 hclear)

end StagingTable

/-! ## Updates -/

/-- A plan that is carried out leads to a state of the table. -/
theorem Plan.Ready.state_apply {p : Plan} (h : p.Ready s t) (hne : p.rows ≠ [])
    (hstate : s.TableState t) (hclear : s.table.Clear stg.name)
    (hfind : σ.database.catalog.find s.table.allQuoted = .ok (a, t)) {n : Nat}
    {decoded : List WriteBack} (hrun : outcome (p.apply s stg) σ = (.ok (n, decoded), σ')) :
    ∃ t', σ'.database.catalog.find s.table.allQuoted = .ok (a, t') ∧ s.TableState t' := by
  obtain ⟨σ₁, σ₂, σ₃, hstage, hupdate, hreturned, hdiscard⟩ := apply_run hrun
  obtain ⟨horigin, -⟩ := h.staged_stage hclear hne hfind hstage
  have hsame : σ₃.database = σ₂.database := by
    split at hreturned
    · obtain ⟨rows, hread, -⟩ := hreturned
      exact StagingTable.readBack_keeps hread
    · rw [hreturned.2]
  rw [StagingTable.find_discard hclear hdiscard, hsame]
  exact StagingTable.state_applyUpdate hstate horigin hupdate

section Update

variable {ε : Type} [Entity ε] {sets : List (ChangeSet ε)} {pool pool' : Pool MemoryDatabase}
  {m : MemoryDatabase} {b : Batch ε Nat}

/-- An update has left the entities alone, with an error or because there was nothing to change, or
it has applied a plan as it is written, and what was decoded is written to the entities. -/
theorem Pool.update_applied (hkind : s.primaryKey.kind ≠ .real)
    (hchecked : ∀ c ∈ sets, c.Checked s) (hclear : s.table.Clear stg.name)
    (halias : foldName s.table.name ≠ "_staged") (hm : pool.database = some m)
    (ht : m.catalog.find s.table.allQuoted = .ok (a, t)) (hstate : s.TableState t)
    (h : Pool.update s stg sets pool = (b, pool')) :
    (b.items = sets.map ChangeSet.item ∧
        ((∃ e, b.result = .error e) ∨ (∀ c ∈ sets, c.changes.isEmpty = true) ∧ pool' = pool)) ∨
      ∃ (p : Plan) (bs : List WriteBack) (m' : MemoryDatabase), p.Compiled s sets ∧
        p.written.Ready s t ∧
        assignWriteBacks (sets.map ChangeSet.item).toArray bs =
          (b.items.toArray, b.result.map fun _ => ()) ∧
        pool'.database = some m' ∧
        m'.catalog.find s.table.allQuoted = .ok (a, p.written.appliedTo s t) ∧
        s.TableState (p.written.appliedTo s t) ∧ p.written.Decodes s t bs := by
  rcases Pool.update_cases h with ⟨hitems, herror⟩ | ⟨p, hp, ⟨hnoop, -, hpool, hitems⟩ |
    ⟨hnoop, n, decoded, r, hrun, hassign, hresult⟩⟩
  · exact .inl ⟨hitems, .inl herror⟩
  · refine .inl ⟨hitems, .inr ⟨List.all_eq_true.1 ?_, hpool⟩⟩
    rw [← (Plan.compiled_of_compile hp).isNoop_eq, hnoop]
  · right
    have hcompiled := Plan.compiled_of_compile hp
    have hready := hcompiled.ready_written (Schema.fits_of_tableState hstate) hkind hchecked
    obtain ⟨m₁, σ, m', hm₁, hrun, hm', hcatalog⟩ := Pool.transaction_ok hrun
    obtain rfl := Option.some.inj (hm.symm.trans hm₁)
    rw [← Plan.apply_written] at hrun
    have hrows : p.written.rows ≠ [] := by
      intro hnil
      have hnil := List.map_eq_nil_iff.1 hnil
      simp [Plan.isNoop, hnil] at hnoop
    obtain ⟨hfind, -, hdecodes⟩ := hready.apply_decoded hrows hclear halias ht hrun
    obtain ⟨t', hfind', hstate'⟩ := hready.state_apply hrows hstate hclear ht hrun
    obtain ⟨-, rfl⟩ := Prod.mk.inj (Except.ok.inj (hfind.symm.trans hfind'))
    have hdone : r = b.result.map fun _ => () := by
      rw [hresult]
      cases r <;> rfl
    exact ⟨p, decoded, m', hcompiled, hready, hdone ▸ hassign, hm', hcatalog ▸ hfind, hstate',
      hdecodes⟩

end Update

/-! ## Patches -/

section Patch

variable {f : Filter} {c : Changes} {returning : List String} {r : Patched}

/-- A plan of a patch that is carried out leads to a state of the table. -/
theorem PatchPlan.Planned.state_apply {plan : PatchPlan} {cs : List Sql.ResultColumn}
    (hplan : Planned s f c returning plan cs) (hf : f.Suits s t) (hnul : '\x00' ∉ stg.name.toList)
    (hclear : s.table.Clear stg.name)
    (hfind : σ.database.catalog.find s.table.allQuoted = .ok (a, t))
    (h : outcome (plan.apply s stg) σ = (.ok r, σ')) :
    ∃ t', σ'.database.catalog.find s.table.allQuoted = .ok (a, t') ∧ s.TableState t' := by
  obtain ⟨n, modified, rows, decoded, σ₁, σ₂, σ₃, hcreate, hupdate, hread, hdiscard, -, -⟩ :=
    apply_run h
  obtain ⟨-, -, -, -, -, -, -, -, horigin⟩ := hplan.create_filled hf hnul hclear hfind hcreate
  rw [StagingTable.find_discard hclear hdiscard, StagingTable.readBack_keeps hread]
  split at hupdate
  · obtain ⟨-, rfl⟩ := Prod.mk.inj hupdate
    exact ⟨t, horigin, hf.state⟩
  · exact StagingTable.state_applyUpdate hf.state horigin hupdate

theorem Pool.state_patch {m : MemoryDatabase} {p p' : Pool MemoryDatabase} (hf : f.Suits s t)
    (hnul : '\x00' ∉ stg.name.toList) (hclear : s.table.Clear stg.name)
    (hfind : m.catalog.find s.table.allQuoted = .ok (a, t)) (hp : p.database = some m)
    (h : outcome (Pool.patch s stg f c returning) p = (.ok r, p')) :
    ∃ m' t', p'.database = some m' ∧ m'.catalog.find s.table.allQuoted = .ok (a, t') ∧
      s.TableState t' := by
  obtain ⟨plan, cs, σ, σ', m', hplan, hcatalog, hrun, hm', hcatalog'⟩ := patch_run hp h
  rw [← hcatalog] at hfind
  obtain ⟨t', hfind', hstate'⟩ := hplan.state_apply hf hnul hclear hfind hrun
  exact ⟨m', t', hm', hcatalog' ▸ hfind', hstate'⟩

end Patch

end StagedStore
