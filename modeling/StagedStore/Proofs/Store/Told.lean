import StagedStore.Proofs.Store.States
import StagedStore.Proofs.Update.Returned

/-!
# What an update writes back

The values that an update writes back to the entities are decoded from the staged rows. Each is the
one that the row with the entity's key holds when the update is done, whatever the entities make of
it.
-/

namespace StagedStore

open Memory MemoryDatabase

variable {ε : Type} {s : Schema} {p : Plan} {t : Table} {sets : List (ChangeSet ε)}

/-- A value is the one that a row holds in a field. -/
def Schema.HoldsValue (s : Schema) (n : String) (e : Entry) (v : Value) : Prop :=
  ∃ g w, s.requireField n = .ok g ∧ g.decode (s.fieldCell n e) = .ok w ∧ v.Same w

/-- What is written back is for one entity, and is what the row with its key holds in the fields
that the change set increments. -/
def WriteBack.Tells (s : Schema) (sets : List (ChangeSet ε)) (t : Table) (b : WriteBack) : Prop :=
  ∃ c, sets[b.1]? = some c ∧ b.2.map Prod.fst = c.changes.incremented ∧
    ∀ x ∈ b.2, ∀ e ∈ t.entries, c.concerns s e = true → s.HoldsValue x.1 e x.2

/-- Something is written back to each entity with a row in which its change set increments a field. -/
def WriteBack.Complete (s : Schema) (sets : List (ChangeSet ε)) (t : Table)
    (bs : List WriteBack) : Prop :=
  ∀ i c, sets[i]? = some c → c.changes.incremented ≠ [] →
    (∃ e ∈ t.entries, c.concerns s e = true) → ∃ b ∈ bs, b.1 = i

namespace Plan

/-- A staged row as it is read back. -/
def rowOf (p : Plan) (cells : Array Storage) : Row :=
  ⟨p.columns, p.columns.map (namedCell p.columns cells)⟩

variable {r : PlanRow} {e : Entry} {c : ChangeSet ε} {n : String} {v : Value}

/-- A row of the origin table after a plan is applied. -/
def after (p : Plan) (s : Schema) (t : Table) (e : Entry) : Entry :=
  StagingTable.updated s t p.columns p.fields (p.source s) e

/-! ## The rows of the table -/

/-- A field that no change set has keeps its cell. -/
theorem Ready.getElem?_after_of_notMem (h : p.Ready s t) (e : Entry) {i : Nat} {f : Field}
    (hi : s.fields[i]? = some f) (hn : f.name ∉ p.fields) :
    (p.after s t e).cells[i]? = e.cells[i]? := by
  unfold after StagingTable.updated
  split
  · rfl
  · exact Revision.getElem?_cellsAfter_of_notMem (Schema.notMem_assignments h.declared hi hn)

theorem Ready.keyCell_after (h : p.Ready s t) (e : Entry) :
    s.keyCell (p.after s t e) = s.keyCell e := by
  unfold Schema.keyCell
  rw [h.getElem?_after_of_notMem e s.getElem?_keyIndex h.key_notMem]

/-- An updated row keeps in a field what was staged for it. -/
theorem Ready.fieldCell_after (h : p.Ready s t) (hr : r ∈ p.rows) (he : e ∈ t.entries)
    (hkey : s.keyCell e = r.key.kept) {f : Field} (hf : s.requireField n = .ok f) (hn : n ∈ p.fields) :
    s.fieldCell n (p.after s t e) =
      f.affinity.store (namedCell p.columns (r.staged s p e).toArray n) := by
  have hsource : p.source s e = some (r.staged s p e).toArray := by
    rw [source, h.rowOf?_eq_some.2 ⟨hr, hkey⟩]
    rfl
  obtain ⟨hi, rfl⟩ := Schema.getElem?_fieldIndex hf
  unfold after StagingTable.updated Schema.fieldCell
  rw [hsource]
  dsimp only
  rw [h.fits.getElem?_cellsAfter_of_mem h.fields_nodup h.declared he hi hn, Option.getD_some]

/-- What a field reads from the staged row of a row is what the row then holds. -/
theorem Ready.holds_of_reads (h : p.Ready s t) (hr : r ∈ p.rows) (he : e ∈ t.entries)
    (hkey : s.keyCell e = r.key.kept) (hn : n ∈ p.fields)
    (hv : (p.rowOf (r.staged s p e).toArray).Reads s n v) : s.HoldsValue n (p.after s t e) v := by
  obtain ⟨f, w, hf, hw, hdecode⟩ := hv
  have hcolumn : n ∈ p.columns := List.mem_cons_of_mem _ hn
  have hget := Row.get_of_get? hw
  rw [rowOf, Row.get_map hcolumn] at hget
  obtain rfl := Except.ok.inj hget
  obtain ⟨u, hu, hsame⟩ := Field.decode_store hdecode
  exact ⟨f, u, hf, by rwa [h.fieldCell_after hr he hkey hf hn], hsame⟩

/-! ## The rows that are read back -/

theorem Ready.get?_rowOf_key (h : p.Ready s t) (r : PlanRow) (e : Entry) :
    (p.rowOf (r.staged s p e).toArray).get? s.primaryKey.name = some r.key := by
  have hcolumn : s.primaryKey.name ∈ p.columns := h.key ▸ List.mem_cons_self
  rw [← namedCell_key r e h.key]
  exact Row.get?_of_get (Row.get_map hcolumn)

/-- A row that a change set concerns had its key before. -/
theorem Ready.exists_of_concerns (h : p.Ready s t) {e' : Entry}
    (he' : e' ∈ (p.appliedTo s t).entries) (hconcerns : c.concerns s e' = true) :
    ∃ e ∈ t.entries, e' = p.after s t e ∧ s.primaryKey.encode c.key = .ok (s.keyCell e) := by
  obtain ⟨e, he, rfl⟩ := List.mem_map.1 he'
  refine ⟨e, he, rfl, ?_⟩
  rw [← h.keyCell_after e]
  exact ChangeSet.key_of_concerns hconcerns

variable {vs : List (Array Storage)} {told : List (Option WriteBack)}

/-- What rows give back is what the rows of the updated table hold. -/
theorem Ready.tells (h : p.written.Ready s t) (hc : p.Compiled s sets)
    (hvs : vs.Perm (stagedRows s p.written t p.written.rows))
    (htold : List.Forall₂ (fun row => row.GivesBack s sets) (vs.map p.written.rowOf) told) :
    ∀ b ∈ told.filterMap id, b.Tells s sets (p.written.appliedTo s t) := by
  intro b hb
  obtain ⟨_, hin, rfl⟩ := List.mem_filterMap.1 hb
  obtain ⟨row, hrow, hgives⟩ := htold.exists_left hin
  obtain ⟨cells, hcells, rfl⟩ := List.mem_map.1 hrow
  obtain ⟨r, hr, e, he, hkey, rfl⟩ := mem_stagedRows.1 (hvs.mem_iff.1 hcells)
  cases hgives with
  | @values i c values hroutes hreads =>
      refine ⟨c, hroutes.member, ?_, fun x hx e' he' hconcerns => ?_⟩
      · rw [← List.forall₂_eq_eq_eq, List.forall₂_map_left_iff]
        exact hreads.flip.imp fun _ _ hx => hx.1
      · obtain ⟨k, hk, hget⟩ := hroutes.key
        obtain ⟨e₁, he₁, rfl, hk₁⟩ := h.exists_of_concerns he' hconcerns
        rw [h.get?_rowOf_key] at hget
        have hsame : s.keyCell e₁ = s.keyCell e := (h.keyCell_eq_kept hr he₁
          ((Except.ok.inj (hk₁.symm.trans hk)).trans (Option.some.inj hget).symm)).trans hkey.symm
        obtain rfl := h.fits.eq_of_keyCell_eq he₁ he hsame
        obtain ⟨n, hn, rfl, hx⟩ := hreads.exists_left hx
        obtain ⟨a, ha⟩ := Changes.mem_incremented.1 hn
        have hfield : x.1 ∈ p.fields :=
          (hc.mem_fields_iff x.1).2 ⟨c, List.mem_of_getElem? hroutes.member,
            List.mem_map_of_mem ha⟩
        exact h.holds_of_reads hr he hkey hfield hx

/-- Every row that a change set increments gives something back. -/
theorem Ready.complete (h : p.written.Ready s t) (hc : p.Compiled s sets)
    (hvs : vs.Perm (stagedRows s p.written t p.written.rows))
    (htold : List.Forall₂ (fun row => row.GivesBack s sets) (vs.map p.written.rowOf) told) :
    WriteBack.Complete s sets (p.written.appliedTo s t) (told.filterMap id) := by
  rintro i c hi hne ⟨e', he', hconcerns⟩
  obtain ⟨e, he, rfl, hk⟩ := h.exists_of_concerns he' hconcerns
  obtain ⟨r, hr, hof⟩ := hc.rows.getElem?_right hi
  have hkey : s.keyCell e = r.written.key := Except.ok.inj (hk.symm.trans hof.key)
  have hr' : r.written ∈ p.written.rows := List.mem_map_of_mem (List.mem_of_getElem? hr)
  have hcells := hvs.mem_iff.2
    (mem_stagedRows.2 ⟨r.written, hr', e, he, h.keyCell_eq_kept hr' he hkey, rfl⟩)
  obtain ⟨b, hb, hgives⟩ := htold.exists_right (List.mem_map_of_mem hcells)
  have hroutes : (p.written.rowOf (r.written.staged s p.written e).toArray).Routes s sets i c :=
    ⟨hi, hne, r.key, hof.key, h.get?_rowOf_key r.written e⟩
  cases hgives with
  | nothing hnone => exact absurd hroutes (hnone i c)
  | @values j d values hroutes' _ =>
      obtain ⟨k, hk', hget⟩ := hroutes'.key
      rw [h.get?_rowOf_key] at hget
      obtain rfl := Option.some.inj hget
      exact ⟨(j, values), List.mem_filterMap.2 ⟨_, hb, rfl⟩,
        hc.place_unique hroutes'.member hi hk' hof.key⟩

end Plan

section Update

variable [Entity ε] {stg : StagingTable} {pool pool' : Pool MemoryDatabase} {m : MemoryDatabase}
  {a : Area} {b : Batch ε Nat}

/-- An update has left the entities alone, or what it has written back to them is what the table
then holds. -/
theorem Pool.update_tells (hkind : s.primaryKey.kind ≠ .real)
    (hchecked : ∀ c ∈ sets, c.Checked s) (hclear : s.table.Clear stg.name)
    (halias : foldName s.table.name ≠ "_staged") (hm : pool.database = some m)
    (ht : m.catalog.find s.table.allQuoted = .ok (a, t)) (hstate : s.TableState t)
    (h : Pool.update s stg sets pool = (b, pool')) :
    (b.items = sets.map ChangeSet.item ∧
        ((∃ e, b.result = .error e) ∨ ∀ c ∈ sets, c.changes.isEmpty = true)) ∨
      ∃ bs m' t', assignWriteBacks (sets.map ChangeSet.item).toArray bs =
          (b.items.toArray, b.result.map fun _ => ()) ∧
        pool'.database = some m' ∧ m'.catalog.find s.table.allQuoted = .ok (a, t') ∧
        (∀ w ∈ bs, w.Tells s sets t') ∧ WriteBack.Complete s sets t' bs := by
  rcases Pool.update_applied hkind hchecked hclear halias hm ht hstate h with
    ⟨hitems, hkept⟩ | ⟨p, bs, m', hcompiled, hready, hassign, hm', hfind, -, hdecodes⟩
  · exact .inl ⟨hitems, hkept.imp_right And.left⟩
  · refine .inr ⟨bs, m', _, hassign, hm', hfind, ?_⟩
    unfold Plan.Decodes at hdecodes
    split at hdecodes
    · obtain ⟨vs, hvs, hdecoded⟩ := hdecodes
      rw [Plan.decodeReturning_written] at hdecoded
      obtain ⟨told, htold, rfl⟩ := Plan.decodeReturning_eq_ok hcompiled hkind hdecoded
      exact ⟨hready.tells hcompiled hvs htold, hready.complete hcompiled hvs htold⟩
    · rename_i hnone
      obtain rfl := hdecodes
      refine ⟨nofun, fun i c hi hne _ => ?_⟩
      obtain ⟨r, hr, hof⟩ := hcompiled.rows.getElem?_right hi
      rw [Plan.hasReturning_written] at hnone
      refine absurd (List.any_eq_true.2 ⟨r, List.mem_of_getElem? hr, ?_⟩) hnone
      rw [hof.incremented_eq]
      simpa using hne

end Update

end StagedStore
