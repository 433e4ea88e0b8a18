import StagedStore.Proofs.Store.Aligned
import StagedStore.Proofs.Update.OneByOne

/-!
# Updating and patching one row

An update with one change set and a patch under a filter that asks for its key do the same to the
row with this key, as long as the amounts that are added are finite, and what the patch tells is what
the update gives back.
-/

namespace StagedStore

open Memory MemoryDatabase Sql

variable {ε : Type} {s : Schema} {t : Table} {c : Changes} {set : ChangeSet ε} {e : Entry}

/-! ## The row of a key -/

/-- The filter that asks for a key. -/
def Filter.byKey (s : Schema) (key : Value) : Filter :=
  Filter.all.and (.test s.primaryKey.name .eq key)

/-- Without reals in play, what a filter compares with is what the field stores. -/
theorem Field.toStorage_of_encode {f : Field} {v : Value} {w : Storage} (hkind : f.kind ≠ .real)
    (h : f.encode v = .ok w) : v.toStorage = w := by
  rcases Field.encode_ok h with ⟨rfl, -, rfl⟩ | ⟨-, h⟩
  · rfl
  · cases hk : f.kind <;> cases v <;> simp only [hk, encodeKind?, reduceCtorEq,
      Option.some.injEq] at h <;> first | exact h | exact absurd hk hkind

theorem ChangeSet.key_of_concerns (h : set.concerns s e = true) :
    s.primaryKey.encode set.key = .ok (s.keyCell e) := by
  unfold concerns at h
  split at h
  · rename_i k hk
    rw [hk, of_decide_eq_true h]
  · simp at h

/-- What a filter finds equal to a key is the key itself. -/
theorem Schema.Fits.equals_key_iff (h : s.Fits t) (hkind : s.primaryKey.kind ≠ .real)
    (he : e ∈ t.entries) {key : Value} {k : Storage} (hkey : s.primaryKey.encode key = .ok k) :
    (s.fieldCell s.primaryKey.name e).equals (s.fieldAffinity s.primaryKey.name) key.boundCell =
      some true ↔ s.keyCell e = k := by
  have hbound : key.boundCell = k := by
    rw [Value.boundCell, Field.toStorage_of_encode hkind hkey]
    exact Storage.bound_of_notReal (store_of_writes hkind (writes_of_encode hkey)).1
  have hholds := h.holds_keyCell_iff (f := s.primaryKey.affinity) he hkind (writes_of_encode hkey)
    ⟨id, id⟩
  rw [Storage.holds, decide_eq_true_iff] at hholds
  rw [s.fieldCell_primaryKey, fieldAffinity_eq (requireField_eq s.getElem?_keyIndex), hbound]
  exact hholds

/-- The row of a key is matched by the filter that asks for the key, and no other is. -/
theorem Schema.Fits.matched_byKey (h : s.Fits t) (hkind : s.primaryKey.kind ≠ .real)
    (he : e ∈ t.entries) {key : Value} (hkey : s.primaryKey.encode key = .ok (s.keyCell e))
    (p : Params) : (Filter.byKey s key).matched s t p = [e] := by
  have hdeclared : ∀ n ∈ (Filter.byKey s key).columns, ∃ g, s.requireField n = .ok g := by
    intro n hn
    obtain rfl : n = s.primaryKey.name := by
      simpa [Filter.byKey, Filter.columns, Filter.and, Filter.all, Condition.allColumns,
        Condition.columns] using hn
    exact ⟨_, requireField_eq s.getElem?_keyIndex⟩
  have hpasses : ∀ e' ∈ t.entries, (Filter.byKey s key).passes t p e' = true ↔ e' = e := by
    intro e' he'
    rw [Filter.passes_of_free h hdeclared rfl p he']
    have hverdict : Truth.conjunction (Condition.verdicts s e' (Filter.byKey s key).conditions) =
        (s.fieldCell s.primaryKey.name e').equals (s.fieldAffinity s.primaryKey.name)
          key.boundCell := by
      simp [Filter.byKey, Filter.and, Filter.all, Condition.verdicts, Condition.isEmpty,
        Condition.verdict, TestOp.verdict]
    rw [hverdict, h.equals_key_iff hkind he' hkey]
    exact ⟨h.eq_of_keyCell_eq he' he, fun heq => by rw [heq]⟩
  have hnodup := (Filter.byKey s key).nodup_matched h p
  have hmem : ∀ e', e' ∈ (Filter.byKey s key).matched s t p ↔ e' ∈ [e] := by
    intro e'
    rw [Filter.mem_matched rfl rfl, List.mem_singleton]
    constructor
    · rintro ⟨he', hp⟩
      exact (hpasses e' he').1 hp
    · rintro rfl
      exact ⟨he, (hpasses e' he).2 rfl⟩
  have hperm := (List.perm_ext_iff_of_nodup hnodup (List.nodup_singleton e)).2 hmem
  exact List.perm_singleton.1 hperm

/-! ## Sums -/

/-- A value is what a field reads from the sum of its cell in a row and what changes add to it. -/
def Changes.Adds (s : Schema) (c : Changes) (e : Entry) (n : String) (v : Value) : Prop :=
  ∃ g a, s.requireField n = .ok g ∧ (n, .increment a) ∈ c.entries ∧
    g.decode ((Delta.increment a).stagedCell g (s.fieldCell n e)) = .ok v

theorem Changes.Adds.unique {n : String} {v w : Value} (h : c.Adds s e n v)
    (h' : c.Adds s e n w) : v = w := by
  obtain ⟨g, a, hg, ha, hv⟩ := h
  obtain ⟨g', a', hg', ha', hw⟩ := h'
  obtain rfl := Except.ok.inj (hg.symm.trans hg')
  obtain rfl : a = a' := by
    have hget : c.get? n = some (.increment a) := get?_of_mem ha
    have hget' : c.get? n = some (.increment a') := get?_of_mem ha'
    exact Delta.increment.inj (Option.some.inj (hget.symm.trans hget'))
  exact Except.ok.inj (hv.symm.trans hw)

/-- A patch without further fields tells the sums. -/
theorem PatchPlan.Planned.adds_of_decodeRow {f : Filter} {plan : PatchPlan}
    {cs : List ResultColumn} {os : List Output} (h : Planned s f c [] plan cs) (hfits : s.Fits t)
    (hos : List.Forall₂ (Output.Leaves s t c) (stagedNames s c []) (s.keyResult :: os))
    {d : Value × List Value}
    (hd : plan.decodeRow s ⟨plan.staged, plan.staged.map (namedCell
      ((s.keyResult :: os).map Output.name) (stagedCells (s.keyResult :: os) e))⟩ = .ok d) :
    List.Forall₂ (c.Adds s e) c.incremented d.2 := by
  rw [map_name hos, h.staged] at hd
  obtain ⟨key, -, hd⟩ := Except.bind_eq_ok_iff.1 hd
  obtain ⟨values, hvalues, hd⟩ := Except.bind_eq_ok_iff.1 hd
  obtain rfl := Except.ok.inj hd
  have hreported : plan.reported = c.incremented := h.reported
  rw [hreported] at hvalues
  have hall := Except.mapM_eq_ok_iff.1 hvalues
  refine List.forall₂_iff_get.2 ⟨hall.length_eq, fun i hi hi' => ?_⟩
  have hv := hall.get hi hi'
  obtain ⟨a, ha⟩ := Changes.mem_incremented.1 (List.get_mem c.incremented ⟨i, hi⟩)
  obtain ⟨g, hg, hv⟩ := Except.bind_eq_ok_iff.1 hv
  have hstaged : c.incremented.get ⟨i, hi⟩ ∈ stagedNames s c [] :=
    mem_appendNew.2 (.inl (List.mem_cons_of_mem _ (List.mem_map_of_mem ha)))
  rw [Row.get_map hstaged, h.namedCell_changed hos hfits ha hg e] at hv
  exact ⟨g, a, hg, ha, hv⟩

/-- What a plan computes for a field that a change set changes. -/
theorem PlanRow.Of.resolved_eq {r : PlanRow} (h : r.Of s set) {n : String} {d : Delta}
    (hd : (n, d) ∈ set.changes.entries) {g : Field} (hg : s.requireField n = .ok g)
    (old : Storage) : (r.cell n).resolved old = d.stagedCell g old := by
  rcases h.cell n with ⟨hnone, -⟩ | ⟨d', g', hd', hg', hcell⟩
  · rw [Changes.get?_of_mem hd] at hnone
    cases hnone
  · obtain rfl := Except.ok.inj (hg.symm.trans hg')
    obtain rfl := Option.some.inj ((Changes.get?_of_mem hd).symm.trans hd')
    cases d with
    | unset => rw [← Except.ok.inj hcell]; rfl
    | set v =>
        obtain ⟨w, hw, hcell⟩ := Except.bind_eq_ok_iff.1 hcell
        rw [← Except.ok.inj hcell, Delta.stagedCell, hw]
        rfl
    | increment v =>
        obtain ⟨w, hw, hcell⟩ := Except.bind_eq_ok_iff.1 hcell
        rw [← Except.ok.inj hcell, Delta.stagedCell, hw]
        rfl

/-- One row has a key. -/
theorem Schema.Fits.matching_eq (h : s.Fits t) {r : PlanRow} (he : e ∈ t.entries)
    (hkey : s.keyCell e = r.key) : Plan.matching s t r = [e] := by
  have hnodup : (Plan.matching s t r).Nodup :=
    (List.nodup_reverse.2 h.nodup_entries).filter _
  refine List.perm_singleton.1 ((List.perm_ext_iff_of_nodup hnodup (List.nodup_singleton e)).2 ?_)
  intro e'
  rw [Plan.mem_matching, List.mem_singleton]
  constructor
  · rintro ⟨he', hkey'⟩
    exact h.eq_of_keyCell_eq he' he (hkey'.trans hkey.symm)
  · rintro rfl
    exact ⟨he, hkey⟩

namespace Plan

variable {p : Plan} {r : PlanRow} {decoded : List WriteBack}

/-- The staged row of a change set is decoded as the sums and their place. -/
theorem Ready.decodeRow_adds (h : p.Ready s t) (hof : r.Of s set) {i : Nat}
    (hplace : p.returning[r.key.literal]? = some (i, r.incremented))
    (hfields : ∀ n ∈ set.changes.incremented, n ∈ p.fields) {dec : Option WriteBack}
    (hdec : decodeRow s p.returning ⟨p.columns,
      p.columns.map (namedCell p.columns (r.staged s p e).toArray)⟩ = .ok dec) :
    ∃ ws, dec = some (i, ws) ∧
      List.Forall₂ (fun n x => x.1 = n ∧ set.changes.Adds s e n x.2) set.changes.incremented ws := by
  have hcolumn : s.primaryKey.name ∈ p.columns := h.key ▸ List.mem_cons_self
  obtain ⟨key, hget, hdec⟩ := Except.bind_eq_ok_iff.1 hdec
  rw [Row.get_map hcolumn, namedCell_key r e h.key] at hget
  obtain rfl := Except.ok.inj hget
  rw [hplace] at hdec
  obtain ⟨ws, hws, hdec⟩ := Except.bind_eq_ok_iff.1 hdec
  obtain rfl := Except.ok.inj hdec
  refine ⟨ws, rfl, ?_⟩
  rw [hof.incremented_eq] at hws
  have hall := Except.mapM_eq_ok_iff.1 hws
  refine List.forall₂_iff_get.2 ⟨hall.length_eq, fun i hi hi' => ?_⟩
  have hin := List.get_mem set.changes.incremented ⟨i, hi⟩
  obtain ⟨a, ha⟩ := Changes.mem_incremented.1 hin
  obtain ⟨g, hg, hx⟩ := Except.bind_eq_ok_iff.1 (hall.get hi hi')
  obtain ⟨cell, hcell, hx⟩ := Except.bind_eq_ok_iff.1 hx
  obtain ⟨v, hv, hx⟩ := Except.bind_eq_ok_iff.1 hx
  have hstaged : set.changes.incremented.get ⟨i, hi⟩ ∈ p.columns :=
    List.mem_cons_of_mem _ (hfields _ hin)
  rw [Row.get_map hstaged, h.namedCell_field r e (hfields _ hin), hof.resolved_eq ha hg] at hcell
  rw [← Except.ok.inj hx]
  exact ⟨rfl, g, a, hg, ha, (Except.ok.inj hcell).symm ▸ hv⟩

/-- An update of one row gives back the sums. -/
theorem Ready.adds_of_decodes (h : p.Ready s t) (hc : p.Compiled s [set]) (he : e ∈ t.entries)
    (hkey : set.concerns s e = true) (hd : p.Decodes s t decoded) :
    ∃ ws : List (String × Value),
      List.Forall₂ (fun n x => x.1 = n ∧ set.changes.Adds s e n x.2) set.changes.incremented ws ∧
        decoded = if set.changes.incremented = [] then [] else [(0, ws)] := by
  obtain ⟨r, hrows, hof⟩ : ∃ r, p.rows = [r] ∧ r.Of s set := by
    have hall := hc.rows
    generalize p.rows = rows at hall
    cases hall with
    | cons hof hnil =>
        cases hnil
        exact ⟨_, rfl, hof⟩
  have hcell : s.keyCell e = r.key :=
    Except.ok.inj ((ChangeSet.key_of_concerns hkey).symm.trans hof.key)
  have hreturning : p.hasReturning = !set.changes.incremented.isEmpty := by
    simp [hasReturning, hrows, hof.incremented_eq]
  unfold Decodes at hd
  rw [hreturning] at hd
  cases hnone : set.changes.incremented with
  | nil =>
      rw [hnone] at hd
      exact ⟨[], .nil, hd⟩
  | cons n ns =>
      rw [hnone] at hd
      obtain ⟨vs, hvs, hd⟩ := hd
      have hone : stagedRows s p t p.rows = [(r.staged s p e).toArray] := by
        rw [hrows, stagedRows, List.flatMap_cons, List.flatMap_nil, List.append_nil,
          h.fits.matching_eq he (h.keyCell_eq_kept (by simp [hrows]) he hcell)]
        rfl
      obtain rfl := List.perm_singleton.1 (hone ▸ hvs)
      obtain ⟨decs, hdecs, hd⟩ := Except.bind_eq_ok_iff.1 hd
      obtain rfl := Except.ok.inj hd
      obtain ⟨dec, hdec, rfl⟩ : ∃ dec, decodeRow s p.returning ⟨p.columns,
          p.columns.map (namedCell p.columns (r.staged s p e).toArray)⟩ = .ok dec ∧
            decs = [dec] := by
        rw [List.map_cons, List.map_nil, Except.mapM_eq_ok_iff] at hdecs
        cases hdecs with
        | cons hdec hnil =>
            cases hnil
            exact ⟨_, hdec, rfl⟩
      have hplace : p.returning[r.key.literal]? = some (0, r.incremented) := by
        unfold returning
        simp [hrows, hof.incremented_eq, hnone]
      have hfields : ∀ n ∈ set.changes.incremented, n ∈ p.fields := by
        intro n hn
        obtain ⟨a, ha⟩ := Changes.mem_incremented.1 hn
        refine (hc.mem_fields n).2 ⟨r, by rw [hrows]; exact List.mem_singleton_self r, ?_⟩
        rw [hof.map_fst]
        exact List.mem_map_of_mem ha
      obtain ⟨ws, rfl, hws⟩ := h.decodeRow_adds hof hplace hfields hdec
      exact ⟨ws, hnone ▸ hws, by simp⟩

end Plan

/-! ## Both operations -/

theorem assignWriteBacks_one [Entity ε] (item : ε) (ws : List (String × Value)) :
    assignWriteBacks #[item] [(0, ws)] = (#[(assignFields item ws).1], (assignFields item ws).2) := by
  rw [assignWriteBacks]
  rcases h : assignFields item ws with ⟨item', r⟩
  cases r with
  | ok x => simp [h, assignWriteBacks]
  | error err => simp [h]

/-- A single row is reported with one value for each field. -/
theorem PatchPlan.report_one {plan : PatchPlan} {modified : Nat} {d : Value × List Value}
    {ws : List (String × Value)} (hreported : plan.reported = c.incremented)
    (hd : List.Forall₂ (c.Adds s e) c.incremented d.2)
    (hws : List.Forall₂ (fun n x => x.1 = n ∧ c.Adds s e n x.2) c.incremented ws) :
    (plan.report modified [d]).returning = Keyed.ofList (ws.map fun x => (x.1, [x.2])) := by
  refine congrArg Keyed.ofList ?_
  rw [hreported]
  refine List.ext_getElem (by simp [hws.length_eq]) fun i hi hi' => ?_
  have hlt : i < c.incremented.length := by simpa using hi
  have hlt' : i < ws.length := hws.length_eq ▸ hlt
  have hlt'' : i < d.2.length := hd.length_eq ▸ hlt
  have hw := hws.get hlt hlt'
  have hv : d.2[i] = ws[i].2 := (hd.get hlt hlt'').unique hw.2
  have hname : ws[i].1 = c.incremented[i] := hw.1
  simp [hname, ← hv, hlt'']

/-- The change set of the row's key changes this row and no other. -/
theorem ChangeSet.applyTo_eq (h : s.Fits t) (he : e ∈ t.entries)
    (hkey : set.concerns s e = true) : applyTo s t set = set.changes.applyToRows s [e] t := by
  unfold applyTo Changes.applyToRows
  congr 1
  refine List.map_congr_left fun e' he' => ?_
  have hsame : set.concerns s e' = true ↔ e' ∈ [e] := by
    rw [List.mem_singleton]
    constructor
    · intro hkey'
      have hcells := (key_of_concerns hkey').symm.trans (key_of_concerns hkey)
      exact h.eq_of_keyCell_eq he' he (Except.ok.inj hcells)
    · rintro rfl
      exact hkey
  simp only [hsame]

section Both

variable [Entity ε] {b : SchemaBuilder} {name : String} {stg : StagingTable} {a : Area}
  {m : MemoryDatabase} {p p₁ p₂ : Pool MemoryDatabase} {key : Value} {item : ε}
  {u : Batch ε Nat} {n : Nat} {r : Patched}

/-- What an update of one row does, and what it gives back. -/
theorem Pool.update_one (hkind : s.primaryKey.kind ≠ .real) (hstate : s.TableState t)
    (hname : foldName s.table.name ≠ foldName stg.name)
    (halias : foldName s.table.name ≠ "_staged") (hchecked : set.Checked s)
    (hfinite : ∀ d ∈ set.changes.entries, d.2.isFinite = true)
    (he : e ∈ t.entries) (hkey : set.concerns s e = true)
    (hfind : m.catalog.find s.table.allQuoted = .ok (a, t)) (hp : p.database = some m)
    (h : Pool.update s stg [set] p = (u, p₁)) (hok : u.result = .ok n) :
    (∃ m₁, p₁.database = some m₁ ∧
      m₁.catalog.find s.table.allQuoted = .ok (a, set.changes.applyToRows s [e] t)) ∧
      n = (if set.changes.isEmpty then 0 else 1) ∧
      ∃ ws : List (String × Value),
        List.Forall₂ (fun n x => x.1 = n ∧ set.changes.Adds s e n x.2) set.changes.incremented ws ∧
          u.items = [(assignFields set.item ws).1] ∧ (assignFields set.item ws).2 = .ok () := by
  have hfits := Schema.fits_of_tableState hstate
  obtain ⟨plan, hplan, hrun⟩ := Pool.update_run h hok
  have hcompiled := Plan.compiled_of_compile hplan
  have hnoop : plan.isNoop = set.changes.isEmpty := by
    rw [hcompiled.isNoop_eq, List.all_cons, List.all_nil, Bool.and_true]
  rw [hnoop] at hrun
  rcases hrun with ⟨hempty, rfl, rfl, hitems⟩ | ⟨hempty, decoded, hrun, hassign⟩
  · have hnone : set.changes.incremented = [] := by
      have hentries : set.changes.entries = [] := List.isEmpty_iff.1 hempty
      simp [Changes.incremented, hentries]
    refine ⟨⟨m, hp, ?_⟩, by rw [if_pos hempty], [], by rw [hnone]; exact .nil, hitems, rfl⟩
    rwa [Changes.applyToRows_of_isEmpty hempty]
  · obtain ⟨m₁, σ, m', hm, hrun, hm', hcatalog⟩ := Pool.transaction_ok hrun
    obtain rfl := Option.some.inj (hp.symm.trans hm)
    have hall : ∀ c ∈ [set], c.Checked s := fun c hc => List.mem_singleton.1 hc ▸ hchecked
    have hready := hcompiled.ready hfits hkind hall fun c hc => List.mem_singleton.1 hc ▸ hfinite
    have hrows : plan.rows ≠ [] := by
      intro hnil
      have hlength := hcompiled.rows.length_eq
      simp [hnil] at hlength
    obtain ⟨hfound, hn, hdecodes⟩ := hready.apply_decoded hrows (.inl hname) halias hfind hrun
    rw [hready.appliedTo_eq hcompiled hall, hcompiled.map_kept hkind, List.foldl_cons, List.foldl_nil,
      ChangeSet.applyTo_eq hfits he hkey] at hfound
    have hcount : n = 1 := by
      rw [hn, hready.countP_eq hcompiled, hcompiled.map_kept hkind, List.countP_singleton, if_pos]
      exact List.any_eq_true.2 ⟨e, he, hkey⟩
    obtain ⟨ws, hws, rfl⟩ := hready.adds_of_decodes hcompiled he hkey hdecodes
    refine ⟨⟨m', hm', hcatalog ▸ hfound⟩, by rw [hempty]; exact hcount, ws, hws, ?_⟩
    have hone : assignWriteBacks #[set.item]
        (if set.changes.incremented = [] then [] else [(0, ws)]) =
          (#[(assignFields set.item ws).1], (assignFields set.item ws).2) := by
      by_cases hnone : set.changes.incremented = []
      · rw [hnone] at hws
        cases hws
        rw [if_pos hnone]
        rfl
      · rw [if_neg hnone]
        exact assignWriteBacks_one _ _
    obtain ⟨hitems, hdone⟩ := Prod.mk.inj (hone.symm.trans hassign)
    exact ⟨(congrArg Array.toList hitems).symm, hdone⟩

/-- What a patch of one row does, and what it tells. -/
theorem Pool.patch_one (hb : b.build = .ok s) (hkind : s.primaryKey.kind ≠ .real)
    (hstate : s.TableState t) (hstg : StagingTable.new name = .ok stg)
    (hname : foldName s.table.name ≠ foldName stg.name)
    (halias : foldName s.table.name ≠ "_staged") (he : e ∈ t.entries)
    (hkey : s.primaryKey.encode key = .ok (s.keyCell e))
    (hfind : m.catalog.find s.table.allQuoted = .ok (a, t)) (hp : p.database = some m)
    (h : outcome (Pool.patch s stg (Filter.byKey s key) c []) p = (.ok r, p₂)) :
    (∃ m₂, p₂.database = some m₂ ∧
      m₂.catalog.find s.table.allQuoted = .ok (a, c.applyToRows s [e] t)) ∧
      r.modified = (if c.isEmpty then 0 else 1) ∧
      ∃ plan modified d, PatchPlan.reported plan = c.incremented ∧
        List.Forall₂ (c.Adds s e) c.incremented d.2 ∧ r = plan.report modified [d] := by
  have hfits := Schema.fits_of_tableState hstate
  have hsuits : (Filter.byKey s key).Suits s t :=
    ⟨⟨b, hb⟩, hstate, Filter.declared_of_patch h, ⟨trivial, trivial⟩⟩
  obtain ⟨plan, cs, σ, σ', m₂, hplan, hcatalog, hrun, hm₂, hcatalog'⟩ := Pool.patch_run hp h
  rw [← hcatalog] at hfind
  obtain ⟨⟨os, es, decoded, hos, hes, hdecoded, rfl⟩, hrewritten⟩ := PatchPlan.apply_decoded hplan
    hsuits (StagingTable.nul_notMem_of_new hstg) (.inl hname) (fun _ => halias) hfind hrun
  rw [hfits.matched_byKey hkind he hkey] at hes hrewritten
  obtain rfl := List.perm_singleton.1 hes.perm
  cases hdecoded with
  | @cons _ d _ ds hd hnil =>
      cases hnil
      refine ⟨⟨m₂, hm₂, hcatalog' ▸ hrewritten.origin⟩, rfl, plan, _, d, hplan.reported, ?_, rfl⟩
      exact hplan.adds_of_decodeRow hfits hos hd

end Both

/-! ## One of three rows -/

namespace FirstRow

open ThreeRows

def item : Record := .ofList [("id", .integer 1)]

def one : ChangeSet Record := ⟨.integer 1, raise, item⟩

def batch : Plan := ⟨"id", ["x"], [⟨.integer 1, [("x", .increment (.integer 10))]⟩]⟩

theorem new_one : ChangeSet.new schema (.integer 1) raise item = .ok one := rfl

theorem compile_one : Plan.compile schema [one] = .ok batch := by
  have hrow : PlanRow.Of schema one ⟨.integer 1, [("x", .increment (.integer 10))]⟩ :=
    ⟨rfl, .cons ⟨rfl, _, rfl, rfl⟩ .nil⟩
  rw [Plan.compile_one hrow]
  with_unfolding_all rfl

/-- The row that is changed. -/
def first : Entry := ⟨1, #[.integer 1, .integer 5]⟩

/-- The rows behind the change. -/
def raised : List Entry :=
  [⟨3, #[.integer 3, .integer 7]⟩, ⟨2, #[.integer 2, .null]⟩, ⟨1, #[.integer 1, .integer 15]⟩]

/-- The staged row, under an affinity of the key. -/
def staged (f : Affinity) : Table :=
  ⟨"stage", [⟨"id", f, false⟩, ⟨"x", .blob, false⟩], none, false, [], [], [], 1,
    [⟨1, #[.integer 1, .integer 15]⟩]⟩

theorem finite_raise : ∀ d ∈ raise.entries, d.2.isFinite = true := by
  decide

theorem ready : batch.Ready schema (table 3 entries) := by
  refine (Plan.compiled_of_compile compile_one).ready (Schema.fits_of_tableState tableState)
    (by decide) (fun c hc => ?_) fun c hc => ?_
  · rw [List.mem_singleton.1 hc]
    exact ChangeSet.checked_of_new new_one
  · rw [List.mem_singleton.1 hc]
    exact finite_raise

theorem updates {f : Affinity} (hf : f = .integer ∨ f = .blob) :
    StagingTable.Updates schema staging (during entries [staged f] 3).catalog .main
      (table 3 entries) (staged f) ["id", "x"] ["x"] := by
  rcases hf with rfl | rfl <;>
    exact
      { fits := Schema.fits_of_tableState tableState
        origin := by with_unfolding_all rfl
        staging := by with_unfolding_all rfl
        named := ⟨rfl, by with_unfolding_all decide, by decide⟩
        alias_ne := by with_unfolding_all decide
        key_mem := by decide
        fields_mem := by decide
        declared := fun n hn => declared n (by simp_all) }

theorem runs_update {f : Affinity} (hf : f = .integer ∨ f = .blob) :
    Session.Runs (staging.applyUpdate schema ["x"]) (during entries [staged f] 3) 1
      (during raised [staged f] 1) := by
  have hperform : (during entries [staged f] 3).perform (.update .main (table 3 entries)
      ((["x"].map schema.fieldIndex).any fun j => (table 3 entries).key = some j)
      fun e => (StagingTable.meeting? schema ["id", "x"] ⟨"id", f, false⟩ (staged f) e).map
        (schema.assignments ["id", "x"] ["x"])) = (.ok (), during raised [staged f] 1) := by
    rcases hf with rfl | rfl <;> with_unfolding_all rfl
  refine StagingTable.runs_applyUpdate (updates hf) rfl rfl ?_ (by decide) rfl
    (by decide) hperform
  rcases hf with rfl | rfl <;> decide

theorem run_drop {f : Affinity} (hf : f = .integer ∨ f = .blob) :
    (Database.script staging.dropScript : Step MemoryDatabase Unit).run
      (during raised [staged f] 1) = (.ok (), during raised [] 1) := by
  rcases hf with rfl | rfl <;> with_unfolding_all rfl

theorem run_count {f : Affinity} (hf : f = .integer ∨ f = .blob) :
    (Database.query staging.countQuery #[] : Step MemoryDatabase (List Row)).run
      (during entries [staged f] 3) =
        (.ok [⟨["n"], [.integer 1]⟩], during entries [staged f] 3) := by
  rcases hf with rfl | rfl <;> with_unfolding_all rfl

/-- The staged row as it is read back. -/
def row : Row := ⟨["id", "x"], [.integer 1, .integer 15]⟩

theorem run_readBack {f : Affinity} (hf : f = .integer ∨ f = .blob) :
    (Database.query (staging.readBackQuery ["id", "x"]) #[] :
      Step MemoryDatabase (List Row)).run (during raised [staged f] 1) =
        (.ok [row], during raised [staged f] 1) := by
  rcases hf with rfl | rfl <;> cbv

theorem prepare_batch : prepare ((during entries [] 3).context (batch.select schema batch.rows).2)
    (.createTemporary (.quoted "stage") (.select (batch.select schema batch.rows).1)) =
    .ok (.create .temp (staged .blob)) := by
  obtain ⟨os, hos, hnames, hnone⟩ := ready.evalSelect_select
    ((during entries [] 3).context (batch.select schema batch.rows).2)
    (fun _ (h : _ ∈ batch.rows) => h) (by decide) (a := .main) (by with_unfolding_all rfl) rfl
  have hrows : Plan.stagedRows schema batch (table 3 entries) batch.rows =
      [#[.integer 1, .integer 15]] := by
    with_unfolding_all rfl
  have hstaged : tableOfRows "stage" os [#[.integer 1, .integer 15]] = staged .blob := by
    have hcolumns := ready.columns_tableOfRows hnames hnone "stage" [#[.integer 1, .integer 15]]
    unfold tableOfRows at hcolumns ⊢
    dsimp only at hcolumns ⊢
    rw [hcolumns]
    rfl
  rw [hrows] at hos
  rw [prepare_createTemporary (by with_unfolding_all rfl) (by with_unfolding_all rfl) hos]
  exact congrArg (fun u => Except.ok (Prepared.create .temp u)) hstaged

theorem decode_batch : batch.decodeReturning schema [row] = .ok [(0, [("x", .integer 15)])] := by
  have hplace : batch.returning[(Storage.integer 1).literal]? = some (0, ["x"]) := by
    unfold Plan.returning
    simp [batch, PlanRow.incremented]
  have hone : Plan.decodeRow schema batch.returning row =
      .ok (some (0, [("x", .integer 15)])) := by
    have hkey : row.get schema.primaryKey.name = .ok (.integer 1) := by with_unfolding_all rfl
    unfold Plan.decodeRow
    rw [hkey, Except.ok_bind, hplace]
    with_unfolding_all rfl
  unfold Plan.decodeReturning
  rw [List.mapM_cons, hone]
  rfl

theorem runs_batch : Session.Runs (batch.apply schema staging) (during entries [] 3)
    (1, [(0, [("x", .integer 15)])]) (during raised [] 1) := by
  have hfill : (Database.run (.createTemporary (.quoted "stage")
      (.select (batch.select schema batch.rows).1)) (batch.select schema batch.rows).2 :
        Step MemoryDatabase Nat).run (during entries [] 3) =
          (.ok 3, during entries [staged .blob] 3) :=
    run_eq (by decide) prepare_batch (by decide) rfl rfl
  have hchunks : batch.chunks = [batch.rows] := by with_unfolding_all rfl
  have hstage : Session.Runs (batch.stage schema staging) (during entries [] 3) ()
      (during entries [staged .blob] 3) := by
    unfold Plan.stage
    rw [hchunks]
    exact Session.runs_bind (StagingTable.runs_create ThreeRows.run_drop hfill (run_count (.inr rfl)))
      (Session.runs_pure ())
  refine Session.runs_bind hstage (Session.runs_bind (runs_update (.inr rfl)) ?_)
  refine Session.runs_bind (StagingTable.runs_readBack (run_readBack (.inr rfl))) ?_
  refine Session.runs_bind (Session.runs_ofExcept decode_batch) ?_
  exact Session.runs_bind (StagingTable.runs_discard (run_drop (.inr rfl))) (Session.runs_pure _)

theorem update_one : ∃ u p₁, Pool.update schema staging [one] pool = (u, p₁) ∧
    u.result = .ok 1 := by
  obtain ⟨p, hrun, -⟩ := Pool.transaction_eq (p := pool) rfl rfl runs_batch rfl rfl
  unfold Pool.update
  rw [compile_one]
  dsimp only
  rw [if_neg (by decide), show (Pool.transaction (batch.apply schema staging)).run pool = _ from hrun]
  exact ⟨_, _, rfl, rfl⟩

def keyed : PatchPlan where
  query := (Filter.byKey schema (.integer 1)).query schema (PatchPlan.selected schema raise []
    [.expr (.add (.ofName "x") (.param (some 1))) (some (.quoted "x"))])
      ((Filter.byKey schema (.integer 1)).build #[.integer 10]).1
  params := #[.integer 10, .integer 1]
  staged := ["id", "x"]
  touched := ["x"]
  reported := ["x"]

theorem compile_keyed : PatchPlan.compile schema (Filter.byKey schema (.integer 1)) raise [] =
    .ok keyed := by
  with_unfolding_all rfl

def told : Patched := ⟨1, [.integer 1], [("x", [.integer 15])]⟩

theorem runs_keyed : Session.Runs (keyed.apply schema staging) (during entries [] 3) told
    (during raised [] 1) := by
  have hprepare : prepare ((during entries [] 3).context keyed.params)
      (.createTemporary (.quoted "stage") (.select keyed.query)) =
        .ok (.create .temp (staged .integer)) := by
    with_unfolding_all rfl
  have hfill : (Database.run (.createTemporary (.quoted "stage") (.select keyed.query))
      keyed.params : Step MemoryDatabase Nat).run (during entries [] 3) =
        (.ok 3, during entries [staged .integer] 3) :=
    run_eq (by decide) hprepare (by decide) rfl rfl
  have hdecode : [row].mapM (keyed.decodeRow schema) = .ok [(.integer 1, [.integer 15])] := by
    with_unfolding_all rfl
  rw [PatchPlan.apply_eq]
  refine Session.runs_bind
    (StagingTable.runs_create ThreeRows.run_drop hfill (run_count (.inl rfl))) ?_
  refine Session.runs_bind (runs_update (.inl rfl)) ?_
  refine Session.runs_bind (StagingTable.runs_readBack (run_readBack (.inl rfl))) ?_
  refine Session.runs_bind (StagingTable.runs_discard (run_drop (.inl rfl))) ?_
  exact Session.runs_bind (Session.runs_ofExcept hdecode) (Session.runs_pure _)

theorem patch_keyed : ∃ p₂, outcome (Pool.patch schema staging
    (Filter.byKey schema (.integer 1)) raise []) pool = (.ok told, p₂) := by
  obtain ⟨q, hrun, -⟩ := Pool.withLease_eq (p := pool) rfl rfl runs_keyed rfl rfl
  refine ⟨q.note (.patchApplied "t" 1 1), ?_⟩
  refine Action.outcome_bind_eq_ok_iff.2 ⟨keyed, pool, ?_, ?_⟩
  · rw [Action.outcome_ofExcept, compile_keyed]
  · exact Action.outcome_bind_eq_ok_iff.2 ⟨_, q, hrun, rfl⟩

end FirstRow

end StagedStore
