import StagedStore.Proofs.Insert.Numbered
import StagedStore.Proofs.Store.OneRow
import StagedStore.Proofs.Store.Ordered

/-!
# Names of the origin table and of the staging table

While rows are staged, the table of the entities and the staging table stand in one space of names.
Their statements reach the two tables as long as the tables share no name, or the table of the
entities is asked for among the main ones, and as long as it does not have the name that the staging
table is joined under. These are the only names that go wrong.
-/

namespace StagedStore

open Memory MemoryDatabase Sql

variable {s : Schema} {t u : Table} {stg : StagingTable} {a : Area} {c : Catalog} {ctx : Context}
  {names : List String}

/-! ## Staging -/

/-- What the names in a query that stages rows mean: of a filter, or of a plan, whose rows are
joined with the table. -/
structure Schema.Selects (s : Schema) (a : Area) (t : Table) (ctx : Context) : Prop where
  origin : ctx.catalog.find s.table.allQuoted = .ok (a, t)
  source : evalSource ctx (.table s.table.allQuoted none) = .ok ⟨t.slots t.name, t.scan⟩
  column : ∀ n g, s.requireField n = .ok g →
    (ctx.resolver (t.slots t.name)).Finds (.quoted s.table.name) n (1 + s.fieldIndex n)
  joinedSource : evalSource ctx (.table s.table.allQuoted (some Plan.origin)) =
    .ok ⟨t.slots "_origin", t.scan⟩
  plannedColumn : ∀ p : Plan, p.Laid s t → ∀ n ∈ p.columns,
    (p.joined ctx t).Finds Plan.planned n (p.columns.idxOf n)
  joinedColumn : ∀ p : Plan, p.Laid s t → ∀ n g, s.requireField n = .ok g →
    (p.joined ctx t).Finds Plan.origin n (p.plannedSlots.length + (1 + s.fieldIndex n))

theorem Schema.Fits.selects (h : s.Fits t)
    (hfind : ctx.catalog.find s.table.allQuoted = .ok (a, t)) : s.Selects a t ctx where
  origin := hfind
  source := by
    rw [evalSource, hfind]
    rfl
  column n g hg := by
    obtain ⟨hi, rfl⟩ := Schema.getElem?_fieldIndex hg
    have hname : foldName s.table.name = foldName t.name :=
      (Catalog.name_of_find_allQuoted hfind).symm
    have hfield := h.resolve_field (r := ctx.resolver (t.slots t.name))
      (q := some (.quoted s.table.name)) [] [] t.name (by rw [List.append_nil]; rfl)
      (by rintro _ ⟨⟩; exact hname) (by simp) (by simp) hi
    rw [List.length_nil, Nat.zero_add] at hfield
    exact ⟨g.affinity, hfield⟩
  joinedSource := by
    rw [evalSource, hfind]
    rfl
  plannedColumn p hp n hn := by
    have hi : p.columns[p.columns.idxOf n]? = some n := by
      rw [List.getElem?_eq_getElem (List.idxOf_lt_length_of_mem hn), List.getElem_idxOf]
    exact ⟨.none, hp.resolve_planned hi⟩
  joinedColumn p hp n g hg := by
    obtain ⟨hi, rfl⟩ := Schema.getElem?_fieldIndex hg
    rw [Plan.length_plannedSlots, ← Nat.add_assoc]
    exact ⟨g.affinity, hp.resolve_origin hi⟩

/-! ## Writing -/

namespace StagingTable

/-- What the names in the statements that write mean once rows are staged.  In the update the places
of the staging table stand before those of the table that is updated. -/
structure Reaches (stg : StagingTable) (s : Schema) (names : List String) (a : Area) (t u : Table)
    (ctx : Context) : Prop where
  selects : s.Selects a t ctx
  other : a = .main ∨ foldName t.name ≠ foldName stg.name
  staging : ctx.catalog.find stg.table = .ok (.temp, u)
  joined : evalSource ctx (.table stg.table (some staged)) = .ok ⟨u.slots "_staged", u.scan⟩
  stagedColumn : ∀ n ∈ names, (beside ctx u t).Finds staged n (1 + names.idxOf n)
  originColumn : ∀ n g, s.requireField n = .ok g →
    (beside ctx u t).Finds (.quoted s.table.name) n
      ((u.slots "_staged").length + (1 + s.fieldIndex n))
  deletedKeys : ∀ n ∈ names, ∃ f,
    ctx.column stg.table (.quoted n) = .ok (f, u.column (names.idxOf n))

/-- The catalog while rows are staged. -/
def during (stg : StagingTable) (c : Catalog) (u : Table) : Catalog :=
  (c.drop .temp stg.name).add .temp u

theorem findIn?_during (hu : foldName u.name = foldName stg.name) :
    (stg.during c u).findIn? .temp stg.name = some u :=
  Catalog.findIn?_add_self hu (Catalog.dropped_drop ..).gone

theorem beside_during (hu : foldName u.name = foldName stg.name) :
    c.Beside stg.name (stg.during c u) :=
  (Catalog.dropped_drop ..).beside.trans (Catalog.beside_add hu)

theorem reaches (h : s.Fits t) (hn : u.Named names)
    (hstaging : ctx.catalog.findIn? .temp stg.name = some u)
    (hfind : ctx.catalog.find s.table.allQuoted = .ok (a, t))
    (hclear : s.table.Clear stg.name) (halias : foldName s.table.name ≠ "_staged") :
    stg.Reaches s names a t u ctx where
  selects := h.selects hfind
  other := Catalog.other_of_clear (Identifier.clear_allQuoted.2 hclear) hfind
  staging := Catalog.find_staging hstaging
  joined := by
    rw [evalSource, Catalog.find_staging hstaging]
    rfl
  stagedColumn n hin := by
    have hname : foldName t.name = foldName s.table.name :=
      Catalog.name_of_find_allQuoted hfind
    obtain ⟨d, hd, rfl⟩ := exists_column hn hin
    exact ⟨d.affinity, resolve_staged hn (hname ▸ halias) hd⟩
  originColumn n g hg := by
    have hname : foldName t.name = foldName s.table.name :=
      Catalog.name_of_find_allQuoted hfind
    obtain ⟨hi, rfl⟩ := Schema.getElem?_fieldIndex hg
    rw [length_slots hn, ← Nat.add_assoc]
    exact ⟨g.affinity, resolve_origin hn h hname (hname ▸ halias) hi⟩
  deletedKeys n hin := by
    obtain ⟨d, hd, rfl⟩ := exists_column hn hin
    have hnodup := hn.nodup
    rw [← hn.columns, List.map_map] at hnodup
    refine ⟨d.affinity, ?_⟩
    rw [Context.column, Catalog.find_staging hstaging, Except.ok_bind]
    dsimp only [Part.name]
    rw [Table.columnIndex?_eq hnodup hd rfl]
    dsimp only
    rw [hd]
    rfl

/-- A name that the tables share is the staging table's, unless it asks for a main table. -/
theorem captured_of_not_clear (hstaging : c.findIn? .temp stg.name = some u)
    (hnot : ¬s.table.Clear stg.name) (hfind : c.find s.table.allQuoted = .ok (a, t)) :
    a = .temp ∧ t = u := by
  rw [← Identifier.clear_allQuoted] at hnot
  generalize s.table.allQuoted = i at hnot hfind
  obtain ⟨hname, hmain⟩ := not_or.1 hnot
  rw [not_not] at hname
  have htemp : c.findIn? .temp i.name = some u := by
    rw [← hstaging]
    unfold Catalog.findIn?
    rw [hname]
  have hin := Catalog.findIn?_of_find hfind
  cases a with
  | temp => exact ⟨rfl, Option.some.inj (hin.symm.trans htemp)⟩
  | main =>
      rw [Catalog.find_eq_ok_iff] at hfind
      obtain ⟨parts, hne⟩ := i
      match parts, hne with
      | [p], _ =>
          have htemp : c.findIn? .temp p.name = some u := htemp
          unfold Catalog.find? at hfind
          simp only [htemp] at hfind
          exact absurd (Prod.mk.inj (Option.some.inj hfind)).1 (by decide)
      | [q, p], _ =>
          unfold Catalog.find? at hfind
          simp only [Option.bind_eq_bind, Option.bind_eq_some_iff, Option.pure_def,
            Option.some.injEq, Prod.mk.injEq] at hfind
          obtain ⟨b, hb, v, -, rfl, -⟩ := hfind
          refine absurd ?_ hmain
          unfold Catalog.areaOf? at hb
          split at hb
          · rename_i hq
            exact decide_eq_true hq
          · split at hb <;> simp at hb
      | _ :: _ :: _ :: _, _ =>
          unfold Catalog.find? at hfind
          simp at hfind

theorem Reaches.clear (h : stg.Reaches s names a t u ctx) : s.table.Clear stg.name := by
  by_contra hnot
  obtain ⟨-, hstaging⟩ := Catalog.find_staging_iff.1 h.staging
  obtain ⟨rfl, rfl⟩ := captured_of_not_clear hstaging hnot h.selects.origin
  rcases h.other with hmain | hname
  · cases hmain
  · exact hname (Catalog.name_of_findIn? hstaging)

/-- Joined under the alias, the staging table leaves no table of this name its columns. -/
theorem Reaches.alias_ne (h : stg.Reaches s names a t u ctx) (hfits : s.Fits t)
    (hn : u.Named names) (hkey : s.primaryKey.name ∈ names) : foldName s.table.name ≠ "_staged" := by
  intro halias
  have hname : foldName t.name = "_staged" := by
    rw [Catalog.name_of_find_allQuoted h.selects.origin, halias]
  obtain ⟨d, hd, hdname⟩ := exists_column hn hkey
  have hslot := Table.getElem?_slots hd "_staged"
  have hslot' := Table.getElem?_slots hfits.keyColumn t.name
  have hlt := (List.getElem?_eq_some_iff.1 hslot).1
  have hstaged : (beside ctx u t).slots[1 + names.idxOf s.primaryKey.name]? = _ :=
    (List.getElem?_append_left hlt).trans hslot
  have horigin : (beside ctx u t).slots[(u.slots "_staged").length + (1 + s.keyIndex)]? =
      some (.ofColumn (some t.name) s.primaryKey.name s.primaryKey.affinity) := by
    refine (List.getElem?_append_right (Nat.le_add_right ..)).trans ?_
    rw [Nat.add_sub_cancel_left]
    exact hslot'
  refine Resolver.not_finds_of_ambiguous hstaged horigin (by omega) ?_ ?_ (h.stagedColumn _ hkey)
  · simp [Resolver.picks, Resolver.inSource, Slot.ofColumn, hdname, staged, Part.name]
  · simp [Resolver.picks, Resolver.inSource, Slot.ofColumn, hname, foldName_staged]

/-- The statements reach the two tables for no other names. -/
theorem reaches_iff (h : s.Fits t) (hu : foldName u.name = foldName stg.name) (hn : u.Named names)
    (hkey : s.primaryKey.name ∈ names) (hfind : c.find s.table.allQuoted = .ok (a, t))
    (params : Params) (k : Int64) :
    stg.Reaches s names a t u ⟨stg.during c u, params, k⟩ ↔
      s.table.Clear stg.name ∧ foldName s.table.name ≠ "_staged" := by
  refine ⟨fun hreaches => ⟨hreaches.clear, hreaches.alias_ne h hn hkey⟩,
    fun ⟨hclear, halias⟩ => ?_⟩
  have hsame := (beside_during hu).find (c := c) (Identifier.clear_allQuoted.2 hclear)
  exact reaches h hn (findIn?_during hu) (hsame.trans hfind) hclear halias

/-! ## The tables behind a write -/

section Run

variable {σ σ' : Session MemoryDatabase}

theorem beside_create {q : Select} {params : Params} {n : UInt64}
    (hmade : ∀ e ∈ q.leaves, e.isMade = true)
    (h : outcome (stg.create (.select q) params) σ = (.ok n, σ')) :
    σ.database.catalog.Beside stg.name σ'.database.catalog := by
  obtain ⟨os, rows, -, hdb⟩ := create_made hmade h
  rw [hdb]
  exact beside_during rfl

theorem beside_append {q : Select} {params : Params} {n : Nat}
    (hmade : ∀ e ∈ q.leaves, e.isMade = true)
    (h : outcome (stg.append (.select q) params) σ = (.ok n, σ')) :
    σ.database.catalog.Beside stg.name σ'.database.catalog := by
  obtain ⟨b, u, os, rows, i, lastKey, hfind, -, hinsert, hdb⟩ := append_ok hmade h
  obtain ⟨rfl, hstaging⟩ := Catalog.find_staging_iff.1 hfind
  rw [hdb]
  refine Catalog.beside_replace ?_
  have hname := Catalog.name_of_findIn? hstaging
  rw [Insertion.insertAll_alike hinsert]
  exact hname

/-- The update of the origin table revises the table that its name means. -/
theorem applyUpdate_reaches {fields : List String} {n : Nat}
    (hfind : σ.database.catalog.find s.table.allQuoted = .ok (a, t))
    (h : outcome (stg.applyUpdate s fields) σ = (.ok n, σ')) :
    ∃ changesKey values t', Revision.updateAll t changesKey values = .ok (t', n) ∧
      σ'.database.catalog = σ.database.catalog.replace a t' := by
  obtain ⟨b, u, changesKey, values, t', hprepare, hupdate, hdb⟩ := applyUpdate_ok h
  change prepareUpdateFrom _ _ _ _ _ = _ at hprepare
  obtain ⟨⟨b', u'⟩, hfind', hprepare⟩ := Except.bind_eq_ok_iff.1 hprepare
  obtain ⟨rfl, rfl⟩ := Prod.mk.inj (Except.ok.inj (hfind.symm.trans hfind'))
  obtain ⟨columns, -, hprepare⟩ := Except.bind_eq_ok_iff.1 hprepare
  obtain ⟨src, -, hprepare⟩ := Except.bind_eq_ok_iff.1 hprepare
  obtain ⟨terms, -, hprepare⟩ := Except.bind_eq_ok_iff.1 hprepare
  obtain ⟨condition, -, hprepare⟩ := Except.bind_eq_ok_iff.1 hprepare
  obtain ⟨⟨⟩, -, hprepare⟩ := Except.bind_eq_ok_iff.1 hprepare
  obtain ⟨rfl, rfl, -, -⟩ := Prepared.update.inj (Except.ok.inj hprepare)
  exact ⟨changesKey, values, t', hupdate, by rw [hdb]⟩

end Run

end StagingTable

namespace Plan

variable {p : Plan} {σ σ' : Session MemoryDatabase}

theorem beside_stage (h : outcome (p.stage s stg) σ = (.ok (), σ')) :
    σ.database.catalog.Beside stg.name σ'.database.catalog := by
  have hnext (chunks : List (List PlanRow)) {σ : Session MemoryDatabase}
      (hrun : outcome (chunks.forM (p.stageNext s stg)) σ = (.ok (), σ')) :
      σ.database.catalog.Beside stg.name σ'.database.catalog := by
    induction chunks generalizing σ with
    | nil =>
        obtain ⟨-, rfl⟩ := Prod.mk.inj hrun
        exact fun _ _ _ => rfl
    | cons rows chunks ih =>
        change outcome (p.stageNext s stg rows >>= fun _ => chunks.forM (p.stageNext s stg)) σ = _
          at hrun
        obtain ⟨⟨⟩, σ₁, hrows, hrun⟩ := Action.outcome_bind_eq_ok_iff.1 hrun
        obtain ⟨n, σ₂, happend, hrows⟩ := Action.outcome_bind_eq_ok_iff.1 hrows
        obtain ⟨-, rfl⟩ := Prod.mk.inj hrows
        exact (StagingTable.beside_append (isMade_select p s rows) happend).trans (ih hrun)
  unfold stage at h
  split at h
  · obtain ⟨-, rfl⟩ := Prod.mk.inj h
    exact fun _ _ _ => rfl
  · rename_i rows chunks _
    obtain ⟨n, σ₁, hcreate, hrun⟩ := Action.outcome_bind_eq_ok_iff.1 h
    exact (StagingTable.beside_create (isMade_select p s rows) hcreate).trans (hnext chunks hrun)

/-- A plan that is carried out has rewritten the table that its name means, and nothing else. -/
theorem apply_rewrites {n : Nat} {decoded : List WriteBack} (hclear : s.table.Clear stg.name)
    (hfind : σ.database.catalog.find s.table.allQuoted = .ok (a, t))
    (h : outcome (p.apply s stg) σ = (.ok (n, decoded), σ')) :
    ∃ changesKey values t', Revision.updateAll t changesKey values = .ok (t', n) ∧
      σ.database.catalog.Rewritten stg.name a s.table.allQuoted t' σ'.database.catalog := by
  obtain ⟨σ₁, σ₂, σ₃, hstage, hupdate, hreturned, hdiscard⟩ := apply_run h
  have hsame : σ₃.database = σ₂.database := by
    split at hreturned
    · obtain ⟨rows, hread, -⟩ := hreturned
      exact StagingTable.readBack_keeps hread
    · exact congrArg Session.database hreturned.2
  have hi := Identifier.clear_allQuoted.2 hclear
  have hbeside := beside_stage hstage
  obtain ⟨changesKey, values, t', hrevised, hcatalog⟩ :=
    StagingTable.applyUpdate_reaches ((hbeside.find hi).trans hfind) hupdate
  have hname : t'.name = t.name := by
    obtain ⟨state, -, hrevised⟩ := Except.bind_eq_ok_iff.1 hrevised
    obtain ⟨rfl, -⟩ := Prod.mk.inj (Except.ok.inj hrevised)
    rfl
  obtain ⟨c, hc, hdropped⟩ := StagingTable.discard_ok hdiscard
  rw [hsame, hcatalog] at hdropped
  refine ⟨changesKey, values, t', hrevised, ?_⟩
  rw [hc]
  exact hbeside.rewritten hi hfind hname hdropped

end Plan

variable {ε : Type} [Entity ε] {b : SchemaBuilder} {m : MemoryDatabase} {p : Pool MemoryDatabase}
  {name : String}

/-- The names in the statements of a write reach the table of the entities and the staging table
exactly if the two tables can be told apart; and then updates, patches and deletions change the table
of the entities, and no table but it and the staging table. -/
theorem names_reach_their_tables (hb : b.build = .ok s) (hstate : s.TableState t)
    (hstg : StagingTable.new name = .ok stg)
    (hfind : m.catalog.find s.table.allQuoted = .ok (a, t)) (hp : p.database = some m) :
    (∀ u names, foldName u.name = foldName stg.name → u.Named names →
      s.primaryKey.name ∈ names → ∀ params k,
      (stg.Reaches s names a t u ⟨stg.during m.catalog u, params, k⟩ ↔
        s.table.Clear stg.name ∧ foldName s.table.name ≠ "_staged")) ∧
    (s.table.Clear stg.name → foldName s.table.name ≠ "_staged" →
      (∀ params k, s.Selects a t ⟨m.catalog.drop .temp stg.name, params, k⟩) ∧
      (∀ (sets : List (ChangeSet ε)) batch n p', Pool.update s stg sets p = (batch, p') →
        batch.result = .ok n → (p' = p ∧ n = 0 ∧ ∀ c ∈ sets, c.changes.isEmpty = true) ∨
          ∃ changesKey values t' m', Revision.updateAll t changesKey values = .ok (t', n) ∧
            p'.database = some m' ∧
            m.catalog.Rewritten stg.name a s.table.allQuoted t' m'.catalog) ∧
      (∀ f c returning r p', Condition.AllComplete f.conditions →
        outcome (Pool.patch s stg f c returning) p = (.ok r, p') →
          ∃ m', p'.database = some m' ∧ m.catalog.Rewritten stg.name a s.table.allQuoted
            (c.applyToRows s (f.matched s t (c.bound s)) t) m'.catalog) ∧
      ∀ f d p', Condition.AllComplete f.conditions →
        outcome (Pool.delete s stg f) p = (.ok d, p') →
          ∃ m' rest, p'.database = some m' ∧
            (∀ e, e ∈ rest ↔ e ∈ t.entries ∧ e ∉ f.matched s t #[]) ∧
            m.catalog.Rewritten stg.name a s.table.allQuoted { t with entries := rest }
              m'.catalog) := by
  have hfits := Schema.fits_of_tableState hstate
  have hnul := StagingTable.nul_notMem_of_new hstg
  refine ⟨fun u names hu hn hkey => StagingTable.reaches_iff hfits hu hn hkey hfind,
    fun hclear halias => ⟨fun params k => ?_, ?_, ?_, ?_⟩⟩
  · have hi := Identifier.clear_allQuoted.2 hclear
    exact hfits.selects (((Catalog.dropped_drop ..).find hi).trans hfind)
  · intro sets batch n p' h hok
    obtain ⟨plan, hplan, hplanned⟩ := Pool.update_ok h hok
    rcases hplanned with ⟨hnoop, hn, hsame⟩ | ⟨-, decoded, hrun⟩
    · rw [(Plan.compiled_of_compile hplan).isNoop_eq, List.all_eq_true] at hnoop
      exact .inl ⟨hsame, hn, hnoop⟩
    · obtain ⟨m₁, σ, m', hm₁, hrun, hm', hcatalog⟩ := Pool.transaction_ok hrun
      obtain rfl := Option.some.inj (hp.symm.trans hm₁)
      obtain ⟨changesKey, values, t', hrevised, hrewritten⟩ :=
        Plan.apply_rewrites hclear hfind hrun
      exact .inr ⟨changesKey, values, t', m', hrevised, hm', hcatalog ▸ hrewritten⟩
  · intro f c returning r p' hcomplete h
    obtain ⟨-, m', hm', hrewritten⟩ := Pool.patch_ok
      ⟨⟨b, hb⟩, hstate, Filter.declared_of_patch h, hcomplete⟩ hnul hclear (fun _ => halias)
      hfind hp h
    exact ⟨m', hm', hrewritten⟩
  · intro f d p' hcomplete h
    obtain ⟨-, -, m', rest, hm', -, hrest, hrewritten⟩ := Pool.delete_ok
      ⟨⟨b, hb⟩, hstate, Filter.declared_of_delete h, hcomplete⟩ hnul hclear hfind hp h
    exact ⟨m', rest, hm', hrest, hrewritten⟩

open ThreeRows in
/-- The staged rows and the table of the three are told apart. A staging table of the name `T` would
have hidden the table. -/
theorem names_reach_their_tables_of_three :
    staging.Reaches schema ["id", "x"] .main (table 3 entries) staged
        ⟨staging.during ⟨[table 3 entries], []⟩ staged, #[], 3⟩ ∧
      ¬ StagingTable.Reaches ⟨"T"⟩ schema ["id", "x"] .main (table 3 entries)
        { staged with name := "T" }
        ⟨StagingTable.during ⟨"T"⟩ ⟨[table 3 entries], []⟩ { staged with name := "T" }, #[], 3⟩ ∧
      (∃ changesKey values t' batch p' m',
        Pool.update schema staging [FirstRow.one] pool = (batch, p') ∧
        Revision.updateAll (table 3 entries) changesKey values = .ok (t', 1) ∧
        p'.database = some m' ∧
        Catalog.Rewritten "stage" .main schema.table.allQuoted t'
          ⟨[table 3 entries], []⟩ m'.catalog) ∧
      (∃ p' m', outcome (Pool.patch schema staging below raise ["id"]) pool = (.ok report, p') ∧
        p'.database = some m' ∧
        Catalog.Rewritten "stage" .main schema.table.allQuoted
          (raise.applyToRows schema
            (below.matched schema (table 3 entries) (raise.bound schema)) (table 3 entries))
          ⟨[table 3 entries], []⟩ m'.catalog) ∧
      ∃ p' m' rest, outcome (Pool.delete schema staging falling) pool =
          (.ok ⟨2, [.integer 3, .integer 1]⟩, p') ∧ p'.database = some m' ∧
        (∀ e, e ∈ rest ↔ e ∈ entries ∧ e ∉ falling.matched schema (table 3 entries) #[]) ∧
        Catalog.Rewritten "stage" .main schema.table.allQuoted (table 3 rest)
          ⟨[table 3 entries], []⟩ m'.catalog := by
  have hreach (stg : StagingTable) (u : Table) (name : String)
      (hstg : StagingTable.new name = .ok stg) (hu : foldName u.name = foldName stg.name)
      (hn : u.Named ["id", "x"]) :
      stg.Reaches schema ["id", "x"] .main (table 3 entries) u
          ⟨stg.during ⟨[table 3 entries], []⟩ u, #[], 3⟩ ↔
        schema.table.Clear stg.name ∧ foldName schema.table.name ≠ "_staged" :=
    (names_reach_their_tables (ε := Record) (p := pool) (m := ⟨⟨[table 3 entries], []⟩, none, 3, 3⟩)
      build_builder tableState hstg (by with_unfolding_all rfl) rfl).1 u _ hu hn (by decide) _ _
  have hclear : schema.table.Clear staging.name := by with_unfolding_all decide
  have halias : foldName schema.table.name ≠ "_staged" := by with_unfolding_all decide
  obtain ⟨-, hruns⟩ := names_reach_their_tables (ε := Record) (a := .main)
    (m := ⟨⟨[table 3 entries], []⟩, none, 3, 3⟩) (p := pool) build_builder tableState new_staging
    (by with_unfolding_all rfl) rfl
  obtain ⟨-, hupdate, hpatch, hdelete⟩ := hruns hclear halias
  refine ⟨(hreach staging staged _ new_staging rfl updates.named).2 ⟨hclear, halias⟩, fun h => ?_,
    ?_, ?_, ?_⟩
  · have hnew : StagingTable.new "T" = .ok ⟨"T"⟩ := by with_unfolding_all rfl
    obtain ⟨hshared, -⟩ := (hreach _ { staged with name := "T" } _ hnew rfl
      ⟨updates.named.columns, updates.named.nodup, updates.named.sizes⟩).1 h
    exact absurd hshared (by decide +kernel)
  · obtain ⟨batch, p', hrun, hok⟩ := FirstRow.update_one
    rcases hupdate _ _ _ _ hrun hok with ⟨-, hn, -⟩ | ⟨changesKey, values, t', m', h⟩
    · exact absurd hn (by decide)
    · exact ⟨changesKey, values, t', batch, p', m', hrun, h⟩
  · obtain ⟨p', hrun, -⟩ := patch_raise
    obtain ⟨m', h⟩ := hpatch below _ _ _ p' ⟨trivial, trivial⟩ hrun
    exact ⟨p', m', hrun, h⟩
  · obtain ⟨p', hrun⟩ := delete_falling
    obtain ⟨m', rest, h⟩ := hdelete _ _ p' suits_falling.complete hrun
    exact ⟨p', m', rest, hrun, h⟩

end StagedStore
