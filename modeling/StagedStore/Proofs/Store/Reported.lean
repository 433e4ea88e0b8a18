import StagedStore.Proofs.Keyed
import StagedStore.Proofs.Store.Patched

/-!
# What a patch reports

The staged rows are decoded after the update. A value that is told of a row is the one its field
then holds, as far as the column of the field keeps it: a zero may lose its sign.
-/

namespace StagedStore

open Memory MemoryDatabase Sql

/-! ## Decoded cells -/

/-- Values that are the same, or equal as numbers. -/
def Value.Same (v w : Value) : Prop :=
  v = w ∨ ∃ x y, v = .real x ∧ w = .real y ∧ x.cmp y = .eq

theorem Value.Same.refl (v : Value) : v.Same v :=
  .inl rfl

theorem clampInt64_eq {n : Int} (hmin : Int64.minValue.toInt < n) (hmax : n < Int64.maxValue.toInt) :
    clampInt64 n = .ofInt n := by
  unfold clampInt64
  rw [if_neg (by omega), if_neg (by omega)]

theorem Storage.decode_realToInteger {f : Field} {x : Binary64} {v : Value}
    (hkind : f.kind = .integer) (h : f.decode (.real x) = .ok v) :
    f.decode (Storage.real x).realToInteger = .ok v := by
  cases hx : x.toInt? with
  | none => simpa only [realToInteger, hx] using h
  | some n =>
      simp only [realToInteger, hx]
      split
      · rename_i hrange
        obtain ⟨hmin, hmax⟩ := Bool.and_eq_true_iff.1 hrange
        rw [← h]
        simp only [Field.decode, hkind, hx]
        rw [clampInt64_eq (of_decide_eq_true hmin) (of_decide_eq_true hmax)]
      · exact h

theorem Binary64.cmp_zero {x : Binary64} (hx : x.magnitude = 0) (hfinite : x.isFinite = true) :
    x.cmp (zero false) = .eq := by
  cases x with
  | finite s m e hc =>
      have hunits : (finite s m e hc).units = 0 := by
        have hm : ((m * Nat.pow 2 e : Nat) : Int) = 0 := by exact_mod_cast hx
        cases s
        · exact hm
        · rw [units, hm]
          rfl
      have hzero : (zero false).units = 0 := by
        rw [zero, units, Nat.zero_mul]
        rfl
      unfold cmp zero
      dsimp only
      rw [hunits]
      unfold zero at hzero
      rw [hzero]
      rfl
  | _ => simp [isFinite] at hfinite

/-- A column converts no cell that its field reads but a number that is not of its kind. -/
theorem Field.store_of_decode {f : Field} {u : Storage} {v : Value} (h : f.decode u = .ok v) :
    f.affinity.store u = u ∨
      (f.kind = .integer ∧ f.affinity = .integer ∧ ∃ x, u = .real x) ∨
      (f.kind = .real ∧ f.affinity = .real ∧ ((∃ x, u = .real x) ∨ ∃ n, u = .integer n)) := by
  rw [f.affinity_eq]
  cases hk : f.kind <;> cases u <;> simp only [decode, hk, reduceCtorEq] at h <;>
    first
    | exact .inl rfl
    | exact .inr (.inl ⟨rfl, rfl, _, rfl⟩)
    | exact .inr (.inr ⟨rfl, rfl, .inl ⟨_, rfl⟩⟩)
    | exact .inr (.inr ⟨rfl, rfl, .inr ⟨_, rfl⟩⟩)

/-- What a field reads from a cell, it reads from the cell as its column keeps it. -/
theorem Field.decode_store {f : Field} {u : Storage} {v : Value} (h : f.decode u = .ok v) :
    ∃ w, f.decode (f.affinity.store u) = .ok w ∧ v.Same w := by
  rcases store_of_decode h with hstore | ⟨hk, ha, x, rfl⟩ | ⟨hk, ha, ⟨x, rfl⟩ | ⟨n, rfl⟩⟩
  · exact ⟨v, by rw [hstore, h], .refl v⟩
  · refine ⟨v, ?_, .refl v⟩
    rw [ha]
    exact Storage.decode_realToInteger hk h
  · simp only [decode, hk, Except.ok.injEq] at h
    rw [ha]
    change ∃ w, f.decode (Storage.real x).integerToReal = .ok w ∧ v.Same w
    rw [Storage.integerToReal, ← h]
    split
    · rename_i hzero
      obtain ⟨hmagnitude, hfinite⟩ := Bool.and_eq_true_iff.1 hzero
      refine ⟨.real (.zero false), by simp only [decode, hk], .inr ⟨x, _, rfl, rfl, ?_⟩⟩
      exact Binary64.cmp_zero (of_decide_eq_true hmagnitude) hfinite
    · exact ⟨.real x, by simp only [decode, hk], .refl _⟩
  · refine ⟨v, ?_, .refl v⟩
    rw [ha]
    change f.decode (Storage.real (.ofInt n.toInt)) = .ok v
    simpa only [decode, hk] using h

/-! ## The report -/

/-- A row gives the cells that its columns were taken for. -/
theorem Row.get_map {columns : List String} {g : String → Storage} {n : String}
    (hn : n ∈ columns) : (⟨columns, columns.map g⟩ : Row).get n = .ok (g n) := by
  have hlookup : (columns.zip (columns.map g)).lookup n = some (g n) := by
    induction columns with
    | nil => simp at hn
    | cons c columns ih =>
        rw [List.map_cons, List.zip_cons_cons, List.lookup_cons]
        by_cases hc : n = c
        · simp [hc]
        · rw [beq_eq_false_iff_ne.2 hc]
          exact ih ((List.mem_cons.1 hn).resolve_left hc)
  rw [get, get?, cells, hlookup]

theorem Changes.fieldCell_applyTo {c : Changes} {s : Schema} {t : Table} (h : s.Fits t) {n : String}
    {g : Field} (hg : s.requireField n = .ok g) {e : Entry} (he : e ∈ t.entries) :
    s.fieldCell n (c.applyTo s e) = c.cellAfter g (s.fieldCell n e) := by
  obtain ⟨hi, -⟩ := Schema.getElem?_fieldIndex hg
  have hlt : s.fieldIndex n < e.cells.size := by
    rw [(h.rows e he).size]
    exact (List.getElem?_eq_some_iff.1 hi).1
  unfold Schema.fieldCell
  rw [getElem?_applyTo hi, Array.getElem?_eq_getElem hlt]
  rfl

/-- A value that is told of a field of a row is the one that the field holds after changes. -/
def Changes.Tells (s : Schema) (c : Changes) (n : String) (e : Entry) (v : Value) : Prop :=
  ∃ g w, s.requireField n = .ok g ∧ g.decode (s.fieldCell n (c.applyTo s e)) = .ok w ∧ v.Same w

namespace PatchPlan.Planned

variable {s : Schema} {t : Table} {f : Filter} {c : Changes} {returning : List String}
  {plan : PatchPlan} {cs : List ResultColumn} {os : List Output}

section

variable (h : Planned s f c returning plan cs)

include h

theorem nodup_reported : plan.reported.Nodup := by
  rw [h.reported]
  exact nodup_appendNew returning c.nodup_incremented

theorem mem_reported {n : String} :
    n ∈ plan.reported ↔ n ∈ c.incremented ∨ n ∈ returning := by
  rw [h.reported, mem_appendNew]

theorem mem_stagedNames_of_reported {n : String} (hn : n ∈ plan.reported) :
    n ∈ stagedNames s c returning := by
  rcases h.mem_reported.1 hn with hn | hn
  · obtain ⟨v, hv⟩ := Changes.mem_incremented.1 hn
    exact mem_appendNew.2 (.inl (List.mem_cons_of_mem _ (List.mem_map_of_mem hv)))
  · exact mem_appendNew.2 (.inr hn)

/-- A staged row is decoded as the key of its row and what the reported fields then hold. -/
theorem decodeRow_ok (hfits : s.Fits t)
    (hos : List.Forall₂ (Output.Leaves s t c) (stagedNames s c returning) (s.keyResult :: os))
    {e : Entry} (he : e ∈ t.entries) {d : Value × List Value}
    (hd : plan.decodeRow s ⟨plan.staged, plan.staged.map (namedCell
      ((s.keyResult :: os).map Output.name) (stagedCells (s.keyResult :: os) e))⟩ = .ok d) :
    s.keyOf e = .ok d.1 ∧
      List.Forall₂ (fun n v => c.Tells s n e v) plan.reported d.2 := by
  rw [map_name hos, h.staged] at hd
  obtain ⟨key, hkey, hd⟩ := Except.bind_eq_ok_iff.1 hd
  obtain ⟨values, hvalues, hd⟩ := Except.bind_eq_ok_iff.1 hd
  obtain rfl := Except.ok.inj hd
  have hfirst : s.primaryKey.name ∈ stagedNames s c returning := by
    rw [stagedNames_eq]
    exact List.mem_cons_self
  constructor
  · obtain ⟨v, hv, hkey⟩ := Except.bind_eq_ok_iff.1 hkey
    rw [Row.get_map hfirst, namedCell_key hfits os he] at hv
    rwa [← Except.ok.inj hv] at hkey
  · have htells : ∀ n ∈ plan.reported, ∀ v, (do
        let g ← s.requireField n
        g.decode (← (⟨stagedNames s c returning, (stagedNames s c returning).map (namedCell
          (stagedNames s c returning) (stagedCells (s.keyResult :: os) e))⟩ : Row).get n)) =
            .ok v → c.Tells s n e v := by
      intro n hn v hv
      have hstaged := h.mem_stagedNames_of_reported hn
      obtain ⟨g, hg, hv⟩ := Except.bind_eq_ok_iff.1 hv
      rw [Row.get_map hstaged, Except.ok_bind] at hv
      obtain ⟨w, hw, hsame⟩ := Field.decode_store hv
      rw [h.store_namedCell hos hfits hstaged hg he] at hw
      exact ⟨g, w, hg, by rwa [Changes.fieldCell_applyTo hfits hg he], hsame⟩
    have hall := Except.mapM_eq_ok_iff.1 hvalues
    refine List.forall₂_iff_get.2 ⟨hall.length_eq, fun i hi hi' => ?_⟩
    exact htells _ (List.get_mem ..) _ (hall.get hi hi')

end

end PatchPlan.Planned

/-- What a patch tells: how many rows changed, their keys, and for each field that is told the
values of these rows in the order of the keys. -/
structure Patched.Tells (s : Schema) (c : Changes) (returning : List String) (es : List Entry)
    (r : Patched) : Prop where
  modified : r.modified = if c.isEmpty then 0 else es.length
  keys : es.mapM s.keyOf = .ok r.keys
  names_nodup : (r.returning.map Prod.fst).Nodup
  names : ∀ n, n ∈ r.returning.map Prod.fst ↔ n ∈ c.incremented ∨ n ∈ returning
  values : ∀ n vs, (n, vs) ∈ r.returning → List.Forall₂ (c.Tells s n) es vs

namespace PatchPlan.Planned

variable {s : Schema} {f : Filter} {c : Changes} {returning : List String} {plan : PatchPlan}
  {cs : List ResultColumn}

/-- The decoded rows are told field by field. -/
theorem report_tells (h : Planned s f c returning plan cs) {es : List Entry}
    {rows : List (Value × List Value)} {modified : Nat}
    (hmodified : modified = if c.isEmpty then 0 else es.length)
    (hrows : List.Forall₂ (fun e d => s.keyOf e = .ok d.1 ∧
      List.Forall₂ (fun n v => c.Tells s n e v) plan.reported d.2) es rows) :
    (plan.report modified rows).Tells s c returning es := by
  have hnames : (plan.reported.zipIdx.map fun (x : String × Nat) =>
      (x.1, rows.map fun r => r.2[x.2]?.getD .null)).map Prod.fst = plan.reported := by
    rw [List.map_map]
    exact List.zipIdx_map_fst 0 plan.reported
  have hperm : (plan.report modified rows).returning.Perm
      (plan.reported.zipIdx.map fun (x : String × Nat) =>
        (x.1, rows.map fun r => r.2[x.2]?.getD .null)) :=
    Keyed.ofList_perm (by rw [hnames]; exact h.nodup_reported)
  have hfields := hperm.map Prod.fst
  rw [hnames] at hfields
  refine ⟨hmodified, ?_, hfields.nodup_iff.2 h.nodup_reported, fun n => ?_, fun n vs hin => ?_⟩
  · refine Except.mapM_eq_ok ?_
    change List.Forall₂ _ es (rows.map Prod.fst)
    rw [List.forall₂_map_right_iff]
    exact hrows.imp fun _ _ hd => hd.1
  · rw [hfields.mem_iff, h.mem_reported]
  · obtain ⟨⟨m, i⟩, hi, hpair⟩ := List.mem_map.1 (hperm.subset hin)
    obtain ⟨rfl, rfl⟩ := Prod.mk.inj hpair
    have hget : plan.reported[i]? = some m := List.mem_zipIdx_iff_getElem?.1 hi
    rw [List.forall₂_map_right_iff]
    refine hrows.imp fun e d hd => ?_
    obtain ⟨hlt, hm⟩ := List.getElem?_eq_some_iff.1 hget
    have hlt' : i < d.2.length := hd.2.length_eq ▸ hlt
    have hone := hd.2.get hlt hlt'
    rw [List.get_eq_getElem, List.get_eq_getElem, hm] at hone
    rwa [List.getElem?_eq_getElem hlt', Option.getD_some]

/-- What changes make of the rows that were staged, whether they change a field or not. -/
theorem update_ok (h : Planned s f c returning plan cs) {t u : Table} (hfits : s.Fits t)
    {os : List Output}
    (hos : List.Forall₂ (Output.Leaves s t c) (stagedNames s c returning) (s.keyResult :: os))
    {stg : StagingTable} {a : Area} {es : List Entry} {σ σ' : Session MemoryDatabase} {n : Nat}
    (hu : stg.Filled (s.keyResult :: os) es σ.database.catalog u)
    (hes : ∀ e ∈ es, e ∈ t.entries) (hnodup : es.Nodup)
    (hfind : σ.database.catalog.find s.table.allQuoted = .ok (a, t))
    (halias : c.isEmpty = false → foldName s.table.name ≠ "_staged")
    (hrun : outcome (if plan.touched.isEmpty then pure 0 else stg.applyUpdate s plan.touched) σ =
      (.ok n, σ')) :
    n = (if c.isEmpty then 0 else es.length) ∧
      (σ'.database.catalog = σ.database.catalog ∧ c.isEmpty = true ∨
        σ'.database.catalog = σ.database.catalog.replace a (c.applyToRows s es t)) := by
  have htouched : plan.touched.isEmpty = c.isEmpty := by
    rw [h.touched, List.isEmpty_map]
    rfl
  rw [htouched] at hrun
  cases hempty : c.isEmpty with
  | true =>
      rw [hempty] at hrun
      obtain ⟨hn, rfl⟩ := Prod.mk.inj hrun
      exact ⟨(Except.ok.inj hn).symm, .inl ⟨rfl, rfl⟩⟩
  | false =>
      rw [hempty] at hrun
      obtain ⟨hn, hdb⟩ := h.applyUpdate_ok hfits hos hu hes hnodup hfind (halias hempty) hrun
      exact ⟨hn, .inr (by rw [hdb])⟩

end PatchPlan.Planned

/-! ## The operation -/

theorem PatchPlan.apply_eq {σ : Type} [Connection σ] (p : PatchPlan) (s : Schema)
    (stg : StagingTable) : p.apply (σ := σ) s stg = do
      let _ ← stg.create (.select p.query) p.params
      let modified ← (if p.touched.isEmpty then pure 0 else stg.applyUpdate s p.touched : Action σ Nat)
      let rows ← stg.readBack p.staged
      stg.discard
      return p.report modified (← Action.ofExcept (rows.mapM (p.decodeRow s))) := by
  unfold apply
  split <;> rfl

section Operation

variable {s : Schema} {t : Table} {f : Filter} {c : Changes} {returning : List String}
  {plan : PatchPlan} {cs : List ResultColumn} {stg : StagingTable} {a : Area}
  {σ σ' : Session MemoryDatabase} {r : Patched}

/-- A patch that is carried out has staged the rows of its query, has updated the table from them if it
changes a field, has read them back and has dropped them. -/
theorem PatchPlan.apply_run (h : outcome (plan.apply s stg) σ = (.ok r, σ')) :
    ∃ n modified rows decoded σ₁ σ₂ σ₃,
      outcome (stg.create (.select plan.query) plan.params) σ = (.ok n, σ₁) ∧
      outcome (if plan.touched.isEmpty then pure 0 else stg.applyUpdate s plan.touched) σ₁ =
        (.ok modified, σ₂) ∧
      outcome (stg.readBack plan.staged) σ₂ = (.ok rows, σ₃) ∧
      outcome stg.discard σ₃ = (.ok (), σ') ∧
      rows.mapM (plan.decodeRow s) = .ok decoded ∧ r = plan.report modified decoded := by
  rw [apply_eq] at h
  obtain ⟨n, σ₁, hcreate, h₁⟩ := Action.outcome_bind_eq_ok_iff.1 h
  obtain ⟨modified, σ₂, hupdate, h₂⟩ := Action.outcome_bind_eq_ok_iff.1 h₁
  obtain ⟨rows, σ₃, hread, h₃⟩ := Action.outcome_bind_eq_ok_iff.1 h₂
  obtain ⟨⟨⟩, σ₄, hdiscard, h₄⟩ := Action.outcome_bind_eq_ok_iff.1 h₃
  obtain ⟨decoded, σ₅, hdecode, hlast⟩ := Action.outcome_bind_eq_ok_iff.1 h₄
  obtain ⟨hdecoded, rfl⟩ := Session.ofExcept_ok hdecode
  obtain ⟨hr, rfl⟩ := Prod.mk.inj hlast
  exact ⟨n, modified, rows, decoded, σ₁, σ₂, σ₃, hcreate, hupdate, hread, hdiscard, hdecoded,
    (Except.ok.inj hr).symm⟩

/-- The query of a plan fills the staging table with what it takes of the rows that the filter
matches. -/
theorem PatchPlan.Planned.create_filled (hplan : Planned s f c returning plan cs) (hf : f.Suits s t)
    (hnul : '\x00' ∉ stg.name.toList) (hclear : s.table.Clear stg.name)
    (hfind : σ.database.catalog.find s.table.allQuoted = .ok (a, t)) {n : UInt64}
    (h : outcome (stg.create (.select plan.query) plan.params) σ = (.ok n, σ')) :
    ∃ os cat u, List.Forall₂ (Output.Leaves s t c) (stagedNames s c returning) (s.keyResult :: os) ∧
      σ.database.catalog.Dropped stg.name cat ∧ u.name = stg.name ∧
      σ'.database = { σ.database with catalog := cat.add .temp u } ∧
      stg.Filled (s.keyResult :: os) (f.matched s t (c.bound s)) σ'.database.catalog u ∧
      σ'.database.catalog.find s.table.allQuoted = .ok (a, t) := by
  have hfits := Schema.fits_of_tableState hf.state
  obtain ⟨css, hcs⟩ := hplan.exists_takes
  obtain ⟨os, hos, houtputs⟩ := hplan.exists_outputs hfits
  rw [hplan.query, hplan.params] at h
  obtain ⟨cat, u, hfilled⟩ := StagingTable.create_filled hf hcs hnul hclear hfind
    (fun r results hslots hparams hresults => by
      rw [← hplan.params] at hparams
      rw [← Except.ok.inj ((houtputs r hslots hparams).symm.trans hresults)]
      exact List.flatMap_singleton' _) (hplan.nodup_foldName hos hfits) h
  exact ⟨os, cat, u, hos, hfilled⟩

/-- The rows that a filter matches are changed, and what was staged for them is decoded. -/
theorem PatchPlan.apply_decoded (hplan : Planned s f c returning plan cs) (hf : f.Suits s t)
    (hnul : '\x00' ∉ stg.name.toList) (hclear : s.table.Clear stg.name)
    (halias : c.isEmpty = false → foldName s.table.name ≠ "_staged")
    (hfind : σ.database.catalog.find s.table.allQuoted = .ok (a, t))
    (h : outcome (plan.apply s stg) σ = (.ok r, σ')) :
    (∃ os es decoded, List.Forall₂ (Output.Leaves s t c) (stagedNames s c returning)
        (s.keyResult :: os) ∧
      Recalled (stagedNames s c returning) (f.matched s t (c.bound s)) es ∧
      List.Forall₂ (fun e d => plan.decodeRow s ⟨plan.staged, plan.staged.map (namedCell
        ((s.keyResult :: os).map Output.name) (stagedCells (s.keyResult :: os) e))⟩ = .ok d)
        es decoded ∧
      r = plan.report (if c.isEmpty then 0 else es.length) decoded) ∧
    σ.database.catalog.Rewritten stg.name a s.table.allQuoted
      (c.applyToRows s (f.matched s t (c.bound s)) t) σ'.database.catalog := by
  have hfits := Schema.fits_of_tableState hf.state
  have hmatched : ∀ e ∈ f.matched s t (c.bound s), e ∈ t.entries := fun e he =>
    (Filter.mem_of_matched he).1
  obtain ⟨n, modified, rows, decoded, σ₁, σ₂, σ₃, hcreate, hupdate, hread, hdiscard, hdecoded,
    rfl⟩ := apply_run h
  obtain ⟨os, cat, u, hos, hdropped, hu, hdb₁, hfilled, horigin⟩ :=
    hplan.create_filled hf hnul hclear hfind hcreate
  have hfold := hplan.nodup_foldName hos hfits
  obtain ⟨rfl, hcatalog⟩ := hplan.update_ok hfits hos hfilled hmatched (f.nodup_matched hfits _)
    horigin halias hupdate
  have hi := Identifier.clear_allQuoted.2 hclear
  have htable := Catalog.other_of_clear hi hfind
  have hfilled₂ : stg.Filled (s.keyResult :: os) (f.matched s t (c.bound s))
      σ₂.database.catalog u := by
    rcases hcatalog with ⟨hsame, -⟩ | hreplaced
    · rwa [hsame]
    · rw [hreplaced]
      exact hfilled.replace htable
  obtain ⟨hdb₃, es, hes, rfl⟩ := StagingTable.readBack_ok hfilled₂ hfold (by
    rw [hplan.staged, Planned.map_name hos]
    exact fun _ h => h) hread
  rw [Planned.map_name hos] at hes
  refine ⟨⟨os, es, decoded, hos, hes, ?_, by rw [hes.perm.length_eq]⟩, ?_⟩
  · have hall := Except.mapM_eq_ok_iff.1 hdecoded
    rwa [List.forall₂_map_left_iff] at hall
  obtain ⟨cat', hdb₄, hdropped'⟩ := StagingTable.discard_ok hdiscard
  rw [hdb₄]
  rw [hdb₃] at hdropped'
  have hbeside := hdropped.beside.trans (Catalog.beside_add (congrArg foldName hu))
  rcases hcatalog with ⟨hsame, hempty⟩ | hreplaced
  · rw [hsame, hdb₁] at hdropped'
    rw [Changes.applyToRows_of_isEmpty hempty]
    exact hbeside.rewritten_same hi hfind hdropped'
  · rw [hreplaced, hdb₁] at hdropped'
    exact hbeside.rewritten hi hfind rfl hdropped'

/-- The rows that a filter matches are changed, and the report tells them. -/
theorem PatchPlan.apply_ok (hplan : Planned s f c returning plan cs) (hf : f.Suits s t)
    (hnul : '\x00' ∉ stg.name.toList) (hclear : s.table.Clear stg.name)
    (halias : c.isEmpty = false → foldName s.table.name ≠ "_staged")
    (hfind : σ.database.catalog.find s.table.allQuoted = .ok (a, t))
    (h : outcome (plan.apply s stg) σ = (.ok r, σ')) :
    (∃ es : List Entry, Recalled (stagedNames s c returning) (f.matched s t (c.bound s)) es ∧
        r.Tells s c returning es) ∧
      σ.database.catalog.Rewritten stg.name a s.table.allQuoted
        (c.applyToRows s (f.matched s t (c.bound s)) t) σ'.database.catalog := by
  obtain ⟨⟨os, es, decoded, hos, hes, hdecoded, rfl⟩, hrewritten⟩ :=
    apply_decoded hplan hf hnul hclear halias hfind h
  refine ⟨⟨es, hes, hplan.report_tells rfl ?_⟩, hrewritten⟩
  refine List.forall₂_iff_get.2 ⟨hdecoded.length_eq, fun i hi hi' => ?_⟩
  exact hplan.decodeRow_ok (Schema.fits_of_tableState hf.state) hos
    (Filter.mem_of_matched (hes.perm.subset (List.get_mem ..))).1 (hdecoded.get hi hi')

end Operation

namespace Pool

variable {s : Schema} {t : Table} {f : Filter} {c : Changes} {returning : List String} {a : Area}
  {m : MemoryDatabase} {p p' : Pool MemoryDatabase} {stg : StagingTable}

/-- A patch that succeeds has carried its plan out. -/
theorem patch_run {r : Patched} (hp : p.database = some m)
    (h : outcome (Pool.patch s stg f c returning) p = (.ok r, p')) :
    ∃ (plan : PatchPlan) (cs : List ResultColumn) (σ σ' : Session MemoryDatabase)
      (m' : MemoryDatabase), PatchPlan.Planned s f c returning plan cs ∧
      σ.database.catalog = m.catalog ∧ outcome (plan.apply s stg) σ = (.ok r, σ') ∧
      p'.database = some m' ∧ m'.catalog = σ'.database.catalog := by
  obtain ⟨plan, p₁, hcompile, h⟩ := Action.outcome_bind_eq_ok_iff.1 h
  obtain ⟨hcompiled, rfl⟩ := Prod.mk.inj hcompile
  obtain ⟨cs, hplan⟩ := PatchPlan.planned_of_compile hcompiled
  obtain ⟨r', p₂, hlease, h⟩ := Action.outcome_bind_eq_ok_iff.1 h
  obtain ⟨⟨⟩, p₃, hreport, h⟩ := Action.outcome_bind_eq_ok_iff.1 h
  obtain ⟨hr, rfl⟩ := Prod.mk.inj h
  obtain rfl := Except.ok.inj hr
  obtain ⟨m₁, σ, m', hm, hrun, hm', hcatalog⟩ := withLease_ok hlease
  obtain rfl : m = m₁ := Option.some.inj (hp.symm.trans hm)
  obtain ⟨-, rfl⟩ := Prod.mk.inj hreport
  exact ⟨plan, cs, _, σ, m', hplan, rfl, hrun, hm', hcatalog⟩

/-- The rows that a filter matches are changed, and told as they are read back. -/
theorem patch_recalled {r : Patched} (hf : f.Suits s t) (hnul : '\x00' ∉ stg.name.toList)
    (hclear : s.table.Clear stg.name)
    (halias : c.isEmpty = false → foldName s.table.name ≠ "_staged")
    (hfind : m.catalog.find s.table.allQuoted = .ok (a, t)) (hp : p.database = some m)
    (h : outcome (Pool.patch s stg f c returning) p = (.ok r, p')) :
    (∃ es : List Entry, Recalled (PatchPlan.stagedNames s c returning) (f.matched s t (c.bound s)) es ∧
        r.Tells s c returning es) ∧
      ∃ m', p'.database = some m' ∧ m.catalog.Rewritten stg.name a s.table.allQuoted
        (c.applyToRows s (f.matched s t (c.bound s)) t) m'.catalog := by
  obtain ⟨plan, cs, σ, σ', m', hplan, hcatalog, hrun, hm', hcatalog'⟩ := patch_run hp h
  rw [← hcatalog] at hfind
  obtain ⟨htells, hrewritten⟩ := PatchPlan.apply_ok hplan hf hnul hclear halias hfind hrun
  exact ⟨htells, m', hm', hcatalog' ▸ hcatalog ▸ hrewritten⟩

theorem patch_ok {r : Patched} (hf : f.Suits s t) (hnul : '\x00' ∉ stg.name.toList)
    (hclear : s.table.Clear stg.name)
    (halias : c.isEmpty = false → foldName s.table.name ≠ "_staged")
    (hfind : m.catalog.find s.table.allQuoted = .ok (a, t)) (hp : p.database = some m)
    (h : outcome (Pool.patch s stg f c returning) p = (.ok r, p')) :
    (∃ es : List Entry, es.Perm (f.matched s t (c.bound s)) ∧ r.Tells s c returning es) ∧
      ∃ m', p'.database = some m' ∧ m.catalog.Rewritten stg.name a s.table.allQuoted
        (c.applyToRows s (f.matched s t (c.bound s)) t) m'.catalog := by
  obtain ⟨⟨es, hes, htells⟩, hrest⟩ := patch_recalled hf hnul hclear halias hfind hp h
  exact ⟨⟨es, hes.perm, htells⟩, hrest⟩

end Pool

end StagedStore
