import StagedStore.Proofs.Schema.Keys
import StagedStore.Proofs.Staging.Assigned
import StagedStore.Proofs.Staging.ReadBack
import StagedStore.Proofs.Store.Delete
import StagedStore.Proofs.Store.Planned

/-!
# Patching what a filter matches

The staged row of a row that the filter matches has the row's key and the new values of its fields.
The update gives them to the row with this key, and the report tells them as they are decoded.
-/

namespace StagedStore

open Memory MemoryDatabase Sql

/-! ## New values -/

theorem Binary64.add_nan (x : Binary64) : x + .nan = .nan := by
  cases x <;> rfl

theorem Storage.add_nan (a : Storage) : a.add (.real .nan) = .null := by
  unfold add
  cases a.addend with
  | null => rfl
  | _ =>
      change ofReal (_ + Binary64.nan) = _
      rw [Binary64.add_nan]
      rfl

theorem Storage.add_null (a : Storage) : a.add .null = .null := by
  unfold add
  cases a.addend <;> rfl

/-- A sum with a number that is none is null, as one with null is. -/
theorem Storage.add_bound (a b : Storage) : a.add b.bound = a.add b := by
  by_cases h : b = .real .nan
  · rw [h, add_nan]
    exact a.add_null
  · have hsame : b.bound = b := by
      unfold bound
      split
      · exact absurd rfl h
      · rfl
    rw [hsame]

/-- The cell that a delta stages for a field. -/
def Delta.stagedCell (f : Field) (old : Storage) : Delta → Storage
  | .set v => ((f.encode v).toOption.getD .null).bound
  | .unset => .null
  | .increment a => old.add ((f.encode a).toOption.getD .null)

/-- The column of a field keeps a staged cell as the delta leaves it. -/
theorem Delta.store_stagedCell (f : Field) (old : Storage) (d : Delta) :
    f.affinity.store (d.stagedCell f old) = d.cellAfter f old := by
  have hnull : f.affinity.store .null = .null := by cases f.affinity <;> rfl
  cases d with
  | set v =>
      rw [stagedCell, cellAfter]
      cases hw : f.encode v with
      | error e => exact hnull
      | ok w => exact Field.store_encode hw
  | increment a => rfl
  | unset => exact hnull

/-- What a delta gives as a result of a query on the table. -/
structure Memory.Output.Gives (s : Schema) (d : String × Delta) (o : Output) : Prop where
  name : o.name = d.1
  affinity : o.affinity = .none
  cell : ∀ f, s.requireField d.1 = .ok f → ∀ e,
    o.term.eval (Table.rowOf e) = d.2.stagedCell f (s.fieldCell d.1 e)

/-- The columns of new values give them. -/
theorem Assigns.exists_outputs {s : Schema} {t : Table} {p q r : Params}
    {ds : List (String × Delta)} {cs : List ResultColumn} (h : s.Fits t) (hd : Assigns s p ds cs q)
    (hq : q.Extends r) :
    ∃ os, List.Forall₂ (Output.Gives s) ds os ∧ ∀ x : Resolver, x.slots = t.slots t.name →
      x.params = r → cs.mapM (outputs x) = .ok (os.map fun o => [o]) := by
  induction hd with
  | nil p => exact ⟨[], .nil, fun _ _ _ => rfl⟩
  | @set p q n f v w ds cs hf hw hd ih =>
      obtain ⟨os, hos, hrun⟩ := ih hq
      have hv : paramValue r (p.size + 1) = w.bound := by
        have hw := hq p.size w (hd.params_extends p.size w (by simp))
        rw [paramValue, Nat.add_sub_cancel, hw, Option.getD_some]
      refine ⟨⟨n, .cell w.bound, .none⟩ :: os, .cons ⟨rfl, rfl, fun g hg e => ?_⟩ hos, ?_⟩
      · obtain rfl := Except.ok.inj (hf.symm.trans hg)
        rw [Term.eval, Delta.stagedCell, hw]
        rfl
      · intro x hx hparams
        rw [List.mapM_cons, outputs_labelled (Resolver.resolve_param hparams hv), Except.ok_bind,
          hrun x hx hparams]
        rfl
  | @unset p q n f ds cs hf hd ih =>
      obtain ⟨os, hos, hrun⟩ := ih hq
      refine ⟨⟨n, .cell .null, .none⟩ :: os, .cons ⟨rfl, rfl, fun g hg e => rfl⟩ hos, ?_⟩
      · intro x hx hparams
        rw [List.mapM_cons, hrun x hx hparams]
        rfl
  | @increment p q n f v w ds cs hf hw hd ih =>
      obtain ⟨os, hos, hrun⟩ := ih hq
      have hv : paramValue r (p.size + 1) = w.bound := by
        have hw := hq p.size w (hd.params_extends p.size w (by simp))
        rw [paramValue, Nat.add_sub_cancel, hw, Option.getD_some]
      refine ⟨⟨n, .add (.slot (1 + s.fieldIndex n)) (.cell w.bound), .none⟩ :: os,
        .cons ⟨rfl, rfl, fun g hg e => ?_⟩ hos, ?_⟩
      · obtain rfl := Except.ok.inj (hf.symm.trans hg)
        rw [Term.eval, s.eval_slot, Term.eval, Storage.add_bound, Delta.stagedCell, hw]
        rfl
      · intro x hx hparams
        have hsum : x.resolve (.add (.ofName n) (.param (some (p.size + 1)))) =
            .ok ⟨.add (.slot (1 + s.fieldIndex n)) (.cell w.bound), .none⟩ := by
          rw [Resolver.resolve, h.resolve_ofName hf hx, Except.ok_bind,
            Resolver.resolve_param hparams hv]
          rfl
        rw [List.mapM_cons, outputs_labelled hsum, Except.ok_bind, hrun x hx hparams]
        rfl

/-- A result whose staged cells a field keeps as changes leave them. -/
structure Memory.Output.Leaves (s : Schema) (t : Table) (c : Changes) (n : String) (o : Output) :
    Prop where
  name : o.name = n
  cell : ∀ f, s.requireField n = .ok f → ∀ e ∈ t.entries,
    f.affinity.store ((storedAffinity o.affinity).store (o.term.eval (Table.rowOf e))) =
      c.cellAfter f (s.fieldCell n e)
  /-- A changed field is staged as it is computed. -/
  staged : ∀ d, c.get? n = some d → ∀ f, s.requireField n = .ok f → ∀ e,
    (storedAffinity o.affinity).store (o.term.eval (Table.rowOf e)) =
      d.stagedCell f (s.fieldCell n e)

section Leaves

variable {s : Schema} {t : Table} {c : Changes}

theorem Memory.Output.Gives.leaves {d : String × Delta} {o : Output} (h : o.Gives s d)
    (hd : d ∈ c.entries) : o.Leaves s t c d.1 where
  name := h.name
  cell f hf e _ := by
    obtain ⟨-, hname⟩ := Schema.getElem?_fieldIndex hf
    rw [h.affinity, Changes.cellAfter, hname, Changes.get?_of_mem hd]
    exact (congrArg f.affinity.store (h.cell f hf e)).trans (d.2.store_stagedCell f _)
  staged d' hd' f hf e := by
    obtain rfl := Option.some.inj ((Changes.get?_of_mem hd).symm.trans hd')
    rw [h.affinity]
    exact h.cell f hf e

/-- The field of a name as a result. -/
def Schema.fieldResult (s : Schema) (n : String) : Output :=
  ⟨n, .slot (1 + s.fieldIndex n), s.fieldAffinity n⟩

theorem Schema.fieldResult_eq {n : String} {f : Field} (h : s.requireField n = .ok f) :
    s.fieldResult n = ⟨n, .slot (1 + s.fieldIndex n), f.affinity⟩ := by
  rw [fieldResult, fieldAffinity_eq h]

theorem Schema.keyResult_eq (s : Schema) : s.keyResult = s.fieldResult s.primaryKey.name := by
  rw [fieldResult_eq (requireField_eq s.getElem?_keyIndex), fieldIndex_primaryKey]
  rfl

/-- A field that does not change is staged as it is. -/
theorem Schema.Fits.leaves_fieldResult (h : s.Fits t) {n : String} {g : Field}
    (hg : s.requireField n = .ok g) (hn : c.get? n = none) :
    (s.fieldResult n).Leaves s t c n where
  name := rfl
  cell f hf e he := by
    obtain rfl := Except.ok.inj (hg.symm.trans hf)
    obtain ⟨hi, hname⟩ := Schema.getElem?_fieldIndex hg
    have hstored : g.affinity.store (s.fieldCell n e) = s.fieldCell n e :=
      (h.rows e he).stored _ g hi
    rw [fieldResult_eq hg]
    dsimp only
    rw [s.eval_slot, storedAffinity_field, hstored, hstored, Changes.cellAfter, hname, hn]
  staged d hd := by
    rw [hn] at hd
    cases hd

theorem Schema.Fits.outputs_ofName (h : s.Fits t) {n : String} {g : Field}
    (hg : s.requireField n = .ok g) {r : Resolver} (hslots : r.slots = t.slots t.name) :
    outputs r (.expr (.ofName n) none) = .ok [s.fieldResult n] := by
  obtain ⟨hi, rfl⟩ := Schema.getElem?_fieldIndex hg
  rw [fieldResult_eq hg]
  refine Table.outputs_ofName (c := g.toColumn) hslots h.columns_nodup ?_
  rw [h.columns, List.getElem?_map, hi, Option.map_some]

theorem Schema.Fits.outputs_labelled (h : s.Fits t) {n : String} {g : Field}
    (hg : s.requireField n = .ok g) {r : Resolver} (hslots : r.slots = t.slots t.name) :
    outputs r (.expr (.ofName n) (some (.quoted n))) = .ok [s.fieldResult n] := by
  rw [Memory.outputs_labelled (h.resolve_ofName hg hslots)]
  rfl

end Leaves

theorem Filter.extends_build (f : Filter) (p : Params) : p.Extends (f.build p).2 :=
  (Condition.binds_leaves (P := fun _ => True) (fun _ _ => trivial) (.all f.conditions)
    (fun _ _ => trivial) p).1

namespace PatchPlan.Planned

variable {s : Schema} {t : Table} {f : Filter} {c : Changes} {returning : List String}
  {plan : PatchPlan} {cs : List ResultColumn} (h : Planned s f c returning plan cs)

include h

theorem get?_key : c.get? s.primaryKey.name = none :=
  Changes.get?_eq_none h.key_notMem

theorem get?_further {n : String} (hn : n ∈ furtherNames s c returning) : c.get? n = none := by
  have hnodup := h.nodup_stagedNames
  rw [stagedNames_eq] at hnodup
  obtain ⟨-, -, hdisjoint⟩ := List.nodup_append.1 (List.nodup_cons.1 hnodup).2
  exact Changes.get?_eq_none fun hin => hdisjoint n hin n hn rfl

/-- The columns of the query of a patch are results that leave each staged field as changes do. -/
theorem exists_outputs (hfits : s.Fits t) :
    ∃ os, List.Forall₂ (Output.Leaves s t c) (stagedNames s c returning) (s.keyResult :: os) ∧
      ∀ r : Resolver, r.slots = t.slots t.name → r.params = plan.params →
        (selected s c returning cs).mapM (outputs r) =
          .ok ((s.keyResult :: os).map fun o => [o]) := by
  have hkey := Schema.requireField_eq s.getElem?_keyIndex
  have hextends : (c.bound s).Extends plan.params := h.params ▸ f.extends_build _
  obtain ⟨os, hos, hrun⟩ := h.assigns.exists_outputs hfits hextends
  have hfurther : ∀ n ∈ furtherNames s c returning, ∃ g, s.requireField n = .ok g :=
    fun n hn => h.declared (mem_stagedNames hn)
  refine ⟨os ++ (furtherNames s c returning).map s.fieldResult, ?_, fun r hslots hparams => ?_⟩
  · rw [stagedNames_eq, s.keyResult_eq]
    refine .cons (hfits.leaves_fieldResult hkey h.get?_key) (List.rel_append ?_ ?_)
    · rw [List.forall₂_map_left_iff]
      refine List.forall₂_iff_get.2 ⟨hos.length_eq, fun i hi hi' => ?_⟩
      exact (hos.get hi hi').leaves (List.getElem_mem hi)
    · rw [List.forall₂_map_right_iff, List.forall₂_same]
      exact fun n hn => (hfurther n hn).elim fun g hg =>
        hfits.leaves_fieldResult hg (h.get?_further hn)
  · refine Except.mapM_eq_ok ?_
    rw [s.keyResult_eq, List.map_cons, List.map_append, List.map_map]
    refine .cons (hfits.outputs_ofName hkey hslots) (List.rel_append ?_ ?_)
    · exact Except.mapM_eq_ok_iff.1 (hrun r hslots hparams)
    · rw [List.forall₂_map_left_iff, List.forall₂_map_right_iff, List.forall₂_same]
      exact fun n hn => (hfurther n hn).elim fun g hg => hfits.outputs_labelled hg hslots

end PatchPlan.Planned

/-! ## The rows that change -/

/-- A table after changes to some of its rows. -/
def Changes.applyToRows (c : Changes) (s : Schema) (es : List Entry) (t : Table) : Table :=
  { t with entries := t.entries.map fun e => if e ∈ es then c.applyTo s e else e }

theorem Changes.applyToRows_of_isEmpty {c : Changes} {s : Schema} {es : List Entry} {t : Table}
    (h : c.isEmpty = true) : c.applyToRows s es t = t := by
  have hid : (fun e => if e ∈ es then c.applyTo s e else e) = id := by
    funext e
    rw [applyTo_of_isEmpty h, ite_self]
    rfl
  rw [applyToRows, hid, List.map_id]

namespace StagingTable

variable {stg : StagingTable} {s : Schema} {t u : Table} {a : Area} {es : List Entry} {c : Changes}
  {os : List Output} {names fields : List String} {σ σ' : Session MemoryDatabase}

/-- A row is found equal in its key to a staged row only if it is the row that was staged. -/
theorem meets_staged (h : s.Fits t) {key : Column} (hkey : key.affinity = s.primaryKey.affinity)
    {row : Array Storage} {e e' : Entry} (he : e ∈ t.entries) (he' : e' ∈ t.entries)
    (hrow : namedCell names row s.primaryKey.name = s.keyCell e') :
    meets s names key row e = true ↔ e = e' := by
  have hcompares := (s.primaryKey.affinity.compares_forComparison (.inr (.inr rfl))).1
  have hsame {e : Entry} (he : e ∈ t.entries) := h.forMember_keyCell he hcompares
  unfold meets
  rw [hrow, hkey]
  constructor
  · intro hholds
    exact h.eq_of_normal_key he he' (Storage.normal_eq_of_holds (hsame he) (hsame he') hholds)
  · rintro rfl
    exact Storage.holds_compareBy_self (hsame he) (Schema.keyCell_not_null (h.rows e he))

end StagingTable

namespace PatchPlan.Planned

variable {s : Schema} {t u : Table} {f : Filter} {c : Changes} {returning : List String}
  {plan : PatchPlan} {cs : List ResultColumn} {os : List Output}

theorem map_name (hos : List.Forall₂ (Output.Leaves s t c) (stagedNames s c returning) os) :
    os.map Output.name = stagedNames s c returning := by
  rw [← List.forall₂_eq_eq_eq, List.forall₂_map_left_iff]
  exact hos.flip.imp fun _ _ ho => ho.name

section

variable (h : Planned s f c returning plan cs)
  (hos : List.Forall₂ (Output.Leaves s t c) (stagedNames s c returning) os)

include h hos

theorem nodup_foldName (hfits : s.Fits t) : (os.map fun o => foldName o.name).Nodup := by
  have hnames : (os.map Output.name).map foldName = os.map fun o => foldName o.name := by
    rw [List.map_map]
    rfl
  rw [← hnames, map_name hos]
  refine List.Nodup.map_on (fun m hm n hn he => ?_) h.nodup_stagedNames
  obtain ⟨g, hg⟩ := h.declared hm
  obtain ⟨k, hk⟩ := h.declared hn
  exact hfits.foldName_inj hg hk he

/-- A staged cell is that of a result. -/
theorem exists_namedCell (hfits : s.Fits t) {n : String} (hn : n ∈ stagedNames s c returning)
    (e : Entry) : ∃ o, Output.Leaves s t c n o ∧
      namedCell (stagedNames s c returning) (stagedCells os e) n =
        (storedAffinity o.affinity).store (o.term.eval (Table.rowOf e)) := by
  obtain ⟨i, hi, rfl⟩ := List.getElem_of_mem hn
  have hi' : i < os.length := hos.length_eq ▸ hi
  have hleaves := hos.get hi hi'
  have hcell := StagingTable.namedCell_staged (h.nodup_foldName hos hfits)
    (List.getElem_mem hi') e
  rw [map_name hos] at hcell
  have hname : os[i].name = (stagedNames s c returning)[i] := hleaves.name
  rw [hname] at hcell
  exact ⟨os[i], hleaves, hcell⟩

/-- The staged cell of a field is the field's after the changes, as its column keeps it. -/
theorem store_namedCell (hfits : s.Fits t) {n : String} (hn : n ∈ stagedNames s c returning)
    {g : Field} (hg : s.requireField n = .ok g) {e : Entry} (he : e ∈ t.entries) :
    g.affinity.store (namedCell (stagedNames s c returning) (stagedCells os e) n) =
      c.cellAfter g (s.fieldCell n e) := by
  obtain ⟨o, hleaves, hcell⟩ := h.exists_namedCell hos hfits hn e
  rw [hcell]
  exact hleaves.cell g hg e he

/-- The staged cell of a field that changes. -/
theorem namedCell_changed (hfits : s.Fits t) {d : String × Delta} (hd : d ∈ c.entries)
    {g : Field} (hg : s.requireField d.1 = .ok g) (e : Entry) :
    namedCell (stagedNames s c returning) (stagedCells os e) d.1 =
      d.2.stagedCell g (s.fieldCell d.1 e) := by
  have hn : d.1 ∈ stagedNames s c returning :=
    mem_appendNew.2 (.inl (List.mem_cons_of_mem _ (List.mem_map_of_mem hd)))
  obtain ⟨o, hleaves, hcell⟩ := h.exists_namedCell hos hfits hn e
  rw [hcell]
  exact hleaves.staged d.2 (Changes.get?_of_mem hd) g hg e

end

theorem idxOf_key : (stagedNames s c returning).idxOf s.primaryKey.name = 0 := by
  rw [stagedNames_eq, List.idxOf_cons_self]

theorem namedCell_key (hfits : s.Fits t) (os : List Output) {e : Entry} (he : e ∈ t.entries) :
    namedCell (stagedNames s c returning) (stagedCells (s.keyResult :: os) e) s.primaryKey.name =
      s.keyCell e := by
  have hone := hfits.stagedCells_key he
  unfold namedCell
  rw [idxOf_key]
  simp only [stagedCells, List.map_cons, List.map_nil] at hone ⊢
  simpa using hone

/-- The staged row of a row, if it is among those that were staged. -/
def stagedRow? (os : List Output) (es : List Entry) (e : Entry) : Option (Array Storage) :=
  if e ∈ es then some (stagedCells os e) else none

theorem stagedRow?_eq_some (hfits : s.Fits t) {stg : StagingTable} {es : List Entry} {cat : Catalog}
    (hu : stg.Filled (s.keyResult :: os) es cat u) (hes : ∀ e ∈ es, e ∈ t.entries) {e : Entry}
    (he : e ∈ t.entries) (row : Array Storage) :
    stagedRow? (s.keyResult :: os) es e = some row ↔ row ∈ u.cells ∧
      StagingTable.meets s (stagedNames s c returning)
        ⟨s.primaryKey.name, s.primaryKey.affinity, false⟩ row e = true := by
  have hstaged : row ∈ u.cells ↔ ∃ e' ∈ es, stagedCells (s.keyResult :: os) e' = row := by
    rw [hu.cells.mem_iff, List.mem_map]
  rw [hstaged]
  constructor
  · intro hrow
    obtain ⟨hin, hcells⟩ := Option.ite_none_right_eq_some.1 hrow
    obtain rfl := Option.some.inj hcells
    exact ⟨⟨e, hin, rfl⟩, (StagingTable.meets_staged hfits rfl he he
      (namedCell_key hfits os he)).2 rfl⟩
  · rintro ⟨⟨e', hin, rfl⟩, hmeets⟩
    obtain rfl := (StagingTable.meets_staged hfits rfl he (hes e' hin)
      (namedCell_key hfits os (hes e' hin))).1 hmeets
    exact if_pos hin

theorem countP_stagedRow? (hfits : s.Fits t) (os : List Output) {es : List Entry}
    (hes : ∀ e ∈ es, e ∈ t.entries) (hnodup : es.Nodup) :
    (t.entries.countP fun e => (stagedRow? os es e).isSome) = es.length := by
  have hfilter : (t.entries.filter fun e => (stagedRow? os es e).isSome).Perm es := by
    rw [List.perm_ext_iff_of_nodup (hfits.nodup_entries.filter _) hnodup]
    intro e
    rw [List.mem_filter]
    by_cases hin : e ∈ es
    · simp [stagedRow?, hin, hes e hin]
    · simp [stagedRow?, hin]
  rw [List.countP_eq_length_filter, hfilter.length_eq]

/-- The update makes the changes to the rows that were staged, and to no others. -/
theorem applyUpdate_ok (h : Planned s f c returning plan cs) (hfits : s.Fits t)
    (hos : List.Forall₂ (Output.Leaves s t c) (stagedNames s c returning) (s.keyResult :: os))
    {stg : StagingTable} {a : Area} {es : List Entry} {σ σ' : Session MemoryDatabase} {n : Nat}
    (hu : stg.Filled (s.keyResult :: os) es σ.database.catalog u)
    (hes : ∀ e ∈ es, e ∈ t.entries) (hnodup : es.Nodup)
    (hfind : σ.database.catalog.find s.table.allQuoted = .ok (a, t))
    (halias : foldName s.table.name ≠ "_staged")
    (hrun : outcome (stg.applyUpdate s plan.touched) σ = (.ok n, σ')) :
    n = es.length ∧ σ'.database = { σ.database with
      catalog := σ.database.catalog.replace a (c.applyToRows s es t), changes := n } := by
  have hfold := h.nodup_foldName hos hfits
  have hnames := map_name hos
  have hkeyFirst : stagedNames s c returning = s.primaryKey.name ::
      (c.entries.map Prod.fst ++ furtherNames s c returning) := stagedNames_eq ..
  have hkey : u.columns[(stagedNames s c returning).idxOf s.primaryKey.name]? =
      some ⟨s.primaryKey.name, s.primaryKey.affinity, false⟩ := by
    rw [idxOf_key, hu.columns]
    simp [stagedColumns, Schema.keyResult, Schema.storedAffinity_field]
  have hdeclared : ∀ m ∈ c.entries.map Prod.fst, ∃ g, s.requireField m = .ok g := by
    intro m hm
    obtain ⟨d, hd, rfl⟩ := List.mem_map.1 hm
    exact h.assigns.declared d hd
  have hmem : ∀ m ∈ c.entries.map Prod.fst, m ∈ stagedNames s c returning := by
    intro m hm
    rw [hkeyFirst]
    exact List.mem_cons_of_mem _ (List.mem_append_left _ hm)
  rw [h.touched] at hrun
  have hupdates : StagingTable.Updates s stg σ.database.catalog a t u
      (stagedNames s c returning) (c.entries.map Prod.fst) :=
    { fits := hfits
      origin := hfind
      staging := hu.staging
      named := hnames ▸ hu.named hfold
      alias_ne := halias
      key_mem := by
        rw [hkeyFirst]
        exact List.mem_cons_self
      fields_mem := hmem
      declared := hdeclared }
  obtain ⟨hn, hdb⟩ := StagingTable.applyUpdate_rows hupdates hkey rfl h.key_notMem
    (fun e he row => stagedRow?_eq_some hfits hu hes he row) hrun
  have hafter : ∀ e ∈ t.entries, StagingTable.updated s t (stagedNames s c returning)
      (c.entries.map Prod.fst) (stagedRow? (s.keyResult :: os) es) e =
        if e ∈ es then c.applyTo s e else e := by
    intro e he
    unfold StagingTable.updated stagedRow?
    by_cases hin : e ∈ es
    · have hcells := hfits.cellsAfter_eq c.names_nodup hdeclared he
        (fun m hm g hg => h.store_namedCell hos hfits (hmem m hm) hg he)
        (fun m hm => Changes.get?_eq_none hm)
      rw [if_pos hin, if_pos hin]
      exact congrArg (Entry.mk e.id) hcells
    · rw [if_neg hin, if_neg hin]
  refine ⟨hn.trans (countP_stagedRow? hfits _ hes hnodup), ?_⟩
  rw [hdb, Changes.applyToRows, List.map_congr_left hafter]

end PatchPlan.Planned

end StagedStore
