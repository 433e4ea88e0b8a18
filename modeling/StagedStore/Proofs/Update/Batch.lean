import Mathlib.Data.List.Perm.Basic
import StagedStore.Proofs.Memory.Transaction
import StagedStore.Proofs.Staging.Assigned
import StagedStore.Proofs.Update.Applied

/-!
# Batched updates

A batched update does what its change sets do one after the other, each to the row with its own key.
However the batch is cut into chunks, no cell of one row or field reaches another.
-/

namespace StagedStore

open Memory MemoryDatabase

variable {ε : Type} {s : Schema} {p : Plan} {t : Table} {sets : List (ChangeSet ε)}

/-- A delta that does not add an infinity or a number that is none. -/
def Delta.isFinite : Delta → Bool
  | .increment (.real x) => x.isFinite
  | _ => true

/-! ## Compiled plans are ready -/

theorem Field.isFinite_of_encode {f : Field} {v : Value} {x : Binary64}
    (h : f.encode v = .ok (.real x)) (hv : ∀ y, v = .real y → y.isFinite = true) :
    x.isFinite = true := by
  rcases encode_ok h with ⟨-, -, hnull⟩ | ⟨-, h⟩
  · cases hnull
  · cases hk : f.kind <;> cases v <;> simp only [hk, encodeKind?, Storage.ofBool, reduceCtorEq,
      Option.some.injEq, Storage.real.injEq] at h
    · exact h ▸ Binary64.isFinite_ofInt _
    · exact h ▸ hv _ rfl

theorem Cell.increment_of_ofDelta {f : Field} {d : Delta} {a : Storage}
    (h : Cell.ofDelta f d = .ok (.increment a)) :
    ∃ v, d = .increment v ∧ f.encode v = .ok a := by
  cases d with
  | set v =>
      obtain ⟨w, -, h⟩ := Except.bind_eq_ok_iff.1 h
      simp at h
  | increment v =>
      obtain ⟨w, hw, h⟩ := Except.bind_eq_ok_iff.1 h
      obtain rfl := Cell.increment.inj (Except.ok.inj h)
      exact ⟨v, rfl, hw⟩
  | unset => simp [ofDelta] at h

namespace Plan

theorem Compiled.laid (h : p.Compiled s sets) (hfits : s.Fits t)
    (hchecked : ∀ c ∈ sets, c.Checked s) : p.Laid s t where
  fits := hfits
  key := h.key
  fields_nodup := h.fields_nodup
  key_notMem hin := by
    obtain ⟨c, hc, d, hd, hname⟩ := h.exists_of_mem_fields hin
    exact ((hchecked c hc).entries d hd).1 hname
  declared n hn := by
    obtain ⟨c, hc, d, hd, rfl⟩ := h.exists_of_mem_fields hn
    obtain ⟨-, f, hf, -⟩ := (hchecked c hc).entries d hd
    exact ⟨f, hf⟩

theorem Compiled.writes (h : p.Compiled s sets) {r : PlanRow} (hr : r ∈ p.rows) :
    s.primaryKey.kind.Writes r.key := by
  obtain ⟨c, hc, hof⟩ := h.exists_of_mem_rows hr
  rcases Field.encode_ok hof.key with ⟨-, hnull, -⟩ | ⟨-, hwrites⟩
  · rw [s.key_required] at hnull
    cases hnull
  · exact Field.writes_of_encodeKind? hwrites

/-- Finite amounts are written as they are. -/
theorem Compiled.ofStorage_amount (h : p.Compiled s sets)
    (hfinite : ∀ c ∈ sets, ∀ d ∈ c.changes.entries, d.2.isFinite = true) {r : PlanRow}
    (hr : r ∈ p.rows) {n : String} {a : Storage} (ha : r.cell n = .increment a) :
    Sql.Expr.ofStorage a = .literal a := by
  obtain ⟨c, hc, hof⟩ := h.exists_of_mem_rows hr
  rcases hof.cell n with ⟨-, hcell⟩ | ⟨d, f, hd, -, hcell⟩
  · rw [hcell] at ha
    cases ha
  · rw [ha] at hcell
    obtain ⟨v, rfl, hv⟩ := Cell.increment_of_ofDelta hcell
    cases a with
    | real x =>
        have hx : x.isFinite = true := by
          refine Field.isFinite_of_encode hv ?_
          rintro y rfl
          exact hfinite c hc (n, .increment (.real y)) (Changes.mem_of_get? hd)
        simp [Sql.Expr.ofStorage, hx]
    | _ => rfl

/-- The plan of checked change sets is ready for every state of the table. -/
theorem Compiled.ready (h : p.Compiled s sets) (hfits : s.Fits t)
    (hkind : s.primaryKey.kind ≠ .real) (hchecked : ∀ c ∈ sets, c.Checked s)
    (hfinite : ∀ c ∈ sets, ∀ d ∈ c.changes.entries, d.2.isFinite = true) : p.Ready s t :=
  (h.laid hfits hchecked).ready hkind (fun _ => h.writes) h.keys_nodup
    fun _ hr _ _ => h.ofStorage_amount hfinite hr

/-! ## Rows and change sets -/

theorem concerns_kept {c : ChangeSet ε} {r : PlanRow} (h : r.Of s c)
    (hbound : r.key.bound = r.key) (e : Entry) :
    c.kept.concerns s e = decide (s.keyCell e = r.key.kept) := by
  unfold ChangeSet.concerns ChangeSet.kept
  rw [Field.encode_kept h.key hbound]

/-- Change sets that are not under reals are their own kept ones. -/
theorem Compiled.map_kept (h : p.Compiled s sets) (hkind : s.primaryKey.kind ≠ .real) :
    sets.map ChangeSet.kept = sets := by
  refine (List.map_congr_left fun c hc => ?_).trans (List.map_id sets)
  obtain ⟨r, -, hof⟩ := h.rows.exists_right hc
  exact ChangeSet.kept_eq hkind hof.key

section

variable {rows : List PlanRow} (h : List.Forall₂ (fun c r => r.Of s c) sets rows)
  (hbound : ∀ r ∈ rows, r.key.bound = r.key)

include h hbound

theorem apart_of_forall₂ (hn : (rows.map fun r => r.key.kept).Nodup) :
    (sets.map ChangeSet.kept).Pairwise (ChangeSet.Apart s) := by
  induction h with
  | nil => exact .nil
  | @cons c r cs rs hof hall ih =>
      obtain ⟨hr, hrs⟩ := List.forall_mem_cons.1 hbound
      rw [List.map_cons, List.nodup_cons] at hn
      refine List.pairwise_cons.2 ⟨?_, ih hrs hn.2⟩
      intro d' hd' e hc
      obtain ⟨d, hd, rfl⟩ := List.mem_map.1 hd'
      obtain ⟨r', hr', hof'⟩ := hall.exists_right hd
      rw [concerns_kept hof hr, decide_eq_true_eq] at hc
      rw [concerns_kept hof' (hrs r' hr'), decide_eq_false_iff_not, hc]
      intro he
      exact hn.1 (he ▸ List.mem_map_of_mem hr')

theorem find?_of_forall₂ (e : Entry) :
    ((sets.map ChangeSet.kept).find? (·.concerns s e) = none ∧
        rows.find? (fun r => decide (s.keyCell e = r.key.kept)) = none) ∨
      ∃ c r, (sets.map ChangeSet.kept).find? (·.concerns s e) = some c.kept ∧
        rows.find? (fun r => decide (s.keyCell e = r.key.kept)) = some r ∧ r.Of s c := by
  induction h with
  | nil => exact .inl ⟨rfl, rfl⟩
  | @cons c r cs rs hof _ ih =>
      obtain ⟨hr, hrs⟩ := List.forall_mem_cons.1 hbound
      by_cases hkey : s.keyCell e = r.key.kept
      · exact .inr ⟨c, r, by simp [concerns_kept hof hr, hkey], by simp [hkey], hof⟩
      · rw [List.map_cons, List.find?_cons_of_neg (by simp [concerns_kept hof hr, hkey]),
          List.find?_cons_of_neg (by simp [hkey])]
        exact ih hrs

theorem countP_of_forall₂ (t : Table) :
    (rows.countP fun r => decide (r.key.kept ∈ t.entries.map s.keyCell)) =
      (sets.map ChangeSet.kept).countP fun c => t.entries.any (c.concerns s) := by
  induction h with
  | nil => rfl
  | @cons c r cs rs hof _ ih =>
      obtain ⟨hr, hrs⟩ := List.forall_mem_cons.1 hbound
      have hany : t.entries.any (c.kept.concerns s) =
          decide (r.key.kept ∈ t.entries.map s.keyCell) := by
        rw [Bool.eq_iff_iff, List.any_eq_true, decide_eq_true_eq, List.mem_map]
        simp only [concerns_kept hof hr, decide_eq_true_eq]
      rw [List.map_cons, List.countP_cons, List.countP_cons, ih hrs, hany]

end

/-- Rows are counted by the change sets that concern them, or change sets by their rows. -/
theorem Ready.countP_eq (h : p.Ready s t) (hc : p.Compiled s sets) :
    (t.entries.countP fun e => (p.source s e).isSome) =
      (sets.map ChangeSet.kept).countP fun c => t.entries.any (c.concerns s) := by
  have hcells : (t.entries.map s.keyCell).Nodup :=
    List.pairwise_map.2 (h.fits.distinct.imp fun hne he => hne (congrArg Storage.normal he))
  calc (t.entries.countP fun e => (p.source s e).isSome)
    _ = t.entries.countP ((fun k => decide (k ∈ p.rows.map fun r => r.key.kept)) ∘ s.keyCell) := by
      refine List.countP_congr fun e _ => ?_
      rw [source, Option.isSome_map, rowOf?, List.find?_isSome]
      simp [eq_comm]
    _ = ((t.entries.map s.keyCell).filter (· ∈ p.rows.map fun r => r.key.kept)).length := by
      rw [← List.countP_map, List.countP_eq_length_filter]
    _ = ((p.rows.map fun r => r.key.kept).filter (· ∈ t.entries.map s.keyCell)).length := by
      refine List.Perm.length_eq ?_
      rw [List.perm_ext_iff_of_nodup (hcells.filter _) (h.kept_nodup.filter _)]
      intro k
      simp only [List.mem_filter, decide_eq_true_eq]
      exact and_comm
    _ = p.rows.countP fun r => decide (r.key.kept ∈ t.entries.map s.keyCell) := by
      rw [← List.countP_eq_length_filter, List.countP_map]
      rfl
    _ = (sets.map ChangeSet.kept).countP fun c => t.entries.any (c.concerns s) :=
      countP_of_forall₂ hc.rows h.bound_key t

/-! ## The cells of a row -/

theorem store_resolved {c : ChangeSet ε} {r : PlanRow} {f : Field} {old : Storage} (hof : r.Of s c)
    (hf : s.requireField f.name = .ok f) (hold : f.affinity.store old = old) :
    f.affinity.store ((r.cell f.name).resolved old) = c.changes.cellAfter f old := by
  unfold Changes.cellAfter
  rcases hof.cell f.name with ⟨hd, hcell⟩ | ⟨d, g, hd, hg, hcell⟩
  · rw [hd, hcell]
    exact hold
  · obtain rfl := Except.ok.inj (hf.symm.trans hg)
    rw [hd]
    cases d with
    | set v =>
        obtain ⟨w, hw, hcell⟩ := Except.bind_eq_ok_iff.1 hcell
        rw [← Except.ok.inj hcell, Cell.resolved, Field.store_encode hw]
        simp [Delta.cellAfter, hw, Except.toOption]
    | increment v =>
        obtain ⟨w, hw, hcell⟩ := Except.bind_eq_ok_iff.1 hcell
        rw [← Except.ok.inj hcell, Cell.resolved]
        simp [Delta.cellAfter, hw, Except.toOption]
    | unset =>
        rw [← Except.ok.inj hcell]
        cases f.affinity <;> rfl

/-- The assigned cells of a row are those that its change set gives it. -/
theorem Ready.cellsAfter_eq (h : p.Ready s t) (hc : p.Compiled s sets) {c : ChangeSet ε}
    {r : PlanRow} (hr : r ∈ p.rows) (hof : r.Of s c) {e : Entry} (he : e ∈ t.entries) :
    Revision.cellsAfter t (s.assignments p.columns p.fields (r.staged s p e).toArray) e.cells =
      (c.changes.applyTo s e).cells := by
  refine h.fits.cellsAfter_eq h.fields_nodup h.declared he (fun n hn f hf => ?_) fun n hn => ?_
  · obtain ⟨hi, rfl⟩ := Schema.getElem?_fieldIndex hf
    rw [h.namedCell_field r e hn]
    exact store_resolved hof hf ((h.fits.rows e he).stored _ f hi)
  · rcases hof.cell n with ⟨hget, -⟩ | ⟨d, f, hd, -, -⟩
    · exact hget
    · refine absurd ((hc.mem_fields n).2 ⟨r, hr, ?_⟩) hn
      rw [hof.map_fst]
      exact List.mem_map_of_mem (Changes.mem_of_get? hd)

/-- A batch leaves every row as the change set that concerns it does. -/
theorem Ready.appliedTo_eq (h : p.Ready s t) (hc : p.Compiled s sets)
    (hchecked : ∀ c ∈ sets, c.Checked s) :
    p.appliedTo s t = (sets.map ChangeSet.kept).foldl (ChangeSet.applyTo s) t := by
  have hkey : ∀ c ∈ sets.map ChangeSet.kept, c.changes.get? s.primaryKey.name = none := by
    intro c hin
    obtain ⟨d, hd, rfl⟩ := List.mem_map.1 hin
    exact (hchecked d hd).get?_key
  rw [ChangeSet.foldl_applyTo (apart_of_forall₂ hc.rows h.bound_key h.kept_nodup) hkey]
  unfold appliedTo
  congr 1
  refine List.map_congr_left fun e he => ?_
  unfold StagingTable.updated ChangeSet.revise source rowOf?
  rcases find?_of_forall₂ hc.rows h.bound_key e with ⟨hnone, hnone'⟩ | ⟨c, r, hc', hr, hof⟩
  · rw [hnone, hnone']
    rfl
  · rw [hc', hr]
    exact congrArg (Entry.mk e.id) (h.cellsAfter_eq hc (List.mem_of_find?_eq_some hr) hof he)

end Plan

end StagedStore
