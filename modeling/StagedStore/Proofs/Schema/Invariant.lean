import StagedStore.Proofs.Memory.Prepared
import StagedStore.Proofs.Schema.Table

/-!
# The invariant of a schema's table

Every state of the table of a schema fits the schema: one lemma for each way of changing rows, and
`fits_of_tableState` from them by induction.  The cells that are in use in a unique column are kept
in a set of their own; `Covers` says that it holds what the rows hold.
-/

namespace StagedStore.Schema

open Memory

variable {s : Schema} {t : Table}

/-- The set of cells in use is that of some rows. -/
def Covers (s : Schema) (os : List Occupied) (es : List Entry) : Prop :=
  if s.hasRowKey then os = []
  else ∃ cells, os = [⟨s.keyIndex, cells⟩] ∧
    ∀ v, cells.contains v = true ↔ ∃ e ∈ es, (s.keyCell e).normal = v

theorem covers_perm {os : List Occupied} {es es' : List Entry} (hp : es.Perm es')
    (h : s.Covers os es) : s.Covers os es' := by
  unfold Covers at h ⊢
  split
  · rwa [if_pos ‹_›] at h
  · rw [if_neg ‹_›] at h
    obtain ⟨cells, hos, hc⟩ := h
    exact ⟨cells, hos, fun v => by simp only [hc, hp.mem_iff]⟩

theorem contains_foldl_normal {vs : List Storage} {set : Std.HashSet Storage} {k : Storage} :
    (vs.foldl (fun set v => set.insert v.normal) set).contains k = true ↔
      set.contains k = true ∨ ∃ v ∈ vs, v.normal = k := by
  induction vs generalizing set with
  | nil => simp
  | cons v vs ih =>
      simp only [List.foldl_cons, ih, Std.HashSet.contains_insert, Bool.or_eq_true, beq_iff_eq,
        List.mem_cons, exists_eq_or_imp]
      rw [or_assoc, or_left_comm]

theorem covers_ofTable (h : s.Fits t) : s.Covers (Occupied.ofTable t) t.entries := by
  unfold Covers Occupied.ofTable
  rw [h.unique]
  split
  · rfl
  · refine ⟨_, rfl, fun v => ?_⟩
    rw [contains_foldl_normal, Table.column_eq]
    simp [keyCell]

theorem covers_occupy {os : List Occupied} {es : List Entry} {e : Entry} (h : s.Covers os es) :
    s.Covers (Occupied.occupy os e.cells) (e :: es) := by
  unfold Covers at h ⊢
  split
  · rw [if_pos ‹_›] at h
    rw [h]
    rfl
  · rw [if_neg ‹_›] at h
    obtain ⟨cells, rfl, hc⟩ := h
    refine ⟨_, rfl, fun v => ?_⟩
    simp only [Std.HashSet.contains_insert, Bool.or_eq_true, beq_iff_eq, hc, List.mem_cons,
      exists_eq_or_imp, keyCell]

theorem covers_release {os : List Occupied} {es : List Entry} {e : Entry}
    (hne : ∀ x ∈ es, (s.keyCell e).normal ≠ (s.keyCell x).normal) (h : s.Covers os (e :: es)) :
    s.Covers (Occupied.release os e.cells) es := by
  unfold Covers at h ⊢
  split
  · rw [if_pos ‹_›] at h
    rw [h]
    rfl
  · rw [if_neg ‹_›] at h
    obtain ⟨cells, rfl, hc⟩ := h
    refine ⟨_, rfl, fun v => ?_⟩
    simp only [Std.HashSet.contains_erase, Bool.and_eq_true, hc, List.mem_cons, exists_eq_or_imp]
    constructor
    · rintro ⟨hv, heq | hx⟩
      · exact absurd heq (by simpa [keyCell] using hv)
      · exact hx
    · rintro ⟨x, hx, rfl⟩
      exact ⟨by simpa [keyCell] using hne x hx, .inr ⟨x, hx, rfl⟩⟩

/-- A row that passes the test of uniqueness has a key of its own. -/
theorem ne_of_testUnique {os : List Occupied} {es : List Entry} {e : Entry}
    (hc : s.Covers os es) (hrow : s.hasRowKey = false) (hnull : (s.keyCell e).isNull = false)
    (h : t.testUnique os e = .ok ()) :
    ∀ x ∈ es, (s.keyCell e).normal ≠ (s.keyCell x).normal := by
  unfold Covers at hc
  rw [hrow, if_neg Bool.false_ne_true] at hc
  obtain ⟨cells, rfl, hc⟩ := hc
  intro x hx heq
  have hmem : cells.contains (s.keyCell e).normal = true := (hc _).2 ⟨x, hx, heq.symm⟩
  have hconflict : Occupied.conflict? [⟨s.keyIndex, cells⟩] e.cells = some s.keyIndex := by
    unfold Occupied.conflict?
    unfold keyCell at hnull hmem
    simp [hnull, hmem]
  unfold Table.testUnique at h
  simp [hconflict] at h

/-! ## Rows -/

theorem Fits.getElem?_columns (h : s.Fits t) (i : Nat) :
    t.columns[i]? = s.fields[i]?.map Field.toColumn := by
  rw [h.columns, List.getElem?_map]

/-- A row that passes the tests of a row has what is required. -/
theorem required_of_testRow (h : s.Fits t) {e : Entry} (ht : t.testRow e = .ok ()) {i : Nat}
    {f : Field} (hi : s.fields[i]? = some f) (hf : f.nullable = false) (hk : t.key ≠ some i) :
    (e.cells[i]?.getD .null).isNull = false := by
  have hnone : t.nullColumn? e.cells = none := by
    cases hn : t.nullColumn? e.cells with
    | none => rfl
    | some j =>
        unfold Table.testRow at ht
        rw [hn] at ht
        cases hc : t.failedCheck? e <;> simp [hc] at ht
  unfold Table.nullColumn? at hnone
  rw [Option.map_eq_none_iff, List.find?_eq_none] at hnone
  have hc : t.columns[i]? = some f.toColumn := by
    rw [h.getElem?_columns, hi]
    rfl
  have := hnone (f.toColumn, i) (List.mem_zipIdx_iff_getElem?.2 hc)
  simpa [Field.toColumn, hf, hk] using this

/-- Cells that the columns have stored, and the key where it is the hidden one, make a row. -/
theorem fitsRow_of (h : s.Fits t) {e : Entry} {cells : Array Storage}
    (hsize : cells.size = s.fields.length)
    (hstored : ∀ (i : Nat) (f : Field), s.fields[i]? = some f →
      f.affinity.store (cells[i]?.getD .null) = cells[i]?.getD .null)
    (he : e.cells = match t.key with
      | none => cells
      | some i => cells.setIfInBounds i (.integer e.id))
    (ht : t.testRow e = .ok ()) : s.FitsRow e := by
  have hlt : s.keyIndex < cells.size := hsize ▸ s.keyIndex_lt
  cases hrow : s.hasRowKey with
  | false =>
      have hkey : t.key = none := by simpa [hrow] using h.key
      rw [hkey] at he
      obtain rfl : e.cells = cells := he
      exact ⟨hsize, hstored, fun i f hi hf => required_of_testRow h ht hi hf (by simp [hkey]),
        by simp [hrow]⟩
  | true =>
      have hkey : t.key = some s.keyIndex := by simpa [hrow] using h.key
      rw [hkey] at he
      replace he : e.cells = cells.setIfInBounds s.keyIndex (.integer e.id) := he
      have hself : e.cells[s.keyIndex]? = some (.integer e.id) := by
        rw [he, Array.getElem?_setIfInBounds_self_of_lt hlt]
      refine ⟨by rw [he, Array.size_setIfInBounds, hsize], ?stored, ?required, fun _ => hself⟩
      case stored =>
        intro i f hi
        by_cases hik : s.keyIndex = i
        · subst hik
          obtain rfl : s.primaryKey = f := by simpa [getElem?_keyIndex] using hi
          have haff : s.primaryKey.affinity = .integer := of_decide_eq_true hrow
          rw [hself, haff]
          rfl
        · rw [he, Array.getElem?_setIfInBounds_ne hik]
          exact hstored i f hi
      case required =>
        intro i f hi hf
        by_cases hik : s.keyIndex = i
        · rw [← hik, hself]
          rfl
        · exact required_of_testRow h ht hi hf (by simpa [hkey] using hik)

theorem keyCell_eq_integer {e : Entry} (hrow : s.hasRowKey = true) (h : s.FitsRow e) :
    s.keyCell e = .integer e.id := by
  unfold keyCell
  rw [h.rowKey hrow]
  rfl

theorem keyCell_not_null {e : Entry} (h : s.FitsRow e) : (s.keyCell e).isNull = false :=
  h.required s.keyIndex s.primaryKey s.getElem?_keyIndex s.key_required

/-- Rows with hidden keys of their own have keys of their own where the hidden key is the key. -/
theorem ne_of_id_ne (hrow : s.hasRowKey = true) {a b : Entry} (ha : s.FitsRow a)
    (hb : s.FitsRow b) (hne : a.id ≠ b.id) : (s.keyCell a).normal ≠ (s.keyCell b).normal := by
  rw [keyCell_eq_integer hrow ha, keyCell_eq_integer hrow hb]
  simpa [Storage.normal] using hne

/-! ## Insertions -/

theorem pairwise_place {e : Entry} {es : List Entry} (h : es.Pairwise fun a b => b.id < a.id)
    (he : ∀ x ∈ es, x.id ≠ e.id) :
    (Table.place e es).Pairwise fun a b => b.id < a.id := by
  induction es with
  | nil => simp [Table.place]
  | cons x es ih =>
      obtain ⟨hx, hes⟩ := List.pairwise_cons.1 h
      unfold Table.place
      split
      · rename_i hlt
        refine List.pairwise_cons.2 ⟨?_, h⟩
        intro y hy
        rcases List.mem_cons.1 hy with rfl | hy
        · exact hlt
        · exact Int64.lt_trans (hx y hy) hlt
      · rename_i hge
        refine List.pairwise_cons.2 ⟨?_, ih hes fun y hy => he y (by simp [hy])⟩
        intro y hy
        rcases List.mem_cons.1 ((Table.place_perm e es).mem_iff.1 hy) with rfl | hy
        · exact Int64.lt_of_le_of_ne (Int64.not_lt.1 hge) (Ne.symm (he x (by simp)))
        · exact hx y hy

theorem ne_of_hasKey {k : Int64} {es : List Entry} (h : es.Pairwise fun a b => b.id < a.id)
    (hk : Insertion.hasKey k es = false) : ∀ x ∈ es, x.id ≠ k := by
  induction es with
  | nil => simp
  | cons x es ih =>
      obtain ⟨hx, hes⟩ := List.pairwise_cons.1 h
      rw [Insertion.hasKey] at hk
      intro y hy heq
      split at hk
      · rename_i hlt
        rcases List.mem_cons.1 hy with rfl | hy
        · exact Int64.lt_irrefl (heq ▸ hlt)
        · exact ih hes hk y hy heq
      · rename_i hge
        have hne : x.id ≠ k := of_decide_eq_false hk
        rcases List.mem_cons.1 hy with rfl | hy
        · exact hne heq
        · exact hge (heq ▸ hx y hy)

/-- Rows with another of a key of its own. -/
theorem distinct_place {e : Entry} {es : List Entry}
    (h : es.Pairwise fun a b => (s.keyCell a).normal ≠ (s.keyCell b).normal)
    (he : ∀ x ∈ es, (s.keyCell e).normal ≠ (s.keyCell x).normal) :
    (Table.place e es).Pairwise fun a b => (s.keyCell a).normal ≠ (s.keyCell b).normal :=
  (Table.place_perm e es).symm.pairwise (List.pairwise_cons.2 ⟨he, h⟩) fun hab => Ne.symm hab

theorem stored_convert (h : s.Fits t) {cells : List Storage}
    (hsize : cells.length = t.columns.length) :
    (t.convert cells).size = s.fields.length ∧
      ∀ (i : Nat) (f : Field), s.fields[i]? = some f →
        f.affinity.store ((t.convert cells)[i]?.getD .null) =
          (t.convert cells)[i]?.getD .null := by
  have hlen : t.columns.length = s.fields.length := by rw [h.columns, List.length_map]
  unfold Table.convert
  refine ⟨by simp [hsize, hlen], ?_⟩
  intro i f hi
  have hlt : i < cells.length := by
    have := (List.getElem?_eq_some_iff.1 hi).1
    omega
  have hcell : (t.columns.zipWith (fun c v => c.affinity.store v) cells)[i]? =
      some (f.affinity.store cells[i]) := by
    rw [List.getElem?_zipWith, h.getElem?_columns, hi, List.getElem?_eq_getElem hlt]
    rfl
  rw [List.getElem?_toArray, hcell]
  exact Affinity.store_store _ _

/-- A row whose cells may stand beside those of others. -/
theorem ne_of_tests {os : List Occupied} {es : List Entry} {e : Entry} (hc : s.Covers os es)
    (hrows : ∀ x ∈ es, s.FitsRow x) (he : s.FitsRow e) (hids : ∀ x ∈ es, x.id ≠ e.id)
    (h : t.testUnique os e = .ok ()) :
    ∀ x ∈ es, (s.keyCell e).normal ≠ (s.keyCell x).normal := by
  cases hrow : s.hasRowKey with
  | true => exact fun x hx => ne_of_id_ne hrow he (hrows x hx) (Ne.symm (hids x hx))
  | false => exact ne_of_testUnique hc hrow (keyCell_not_null he) h

theorem fits_insert {i i' : Insertion} {cells : List Storage} (h : s.Fits i.table)
    (hc : s.Covers i.occupied i.table.entries) (hsize : cells.length = i.table.columns.length)
    (hi : i.insert cells = .ok i') :
    s.Fits i'.table ∧ s.Covers i'.occupied i'.table.entries ∧
      i'.table.columns = i.table.columns := by
  obtain ⟨e, isGiven, hcomplete, htest, hkey, hunique, rfl⟩ := Insertion.insert_ok hi
  have hconv := stored_convert h hsize
  have hrow : s.FitsRow e :=
    fitsRow_of h hconv.1 hconv.2 (Insertion.complete_ok hcomplete) htest
  have hids := ne_of_hasKey h.sorted hkey
  refine ⟨?_, covers_perm (Table.place_perm e _).symm (covers_occupy hc), rfl⟩
  exact {
    columns := h.columns
    names_nodup := h.names_nodup
    key := h.key
    unique := h.unique
    checks := h.checks
    references := h.references
    sorted := pairwise_place h.sorted hids
    rows := fun x hx => by
      rcases List.mem_cons.1 ((Table.place_perm e _).mem_iff.1 hx) with rfl | hx
      · exact hrow
      · exact h.rows x hx
    distinct := distinct_place h.distinct (ne_of_tests hc h.rows hrow hids hunique) }

theorem fits_insertAll {i i' : Insertion} {rows : List (List Storage)} (h : s.Fits i.table)
    (hc : s.Covers i.occupied i.table.entries)
    (hsize : ∀ r ∈ rows, r.length = i.table.columns.length)
    (hi : i.insertAll rows = (i', none)) : s.Fits i'.table := by
  induction rows generalizing i with
  | nil =>
      obtain ⟨rfl, -⟩ := Prod.mk.inj hi
      exact h
  | cons cells rows ih =>
      rw [Insertion.insertAll] at hi
      split at hi
      · rename_i i₁ hi₁
        obtain ⟨h₁, hc₁, hcols⟩ := fits_insert h hc (hsize cells (by simp)) hi₁
        exact ih h₁ hc₁ (fun r hr => hcols ▸ hsize r (by simp [hr])) hi
      · simp at hi

/-! ## Updates -/

theorem stored_cellsAfter (h : s.Fits t) {values : List (Nat × Storage)} {cells : Array Storage}
    (hcells : ∀ (i : Nat) (f : Field), s.fields[i]? = some f →
      f.affinity.store (cells[i]?.getD .null) = cells[i]?.getD .null) :
    ∀ (i : Nat) (f : Field), s.fields[i]? = some f →
      f.affinity.store ((Revision.cellsAfter t values cells)[i]?.getD .null) =
        (Revision.cellsAfter t values cells)[i]?.getD .null := by
  unfold Revision.cellsAfter
  induction values generalizing cells with
  | nil => exact hcells
  | cons jv values ih =>
      obtain ⟨j, v⟩ := jv
      rw [List.foldl_cons]
      refine ih fun i f hi => ?_
      dsimp only
      split
      · rename_i c hc
        by_cases hji : j = i
        · subst hji
          have hcf : c = f.toColumn := by simpa [h.getElem?_columns, hi] using hc.symm
          by_cases hlt : j < cells.size
          · rw [Array.getElem?_setIfInBounds_self_of_lt hlt, hcf]
            exact Affinity.store_store _ _
          · rw [Array.setIfInBounds_eq_of_size_le (by omega)]
            exact hcells j f hi
        · rw [Array.getElem?_setIfInBounds_ne hji]
          exact hcells i f hi
      · exact hcells i f hi

/-- A table whose rows below some key have been taken over by an update; `rest` are those still to
be looked at. -/
structure Revising (s : Schema) (t : Table) (changesKey : Bool) (r : Revision)
    (rest : List Entry) : Prop where
  table : r.table = t
  sorted : r.entries.Pairwise fun a b => b.id < a.id
  rows : ∀ e ∈ r.entries ++ rest, s.FitsRow e
  distinct : (r.entries ++ rest).Pairwise fun a b => (s.keyCell a).normal ≠ (s.keyCell b).normal
  ids_ne : (r.entries ++ rest).Pairwise fun a b => a.id ≠ b.id
  ids : changesKey = true → ∀ e ∈ r.entries ++ rest, r.ids.contains e.id = true
  covers : s.Covers r.occupied (r.entries ++ rest)

theorem perm_place_append (e : Entry) (es rest : List Entry) :
    (Table.place e es ++ rest).Perm (e :: (es ++ rest)) :=
  (Table.place_perm e es).append_right rest

/-- A row that an update changes is again a row of the schema, under a hidden key that no other row
has. -/
theorem fitsRow_assign (h : s.Fits t) {changesKey : Bool} {r : Revision} {e new : Entry}
    {rest : List Entry} {vs : List (Nat × Storage)}
    (hkeep : changesKey = false → ∀ i, t.key = some i → i ∉ vs.map Prod.fst)
    (hr : s.Revising t changesKey r (e :: rest)) (hnew : Revision.assign t vs e = .ok new)
    (htest : t.testRow new = .ok ()) (hid : new.id ≠ e.id → r.ids.contains new.id = false) :
    s.FitsRow new ∧ ∀ x ∈ r.entries ++ rest, x.id ≠ new.id := by
  have he : s.FitsRow e := hr.rows e (by simp)
  have hassign := Revision.assign_ok hnew
  refine ⟨fitsRow_of h ((Revision.size_cellsAfter t vs e.cells).trans he.size)
    (stored_cellsAfter h he.stored) ?_ htest, ?_⟩
  · cases hk : t.key with
    | none =>
        rw [hk] at hassign
        exact congrArg Entry.cells hassign
    | some i =>
        rw [hk] at hassign
        exact hassign.2
  · have hne : ∀ x ∈ r.entries ++ rest, e.id ≠ x.id :=
      (List.pairwise_cons.1 (List.perm_middle.pairwise hr.ids_ne Ne.symm)).1
    by_cases hsame : new.id = e.id
    · exact fun x hx => hsame ▸ Ne.symm (hne x hx)
    · cases hchanges : changesKey with
      | false =>
          refine absurd (congrArg Entry.id (Revision.assign_keeps ?_ hnew)) hsame
          intro i hi
          have hrow : s.hasRowKey = true := by
            cases hrow : s.hasRowKey with
            | true => rfl
            | false => simp [h.key, hrow] at hi
          obtain rfl : s.keyIndex = i := by simpa [h.key, hrow] using hi
          exact ⟨he.rowKey hrow, hkeep hchanges _ hi⟩
      | true =>
          intro x hx heq
          have hin := hr.ids hchanges x (List.perm_middle.mem_iff.2 (List.mem_cons_of_mem _ hx))
          rw [heq, hid hsame] at hin
          exact Bool.false_ne_true hin

theorem revising_step (h : s.Fits t) {changesKey : Bool} {r r' : Revision} {e : Entry}
    {rest : List Entry} {values : Entry → Option (List (Nat × Storage))}
    (hkeep : changesKey = false → ∀ vs, values e = some vs → ∀ i, t.key = some i →
      i ∉ vs.map Prod.fst)
    (hr : s.Revising t changesKey r (e :: rest)) (hstep : Revision.step values r e = .ok r') :
    s.Revising t changesKey r' rest := by
  have hperm : (r.entries ++ e :: rest).Perm (e :: (r.entries ++ rest)) := List.perm_middle
  obtain ⟨hne, hids⟩ := List.pairwise_cons.1 (hperm.pairwise hr.ids_ne Ne.symm)
  obtain ⟨hkeys, hdistinct⟩ := List.pairwise_cons.1 (hperm.pairwise hr.distinct Ne.symm)
  have hrows := fun x hx => hr.rows x (hperm.mem_iff.2 hx)
  rcases Revision.step_ok hstep with ⟨-, rfl⟩ | ⟨vs, new, hv, hnew, htest, hid, hunique, rfl⟩
  · have hplace := perm_place_append e r.entries rest
    exact {
      table := hr.table
      sorted := pairwise_place hr.sorted fun x hx => Ne.symm (hne x (by simp [hx]))
      rows := fun x hx => hrows x (hplace.mem_iff.1 hx)
      distinct := hplace.symm.pairwise (List.pairwise_cons.2 ⟨hkeys, hdistinct⟩) Ne.symm
      ids_ne := hplace.symm.pairwise (List.pairwise_cons.2 ⟨hne, hids⟩) Ne.symm
      ids := fun hc x hx => hr.ids hc x (hperm.mem_iff.2 (hplace.mem_iff.1 hx))
      covers := covers_perm (hperm.trans hplace.symm) hr.covers }
  · have hplace := perm_place_append new r.entries rest
    rw [hr.table] at hnew htest hunique
    obtain ⟨hnewRow, hnewIds⟩ := fitsRow_assign h (fun hc => hkeep hc vs hv) hr hnew htest hid
    have hcovers : s.Covers (Occupied.release r.occupied e.cells) (r.entries ++ rest) :=
      covers_release hkeys (covers_perm hperm hr.covers)
    have hnewKeys := ne_of_tests hcovers (fun x hx => hrows x (by simp [hx])) hnewRow hnewIds
      hunique
    exact {
      table := hr.table
      sorted := pairwise_place hr.sorted fun x hx => hnewIds x (by simp [hx])
      rows := fun x hx => by
        rcases List.mem_cons.1 (hplace.mem_iff.1 hx) with rfl | hx
        · exact hnewRow
        · exact hrows x (by simp [hx])
      distinct := hplace.symm.pairwise (List.pairwise_cons.2 ⟨hnewKeys, hdistinct⟩) Ne.symm
      ids_ne := hplace.symm.pairwise
        (List.pairwise_cons.2 ⟨fun x hx => Ne.symm (hnewIds x hx), hids⟩) Ne.symm
      ids := fun hc x hx => by
        have hin := hr.ids hc
        dsimp only
        split
        · rename_i hsame
          rcases List.mem_cons.1 (hplace.mem_iff.1 hx) with rfl | hx
          · rw [hsame]
            exact hin e (by simp)
          · exact hin x (hperm.mem_iff.2 (by simp [hx]))
        · rw [Std.HashSet.contains_insert, Std.HashSet.contains_erase]
          rcases List.mem_cons.1 (hplace.mem_iff.1 hx) with rfl | hx
          · simp
          · simp [hin x (hperm.mem_iff.2 (by simp [hx])), hne x hx]
      covers := covers_perm hplace.symm (covers_occupy hcovers) }

theorem foldl_insert_id {es : List Entry} {set : Std.HashSet Int64} {k : Int64} :
    (es.foldl (fun set e => set.insert e.id) set).contains k = true ↔
      set.contains k = true ∨ ∃ e ∈ es, e.id = k := by
  induction es generalizing set with
  | nil => simp
  | cons e es ih =>
      simp only [List.foldl_cons, ih, Std.HashSet.contains_insert, Bool.or_eq_true, beq_iff_eq,
        List.mem_cons, exists_eq_or_imp]
      rw [or_assoc, or_left_comm]

theorem fits_updateAll (h : s.Fits t) {changesKey : Bool} {t' : Table} {n : Nat}
    {values : Entry → Option (List (Nat × Storage))}
    (hkeep : changesKey = false → ∀ e vs, values e = some vs → ∀ i, t.key = some i →
      i ∉ vs.map Prod.fst)
    (hu : Revision.updateAll t changesKey values = .ok (t', n)) : s.Fits t' := by
  unfold Revision.updateAll at hu
  simp only at hu
  obtain ⟨r, hr, hu⟩ := Except.bind_eq_ok_iff.1 hu
  obtain ⟨rfl, rfl⟩ := Prod.mk.inj (Except.ok.inj hu)
  have run {es : List Entry} {r r' : Revision} (hr : s.Revising t changesKey r es)
      (hrun : es.foldlM (Revision.step values) r = .ok r') :
      s.Revising t changesKey r' [] := by
    induction es generalizing r with
    | nil =>
        obtain rfl := Except.ok.inj hrun
        exact hr
    | cons e es ih =>
        rw [List.foldlM_cons] at hrun
        obtain ⟨r₁, hstep, hrun⟩ := Except.bind_eq_ok_iff.1 hrun
        exact ih (revising_step h (fun hc => hkeep hc e) hr hstep) hrun
  have hperm : t.entries.reverse.Perm t.entries := List.reverse_perm _
  have hdone := run {
    table := rfl
    sorted := .nil
    rows := fun e he => h.rows e (hperm.mem_iff.1 he)
    distinct := hperm.symm.pairwise h.distinct Ne.symm
    ids_ne := hperm.symm.pairwise (h.sorted.imp fun hlt => (Int64.ne_of_lt hlt).symm) Ne.symm
    ids := fun hc e he => by
      rw [hc, if_pos rfl]
      exact foldl_insert_id.2 (.inr ⟨e, hperm.mem_iff.1 he, rfl⟩)
    covers := covers_perm hperm.symm (covers_ofTable h) } hr
  exact {
    columns := h.columns
    names_nodup := h.names_nodup
    key := h.key
    unique := h.unique
    checks := h.checks
    references := h.references
    sorted := hdone.sorted
    rows := fun e he => hdone.rows e (by simpa using he)
    distinct := by simpa using hdone.distinct }

/-! ## All states -/

theorem fits_filter (h : s.Fits t) (p : Entry → Bool) :
    s.Fits { t with entries := t.entries.filter p } where
  columns := h.columns
  names_nodup := h.names_nodup
  key := h.key
  unique := h.unique
  checks := h.checks
  references := h.references
  sorted := h.sorted.filter p
  rows e he := h.rows e (List.mem_of_mem_filter he)
  distinct := h.distinct.filter p

theorem isSound_of_prepare {ctx : Context} {statement : Sql.Statement} {p : Prepared}
    (h : prepare ctx statement = .ok p) (hb : p ≠ .begin) (hc : p ≠ .commit)
    (hr : p ≠ .rollback) : p.IsSound := by
  refine isSound_prepare ctx ?_ ?_ ?_ p h
  · rintro rfl
    exact hb (Except.ok.inj h).symm
  · rintro rfl
    exact hc (Except.ok.inj h).symm
  · rintro rfl
    exact hr (Except.ok.inj h).symm

/-- Every state of the table of a schema fits the schema. -/
theorem fits_of_tableState (h : s.TableState t) : s.Fits t := by
  induction h with
  | created h => exact fits_created h
  | inserted _ hp hi ih =>
      refine fits_insertAll ih (covers_ofTable ih) ?_ hi
      exact isSound_of_prepare hp nofun nofun nofun
  | updated _ hp hu ih =>
      exact fits_updateAll ih (isSound_of_prepare hp nofun nofun nofun) hu
  | deleted _ _ ih => exact fits_filter ih _

/-- A table has a name of its own and perhaps one of a database. -/
theorem length_parts_of_tableState (h : s.TableState t) : s.table.parts.length ≤ 2 := by
  induction h with
  | created h =>
      change prepareCreate _ true s.table.allQuoted (s.fields.map s.columnDef) = _ at h
      obtain ⟨_, hname, -⟩ := Except.bind_eq_ok_iff.1 h
      have hlen : s.table.allQuoted.parts.length = s.table.parts.length := by
        simp [Identifier.allQuoted]
      unfold newName at hname
      split at hname
      · rename_i hparts
        simp [← hlen, hparts]
      · rename_i hparts
        simp [← hlen, hparts]
      · simp at hname
  | _ => assumption

end StagedStore.Schema
