import Mathlib.Algebra.Group.Nat.Defs
import Mathlib.Data.List.Basic
import Mathlib.Data.List.Induction
import StagedStore.Memory.Prepared
import StagedStore.Proofs.Action
import StagedStore.Proofs.Memory.Cells

/-!
# Rows

What the passes over the rows of tables give: scans, joins, new tables, insertions and updates.
A join by an index gives what comparing every pair of rows gives.
-/

namespace StagedStore.Memory

/-! ## Scans and placing -/

namespace Table

private theorem foldl_cons {α β : Type} (f : α → β) (xs : List α) (ys : List β) :
    xs.foldl (fun acc x => f x :: acc) ys = (xs.map f).reverse ++ ys := by
  induction xs generalizing ys with
  | nil => rfl
  | cons x xs ih => simp [ih]

theorem scan_eq (t : Table) : t.scan = (t.entries.map rowOf).reverse := by
  unfold scan
  rw [foldl_cons, List.append_nil]

theorem column_eq (t : Table) (i : Nat) :
    t.column i = (t.entries.map fun e => e.cells[i]?.getD .null).reverse := by
  unfold column
  rw [foldl_cons, List.append_nil]

theorem mem_scan {t : Table} {row : Array Storage} :
    row ∈ t.scan ↔ ∃ e ∈ t.entries, rowOf e = row := by
  rw [scan_eq, List.mem_reverse, List.mem_map]

theorem place_perm (e : Entry) (es : List Entry) : (place e es).Perm (e :: es) := by
  induction es with
  | nil => exact .refl _
  | cons x es ih =>
      unfold place
      split
      · exact .refl _
      · exact (ih.cons x).trans (.swap _ _ _)

/-- A row under a new largest key is put in front. -/
theorem place_eq_cons {e : Entry} {es : List Entry} (h : ∀ x ∈ es, x.id < e.id) :
    place e es = e :: es := by
  cases es with
  | nil => rfl
  | cons x es => rw [place, if_pos (h x (by simp))]

end Table

/-! ## Joins -/

/-- Affinities other than text convert each operand of a comparison by itself. -/
theorem unify_eq_forMember {f : Affinity} (hf : f ≠ .text) (a b : Storage) :
    f.unify a b = (f.forMember a, f.forMember b) := by
  unfold Affinity.unify Affinity.forMember
  cases f.isNumeric <;> simp [hf]

theorem getD_indexRows {f : Affinity} {i : Nat} {rows : List (Array Storage)} {k : Storage} :
    (indexRows f i rows).getD k [] =
      rows.filter fun row => joinKey f (row[i]?.getD .null) == k := by
  unfold indexRows
  rw [List.foldl_reverse]
  induction rows with
  | nil => simp
  | cons row rows ih =>
      simp only [List.foldr_cons, Std.HashMap.getD_insert, List.filter_cons]
      split
      · rename_i hk
        obtain rfl := eq_of_beq hk
        exact congrArg _ ih
      · exact ih

theorem equated?_eq_some {width : Nat} {t : Term} {f : Affinity} {i j : Nat}
    (h : equated? width t = some (f, i, j)) :
    f ≠ .text ∧ i < width ∧
      (t = .compare .eq f (.slot i) (.slot (width + j)) ∨
        t = .compare .eq f (.slot (width + j)) (.slot i)) := by
  unfold equated? at h
  split at h
  · rename_i g a b
    split at h
    · simp at h
    · rename_i hg
      split at h
      · rename_i hab
        simp only [Option.some.injEq, Prod.mk.injEq] at h
        obtain ⟨rfl, rfl, rfl⟩ := h
        exact ⟨hg, hab.1, .inl (by rw [Nat.add_sub_cancel' hab.2])⟩
      · split at h
        · rename_i hba
          simp only [Option.some.injEq, Prod.mk.injEq] at h
          obtain ⟨rfl, rfl, rfl⟩ := h
          exact ⟨hg, hba.1, .inr (by rw [Nat.add_sub_cancel' hba.2])⟩
        · simp at h
  · simp at h

theorem joinKey_eq_of_holds {f : Affinity} (hf : f ≠ .text) {a b : Storage}
    (h : (a.compareBy .eq f b).holds = true) : joinKey f a = joinKey f b := by
  rw [Storage.holds_compareBy_eq, unify_eq_forMember hf] at h
  exact Storage.normal_eq_of_cmp_eq h.2.2

/-- A join by an index gives what comparing every pair of rows gives. -/
theorem joinRows_eq {width : Nat} {condition : Term} {left right : List (Array Storage)}
    (hleft : ∀ l ∈ left, l.size = width) :
    joinRows width condition left right =
      left.flatMap fun l => (right.map (l ++ ·)).filter condition.holds := by
  unfold joinRows
  simp only
  split
  · rename_i f i j heq
    obtain ⟨hf, hi, hterm⟩ := equated?_eq_some heq
    refine List.flatMap_congr fun l hl => ?_
    have hsize := hleft l hl
    rw [getD_indexRows]
    have key {r : Array Storage} (hr : condition.holds (l ++ r) = true) :
        joinKey f (r[j]?.getD .null) = joinKey f (l[i]?.getD .null) := by
      have hl' : (l ++ r)[i]? = l[i]? := Array.getElem?_append_left (by omega)
      have hr' : (l ++ r)[width + j]? = r[j]? := by
        rw [Array.getElem?_append_right (by omega)]
        congr 1
        omega
      rcases hterm with rfl | rfl
      all_goals
        simp only [Term.holds, Term.eval, hl', hr'] at hr
        have := joinKey_eq_of_holds hf hr
        first | exact this | exact this.symm
    induction right with
    | nil => rfl
    | cons r right ih =>
        rw [List.filter_cons]
        by_cases hr : condition.holds (l ++ r) = true
        · rw [if_pos (by simp [key hr]), List.map_cons, List.map_cons, List.filter_cons_of_pos hr,
            List.filter_cons_of_pos hr, ih]
        · split
          · rw [List.map_cons, List.map_cons, List.filter_cons_of_neg hr,
              List.filter_cons_of_neg hr, ih]
          · rw [List.map_cons, List.filter_cons_of_neg hr, ih]
  · rfl

/-! ## New tables and insertions -/

/-- The cells of a table's rows, in no order that matters. -/
def Table.cells (t : Table) : List (Array Storage) :=
  t.entries.map Entry.cells

theorem distinctNames_eq {before names : List String} (hn : (names.map foldName).Nodup)
    (hb : ∀ n ∈ names, foldName n ∉ before) : distinctNames before names = names := by
  induction names generalizing before with
  | nil => rfl
  | cons n names ih =>
      rw [List.map_cons, List.nodup_cons] at hn
      have hnot : before.contains (foldName n) = false := by simpa using hb n (by simp)
      rw [distinctNames, hnot, ih hn.2]
      · rfl
      · intro m hm hin
        rcases List.mem_cons.1 hin with he | hin
        · exact hn.1 (he ▸ List.mem_map_of_mem hm)
        · exact hb m (by simp [hm]) hin

theorem cells_tableOfRows (name : String) (os : List Output) (rows : List (Array Storage)) :
    (tableOfRows name os rows).cells =
      (rows.map fun r => (tableOfRows name os rows).convert r.toList).reverse := by
  unfold Table.cells tableOfRows Table.convert
  simp only
  generalize List.map _ ((distinctNames [] (os.map Output.name)).zip os) = columns
  have general (es : List Entry) :
      (rows.foldl (fun es r => (⟨(es.head?.map Entry.id).getD 0 + 1,
        (columns.zipWith (fun c v => c.affinity.store v) r.toList).toArray⟩ : Entry) :: es)
          es).map Entry.cells =
        (rows.map fun r => (columns.zipWith (fun c v => c.affinity.store v) r.toList).toArray).reverse
          ++ es.map Entry.cells := by
    induction rows generalizing es with
    | nil => rfl
    | cons r rows ih => simp [ih]
  simpa using general []

/-- The rows of a result are kept under the keys 1, 2 and so on. -/
theorem ids_tableOfRows (name : String) (os : List Output) (rows : List (Array Storage)) :
    (tableOfRows name os rows).entries.map Entry.id =
      (List.range rows.length).reverse.map fun i => Int64.ofNat (i + 1) := by
  unfold tableOfRows
  dsimp only
  generalize List.map _ ((distinctNames [] (os.map Output.name)).zip os) = columns
  induction rows using List.reverseRecOn with
  | nil => rfl
  | append_singleton rows r ih =>
      rw [List.foldl_concat, List.length_append, List.length_singleton, List.range_succ,
        List.reverse_concat, List.map_cons, List.map_cons, ← ih]
      congr 1
      generalize rows.foldl _ [] = es at ih
      have hhead : (es.head?.map Entry.id).getD 0 = Int64.ofNat rows.length := by
        rw [← List.head?_map, ih]
        cases rows.length with
        | zero => rfl
        | succ n => rw [List.range_succ, List.reverse_concat, List.map_cons]; rfl
      rw [hhead, Int64.ofNat_add]
      rfl

/-- As long as there are keys for them, the rows of a result stand by descending key. -/
theorem sorted_tableOfRows {rows : List (Array Storage)} (h : rows.length < 2 ^ 63) (name : String)
    (os : List Output) :
    (tableOfRows name os rows).entries.Pairwise fun a b => b.id < a.id := by
  rw [← List.pairwise_map (f := Entry.id) (R := fun a b => b < a), ids_tableOfRows,
    List.pairwise_map, List.pairwise_reverse]
  refine List.pairwise_lt_range.imp_of_mem fun {i j} hi hj hij => ?_
  rw [List.mem_range] at hi hj
  rw [Int64.lt_iff_toInt_lt, Int64.toInt_ofNat_of_lt (by omega), Int64.toInt_ofNat_of_lt (by omega)]
  omega

namespace Insertion

theorem complete_ok {t : Table} {cells : List Storage} {e : Entry} {isGiven : Bool}
    (h : complete t cells = .ok (e, isGiven)) :
    e.cells = match t.key with
      | none => t.convert cells
      | some i => (t.convert cells).setIfInBounds i (.integer e.id) := by
  unfold complete at h
  cases hk : t.key with
  | none =>
      rw [hk] at h
      obtain ⟨k, -, h⟩ := Except.bind_eq_ok_iff.1 h
      obtain ⟨rfl, rfl⟩ := Prod.mk.inj (Except.ok.inj h)
      rfl
  | some i =>
      rw [hk] at h
      dsimp only at h
      split at h
      · obtain ⟨k, -, h⟩ := Except.bind_eq_ok_iff.1 h
        obtain ⟨rfl, rfl⟩ := Prod.mk.inj (Except.ok.inj h)
        rfl
      · split at h
        · obtain ⟨rfl, rfl⟩ := Prod.mk.inj (Except.ok.inj h)
          rfl
        · simp at h

/-- All that inserting a row does. -/
theorem insert_ok {s s' : Insertion} {cells : List Storage} (h : s.insert cells = .ok s') :
    ∃ e isGiven, complete s.table cells = .ok (e, isGiven) ∧ s.table.testRow e = .ok () ∧
      hasKey e.id s.table.entries = false ∧
      s.table.testUnique s.occupied e = .ok () ∧
      s' = ⟨{ s.table with
          entries := Table.place e s.table.entries
          sequence := max s.table.sequence e.id }, Occupied.occupy s.occupied e.cells, some e.id⟩ := by
  unfold insert at h
  simp only at h
  obtain ⟨⟨e, isGiven⟩, hc, h⟩ := Except.bind_eq_ok_iff.1 h
  obtain ⟨⟨⟩, ht, h⟩ := Except.bind_eq_ok_iff.1 h
  split at h
  · simp at h
  · rename_i hk
    obtain ⟨⟨⟩, hu, h⟩ := Except.bind_eq_ok_iff.1 h
    exact ⟨e, isGiven, hc, ht, by simpa using hk, hu, (Except.ok.inj h).symm⟩

/-- Rows that a table without a key column takes are converted and nothing else. -/
theorem cells_insertAll {s s' : Insertion} {rows : List (List Storage)}
    (hkey : s.table.key = none) (h : s.insertAll rows = (s', none)) :
    s'.table.columns = s.table.columns ∧ s'.table.name = s.table.name ∧ s'.table.key = none ∧
      s'.table.cells.Perm (s.table.cells ++ rows.map s.table.convert) := by
  induction rows generalizing s with
  | nil =>
      obtain ⟨rfl, -⟩ := Prod.mk.inj h
      exact ⟨rfl, rfl, hkey, by rw [List.map_nil, List.append_nil]⟩
  | cons cells rows ih =>
      rw [insertAll] at h
      split at h
      · rename_i s₁ hs₁
        obtain ⟨e, isGiven, hc, -, -, -, hs⟩ := insert_ok hs₁
        have he : e.cells = s.table.convert cells := by
          rw [complete_ok hc, hkey]
        have hconvert : s₁.table.convert = s.table.convert := by rw [hs]; rfl
        have hplace : s₁.table.cells.Perm (s.table.convert cells :: s.table.cells) := by
          rw [hs, ← he]
          exact (Table.place_perm e s.table.entries).map Entry.cells
        obtain ⟨hcols, hname, hkey', hperm⟩ := ih (by rw [hs]; exact hkey) h
        refine ⟨by rw [hcols, hs], by rw [hname, hs], hkey', hperm.trans ?_⟩
        rw [hconvert, List.map_cons]
        exact (hplace.append_right _).trans List.perm_middle.symm
      · simp at h

end Insertion

/-! ## Updates -/

namespace Revision

/-- Cells after assignments, as the columns store them. -/
def cellsAfter (t : Table) (values : List (Nat × Storage)) (cells : Array Storage) :
    Array Storage :=
  values.foldl (fun cells (i, v) =>
    match t.columns[i]? with
    | some c => cells.setIfInBounds i (c.affinity.store v)
    | none => cells) cells

@[simp] theorem size_cellsAfter (t : Table) (values : List (Nat × Storage))
    (cells : Array Storage) : (cellsAfter t values cells).size = cells.size := by
  unfold cellsAfter
  induction values generalizing cells with
  | nil => rfl
  | cons iv values ih =>
      obtain ⟨i, v⟩ := iv
      rw [List.foldl_cons, ih]
      dsimp only
      split
      · exact Array.size_setIfInBounds
      · rfl

theorem getElem?_cellsAfter_of_notMem {t : Table} {values : List (Nat × Storage)}
    {cells : Array Storage} {j : Nat} (h : j ∉ values.map Prod.fst) :
    (cellsAfter t values cells)[j]? = cells[j]? := by
  unfold cellsAfter
  induction values generalizing cells with
  | nil => rfl
  | cons iv values ih =>
      obtain ⟨i, v⟩ := iv
      simp only [List.map_cons, List.mem_cons, not_or] at h
      rw [List.foldl_cons, ih h.2]
      dsimp only
      split
      · exact Array.getElem?_setIfInBounds_ne (Ne.symm h.1)
      · rfl

theorem getElem?_cellsAfter_of_mem {t : Table} {values : List (Nat × Storage)}
    {cells : Array Storage} {j : Nat} {v : Storage} {c : Column}
    (hn : (values.map Prod.fst).Nodup) (hv : (j, v) ∈ values) (hc : t.columns[j]? = some c)
    (hj : j < cells.size) : (cellsAfter t values cells)[j]? = some (c.affinity.store v) := by
  induction values generalizing cells with
  | nil => simp at hv
  | cons iv values ih =>
      obtain ⟨i, w⟩ := iv
      simp only [List.map_cons, List.nodup_cons] at hn
      rcases List.mem_cons.1 hv with heq | hv
      · obtain ⟨rfl, rfl⟩ := Prod.mk.inj heq
        have hrest : (cellsAfter t values (cells.setIfInBounds j (c.affinity.store v)))[j]? = _ :=
          getElem?_cellsAfter_of_notMem hn.1
        unfold cellsAfter at hrest ⊢
        rw [List.foldl_cons]
        simp only [hc]
        rw [hrest, Array.getElem?_setIfInBounds_self_of_lt hj]
      · unfold cellsAfter at ih ⊢
        rw [List.foldl_cons]
        refine ih hn.2 hv ?_
        dsimp only
        split
        · rwa [Array.size_setIfInBounds]
        · exact hj

theorem assign_ok {t : Table} {values : List (Nat × Storage)} {e new : Entry}
    (h : assign t values e = .ok new) :
    match t.key with
    | none => new = ⟨e.id, cellsAfter t values e.cells⟩
    | some i =>
      Table.keyOfCell? ((cellsAfter t values e.cells)[i]?.getD .null) = some new.id ∧
        new.cells = (cellsAfter t values e.cells).setIfInBounds i (.integer new.id) := by
  unfold assign at h
  dsimp only at h
  cases hkey : t.key with
  | none =>
      rw [hkey] at h
      exact (Except.ok.inj h).symm
  | some i =>
      rw [hkey] at h
      dsimp only at h
      split at h
      · rename_i hk
        rw [← Except.ok.inj h]
        exact ⟨hk, rfl⟩
      · simp at h

/-- A row whose key column is not assigned keeps its key, and the assigned cells are all that
changes. -/
theorem assign_keeps {t : Table} {values : List (Nat × Storage)} {e new : Entry}
    (hkey : ∀ i, t.key = some i → e.cells[i]? = some (.integer e.id) ∧ i ∉ values.map Prod.fst)
    (h : assign t values e = .ok new) : new = ⟨e.id, cellsAfter t values e.cells⟩ := by
  have hok := assign_ok h
  cases hk : t.key with
  | none =>
      rw [hk] at hok
      exact hok
  | some i =>
      rw [hk] at hok
      obtain ⟨hcell, hnot⟩ := hkey i hk
      have hafter : (cellsAfter t values e.cells)[i]? = some (.integer e.id) := by
        rw [getElem?_cellsAfter_of_notMem hnot, hcell]
      have hid : e.id = new.id := by
        have hcell := hok.1
        rw [hafter] at hcell
        exact Option.some.inj hcell
      have hcells : new.cells = cellsAfter t values e.cells := by
        rw [hok.2, ← hid]
        apply Array.ext_getElem?
        intro j
        by_cases hj : i = j
        · rw [← hj, hafter, Array.getElem?_setIfInBounds_self_of_lt]
          exact (Array.getElem?_eq_some_iff.1 hafter).1
        · exact Array.getElem?_setIfInBounds_ne hj
      rw [← hcells, hid]

/-- All that taking over a row does. -/
theorem step_ok {values : Entry → Option (List (Nat × Storage))} {s s' : Revision} {e : Entry}
    (h : step values s e = .ok s') :
    (values e = none ∧ s' = { s with entries := Table.place e s.entries }) ∨
      ∃ vs new, values e = some vs ∧ assign s.table vs e = .ok new ∧
        s.table.testRow new = .ok () ∧
        (new.id ≠ e.id → s.ids.contains new.id = false) ∧
        s.table.testUnique (Occupied.release s.occupied e.cells) new = .ok () ∧
        s' = { s with
          occupied := Occupied.occupy (Occupied.release s.occupied e.cells) new.cells
          ids := if new.id = e.id then s.ids else (s.ids.erase e.id).insert new.id
          entries := Table.place new s.entries
          count := s.count + 1 } := by
  unfold step at h
  split at h
  · rename_i hv
    exact .inl ⟨hv, (Except.ok.inj h).symm⟩
  · rename_i vs hv
    simp only at h
    obtain ⟨new, hnew, h⟩ := Except.bind_eq_ok_iff.1 h
    obtain ⟨⟨⟩, ht, h⟩ := Except.bind_eq_ok_iff.1 h
    split at h
    · simp at h
    · rename_i hid
      obtain ⟨⟨⟩, hu, h⟩ := Except.bind_eq_ok_iff.1 h
      refine .inr ⟨vs, new, hv, hnew, ht, ?_, hu, (Except.ok.inj h).symm⟩
      intro hne
      simpa [hne] using hid

/-- A row as an update leaves it when its key stays. -/
def revised (t : Table) (values : Entry → Option (List (Nat × Storage))) (e : Entry) : Entry :=
  match values e with
  | none => e
  | some vs => ⟨e.id, cellsAfter t vs e.cells⟩

/-- Rows of ascending keys are taken over one behind the other. -/
theorem foldlM_step {t : Table} {values : Entry → Option (List (Nat × Storage))}
    {es : List Entry} {s s' : Revision} (ht : s.table = t)
    (hsorted : es.Pairwise fun a b => a.id < b.id)
    (hbelow : ∀ x ∈ s.entries, ∀ e ∈ es, x.id < e.id)
    (hkeep : ∀ e ∈ es, ∀ vs new, values e = some vs → assign t vs e = .ok new →
      new = ⟨e.id, cellsAfter t vs e.cells⟩)
    (h : es.foldlM (step values) s = .ok s') :
    s'.entries = (es.map (revised t values)).reverse ++ s.entries ∧
      s'.count = s.count + es.countP fun e => (values e).isSome := by
  induction es generalizing s with
  | nil =>
      obtain rfl := Except.ok.inj h
      exact ⟨rfl, rfl⟩
  | cons e es ih =>
      rw [List.foldlM_cons] at h
      obtain ⟨s₁, hstep, h⟩ := Except.bind_eq_ok_iff.1 h
      obtain ⟨hlt, hsorted⟩ := List.pairwise_cons.1 hsorted
      have hplace {x : Entry} (hx : x.id = e.id) : Table.place x s.entries = x :: s.entries :=
        Table.place_eq_cons fun y hy => hx ▸ hbelow y hy e (by simp)
      have hbelow₁ {x : Entry} (hx : x.id = e.id) : ∀ y ∈ x :: s.entries, ∀ e' ∈ es, y.id < e'.id := by
        intro y hy e' he'
        rcases List.mem_cons.1 hy with rfl | hy
        · exact hx ▸ hlt e' he'
        · exact hbelow y hy e' (by simp [he'])
      rcases step_ok hstep with ⟨hv, hs₁⟩ | ⟨vs, new, hv, hnew, -, -, -, hs₁⟩
      · have hrev : revised t values e = e := by simp [revised, hv]
        have hentries : s₁.entries = e :: s.entries := by rw [hs₁]; exact hplace rfl
        obtain ⟨he, hc⟩ := ih (s := s₁) (by rw [hs₁]; exact ht) hsorted
          (by rw [hentries]; exact hbelow₁ rfl) (fun e' he' => hkeep e' (by simp [he'])) h
        refine ⟨?_, ?_⟩
        · rw [he, hentries, List.map_cons, List.reverse_cons, hrev, List.append_assoc]
          rfl
        · rw [hc, List.countP_cons, hs₁, hv]
          rfl
      · have hnew := hkeep e (by simp) vs new hv (ht ▸ hnew)
        have hrev : revised t values e = new := by simp [revised, hv, hnew]
        have hid : new.id = e.id := by rw [hnew]
        have hentries : s₁.entries = new :: s.entries := by rw [hs₁]; exact hplace hid
        obtain ⟨he, hc⟩ := ih (s := s₁) (by rw [hs₁]; exact ht) hsorted
          (by rw [hentries]; exact hbelow₁ hid) (fun e' he' => hkeep e' (by simp [he'])) h
        refine ⟨?_, ?_⟩
        · rw [he, hentries, List.map_cons, List.reverse_cons, hrev, List.append_assoc]
          rfl
        · rw [hc, List.countP_cons, hs₁, hv]
          simp only [Option.isSome_some, if_true]
          omega

/-- An update that leaves keys alone changes the rows where they are. -/
theorem updateAll_ok {t t' : Table} {changesKey : Bool}
    {values : Entry → Option (List (Nat × Storage))} {n : Nat}
    (hsorted : t.entries.Pairwise fun a b => b.id < a.id)
    (hkeep : ∀ e ∈ t.entries, ∀ vs new, values e = some vs → assign t vs e = .ok new →
      new = ⟨e.id, cellsAfter t vs e.cells⟩)
    (h : updateAll t changesKey values = .ok (t', n)) :
    t' = { t with entries := t.entries.map (revised t values) } ∧
      n = t.entries.countP fun e => (values e).isSome := by
  unfold updateAll at h
  simp only at h
  obtain ⟨s, hs, h⟩ := Except.bind_eq_ok_iff.1 h
  obtain ⟨rfl, rfl⟩ := Prod.mk.inj (Except.ok.inj h)
  obtain ⟨he, hc⟩ := foldlM_step (t := t) rfl (List.pairwise_reverse.2 hsorted) (by simp)
    (fun e he => hkeep e (by simpa using he)) hs
  rw [he, hc, List.append_nil, List.map_reverse, List.reverse_reverse, List.countP_reverse,
    Nat.zero_add]
  exact ⟨rfl, rfl⟩

end Revision

/-! ## Assignments found by key -/

theorem getElem?_foldl_insert {α β : Type} (key : α → Storage) (value : α → β) (xs : List α)
    (k : Storage) :
    (∃ x ∈ xs, key x = k ∧
      (xs.foldl (fun m x => m.insert (key x) (value x)) (∅ : Std.HashMap Storage β))[k]? =
        some (value x)) ∨
    ((∀ x ∈ xs, key x ≠ k) ∧
      (xs.foldl (fun m x => m.insert (key x) (value x)) (∅ : Std.HashMap Storage β))[k]? =
        none) := by
  induction xs using List.reverseRec with
  | nil => exact .inr ⟨by simp, by simp⟩
  | append_singleton xs x ih =>
      simp only [List.foldl_append, List.foldl_cons, List.foldl_nil, Std.HashMap.getElem?_insert]
      by_cases hx : key x = k
      · exact .inl ⟨x, by simp, hx, by simp [hx]⟩
      · have hne : (key x == k) = false := beq_eq_false_iff_ne.2 hx
        rw [hne]
        simp only [Bool.false_eq_true, if_false]
        rcases ih with ⟨y, hy, hk, hget⟩ | ⟨hnone, hget⟩
        · exact .inl ⟨y, by simp [hy], hk, hget⟩
        · refine .inr ⟨?_, hget⟩
          intro y hy
          rcases List.mem_append.1 hy with hy | hy
          · exact hnone y hy
          · rw [List.mem_singleton.1 hy]
            exact hx

end StagedStore.Memory
