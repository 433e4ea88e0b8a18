import Mathlib.Data.List.Nodup
import StagedStore.Proofs.Action
import StagedStore.Proofs.Changes
import StagedStore.Update.Plan

/-!
# Compiled batches

What a plan keeps of the change sets that it was compiled from.  Change sets of one key are refused,
so the rows of a plan have different keys.
-/

namespace StagedStore

variable {ε : Type} {s : Schema}

/-! ## Checked changes -/

/-- What a change set is checked for when it is built. -/
structure ChangeSet.Checked (s : Schema) (c : ChangeSet ε) : Prop where
  key_ne_null : c.key.isNull = false
  entries : ∀ d ∈ c.changes.entries, d.1 ≠ s.primaryKey.name ∧
    ∃ f, s.requireField d.1 = .ok f ∧ d.2.check f = .ok ()

/-- Only fields of numbers are incremented. -/
theorem Delta.isNumeric_of_check {f : Field} {v : Value}
    (h : (Delta.increment v).check f = .ok ()) :
    f.kind.isNumeric = true := by
  cases hn : f.kind.isNumeric with
  | true => rfl
  | false =>
      rw [check, hn] at h
      cases h

theorem Changes.check_ok {c : Changes} (h : c.check s = .ok ()) : ∀ d ∈ c.entries,
    d.1 ≠ s.primaryKey.name ∧ ∃ f, s.requireField d.1 = .ok f ∧ d.2.check f = .ok () := by
  intro d hd
  have hone := Except.forM_eq_ok_iff.1 h d hd
  obtain ⟨f, hf, hone⟩ := Except.bind_eq_ok_iff.1 hone
  split at hone
  · simp at hone
  · rename_i hne
    exact ⟨hne, f, hf, hone⟩

theorem ChangeSet.checked_of_new {key : Value} {changes : Changes} {item : ε} {c : ChangeSet ε}
    (h : new s key changes item = .ok c) : c.Checked s := by
  unfold new at h
  split at h
  · simp at h
  · rename_i hnull
    obtain ⟨k, -, h⟩ := Except.bind_eq_ok_iff.1 h
    obtain ⟨⟨⟩, hcheck, h⟩ := Except.bind_eq_ok_iff.1 h
    obtain rfl := Except.ok.inj h
    exact ⟨by simpa using hnull, Changes.check_ok hcheck⟩

/-- A change set that was built stands under a key that has a storage form. -/
theorem ChangeSet.exists_encode_of_new {key : Value} {changes : Changes} {item : ε}
    {c : ChangeSet ε} (h : new s key changes item = .ok c) :
    ∃ k, s.primaryKey.encode c.key = .ok k := by
  unfold new at h
  split at h
  · simp at h
  · obtain ⟨k, hk, h⟩ := Except.bind_eq_ok_iff.1 h
    obtain ⟨⟨⟩, -, h⟩ := Except.bind_eq_ok_iff.1 h
    obtain rfl := Except.ok.inj h
    exact ⟨k, hk⟩

theorem ChangeSet.forall_checked {sets : List (ChangeSet ε)}
    (h : ∀ c ∈ sets, ∃ key changes item, new s key changes item = .ok c) :
    ∀ c ∈ sets, c.Checked s := by
  intro c hc
  obtain ⟨key, changes, item, hnew⟩ := h c hc
  exact checked_of_new hnew

theorem ChangeSet.Checked.get?_key {c : ChangeSet ε} (h : c.Checked s) :
    c.changes.get? s.primaryKey.name = none := by
  unfold Changes.get?
  rw [List.lookup_eq_none_iff]
  intro d hd
  exact bne_iff_ne.2 (h.entries d hd).1.symm

/-! ## Rows of plans -/

/-- The cell of a plan that a delta of a field is compiled to. -/
def Compiles (s : Schema) (d : String × Delta) (c : String × Cell) : Prop :=
  c.1 = d.1 ∧ ∃ f, s.requireField d.1 = .ok f ∧ Cell.ofDelta f d.2 = .ok c.2

/-- A row of a plan is that of a change set. -/
structure PlanRow.Of (s : Schema) (c : ChangeSet ε) (r : PlanRow) : Prop where
  key : s.primaryKey.encode c.key = .ok r.key
  cells : List.Forall₂ (Compiles s) c.changes.entries r.cells

theorem lookup_of_forall₂ {ds : List (String × Delta)} {cs : List (String × Cell)} (name : String)
    (h : List.Forall₂ (Compiles s) ds cs) :
    (ds.lookup name = none ∧ cs.lookup name = none) ∨
      ∃ d f c, ds.lookup name = some d ∧ s.requireField name = .ok f ∧
        Cell.ofDelta f d = .ok c ∧ cs.lookup name = some c := by
  induction h with
  | nil => exact .inl ⟨rfl, rfl⟩
  | @cons d c ds cs hdc _ ih =>
      obtain ⟨n, d⟩ := d
      obtain ⟨m, c⟩ := c
      obtain ⟨rfl, f, hf, hc⟩ := hdc
      by_cases hn : name = m
      · subst hn
        exact .inr ⟨d, f, c, by simp, hf, hc, by simp⟩
      · have hne : (name == m) = false := beq_eq_false_iff_ne.2 hn
        simp only [List.lookup_cons, hne]
        exact ih

/-- The cell of a row is compiled from the delta of its change set. -/
theorem PlanRow.Of.cell {c : ChangeSet ε} {r : PlanRow} (h : r.Of s c) (name : String) :
    (c.changes.get? name = none ∧ r.cell name = .untouched) ∨
      ∃ d f, c.changes.get? name = some d ∧ s.requireField name = .ok f ∧
        Cell.ofDelta f d = .ok (r.cell name) := by
  unfold PlanRow.cell Changes.get?
  rcases lookup_of_forall₂ name h.cells with ⟨hd, hc⟩ | ⟨d, f, x, hd, hf, hx, hc⟩
  · exact .inl ⟨hd, by rw [hc]; rfl⟩
  · exact .inr ⟨d, f, hd, hf, by rw [hc]; exact hx⟩

theorem PlanRow.Of.map_fst {c : ChangeSet ε} {r : PlanRow} (h : r.Of s c) :
    r.cells.map Prod.fst = c.changes.entries.map Prod.fst := by
  have hcells := h.cells
  generalize c.changes.entries = ds, r.cells = cs at hcells
  induction hcells with
  | nil => rfl
  | cons hd _ ih => rw [List.map_cons, List.map_cons, ih, hd.1]

theorem PlanRow.Of.incremented_eq {c : ChangeSet ε} {r : PlanRow} (h : r.Of s c) :
    r.incremented = c.changes.incremented := by
  have hcells := h.cells
  unfold PlanRow.incremented Changes.incremented
  generalize c.changes.entries = ds, r.cells = cells at hcells
  induction hcells with
  | nil => rfl
  | @cons d x ds xs hdx _ ih =>
      obtain ⟨n, d⟩ := d
      obtain ⟨m, x⟩ := x
      obtain ⟨hname, f, -, hx⟩ := hdx
      obtain rfl : m = n := hname
      rw [List.filterMap_cons, List.filterMap_cons, ih]
      cases d with
      | unset =>
          obtain rfl := Except.ok.inj hx
          rfl
      | set v =>
          obtain ⟨w, -, hx⟩ := Except.bind_eq_ok_iff.1 hx
          obtain rfl := Except.ok.inj hx
          rfl
      | increment v =>
          obtain ⟨w, -, hx⟩ := Except.bind_eq_ok_iff.1 hx
          obtain rfl := Except.ok.inj hx
          rfl

namespace Plan

theorem compileRow_ok {c : ChangeSet ε} {seen seen' : Std.HashSet String} {r : PlanRow}
    (h : compileRow s c seen = .ok (r, seen')) :
    r.Of s c ∧ seen.contains r.key.literal = false ∧ seen' = seen.insert r.key.literal := by
  unfold compileRow at h
  obtain ⟨key, hkey, h⟩ := Except.bind_eq_ok_iff.1 h
  split at h
  · simp at h
  · rename_i hseen
    obtain ⟨cells, hcells, h⟩ := Except.bind_eq_ok_iff.1 h
    obtain ⟨rfl, rfl⟩ := Prod.mk.inj (Except.ok.inj h)
    refine ⟨⟨hkey, ?_⟩, by simpa using hseen, rfl⟩
    refine (Except.mapM_eq_ok_iff.1 hcells).imp fun d x hx => ?_
    obtain ⟨f, hf, hx⟩ := Except.bind_eq_ok_iff.1 hx
    obtain ⟨cell, hcell, hx⟩ := Except.bind_eq_ok_iff.1 hx
    obtain rfl := Except.ok.inj hx
    exact ⟨rfl, f, hf, hcell⟩

theorem compileRows_ok {sets : List (ChangeSet ε)} {seen seen' : Std.HashSet String}
    {rows : List PlanRow} (h : (sets.mapM (compileRow s)).run seen = .ok (rows, seen')) :
    List.Forall₂ (fun c r => r.Of s c) sets rows ∧
      (∀ r ∈ rows, seen.contains r.key.literal = false) ∧
      (rows.map fun r => r.key.literal).Nodup := by
  induction sets generalizing seen seen' rows with
  | nil =>
      obtain ⟨rfl, -⟩ := Prod.mk.inj (Except.ok.inj h)
      exact ⟨.nil, by simp, .nil⟩
  | cons c sets ih =>
      rw [List.mapM_cons, StateT.run_bind] at h
      obtain ⟨⟨r, seen₁⟩, hr, h⟩ := Except.bind_eq_ok_iff.1 h
      rw [StateT.run_bind] at h
      obtain ⟨⟨rs, seen₂⟩, hrs, h⟩ := Except.bind_eq_ok_iff.1 h
      obtain ⟨rfl, -⟩ := Prod.mk.inj (Except.ok.inj h)
      obtain ⟨hof, hseen, rfl⟩ := compileRow_ok hr
      obtain ⟨hall, hnew, hnodup⟩ := ih hrs
      simp only [Std.HashSet.contains_insert, Bool.or_eq_false_iff, beq_eq_false_iff_ne] at hnew
      refine ⟨.cons hof hall, ?_, ?_⟩
      · intro x hx
        rcases List.mem_cons.1 hx with rfl | hx
        · exact hseen
        · exact (hnew x hx).2
      · rw [List.map_cons, List.nodup_cons]
        refine ⟨?_, hnodup⟩
        intro hm
        obtain ⟨x, hx, hkey⟩ := List.mem_map.1 hm
        exact (hnew x hx).1 hkey.symm

/-- Fields are met in the order in which the rows mention them. -/
theorem touchedBy_eq (xs : List String) (rows : List PlanRow) :
    touchedBy xs.eraseDups.reverse rows =
      (xs ++ rows.flatMap fun r => r.cells.map Prod.fst).eraseDups := by
  induction rows generalizing xs with
  | nil => rw [touchedBy, List.reverse_reverse, List.flatMap_nil, List.append_nil]
  | cons r rows ih =>
      have hmet := foldl_met_eq xs (r.cells.map Prod.fst)
      rw [List.foldl_map] at hmet
      rw [touchedBy, hmet, ih, List.flatMap_cons, List.append_assoc]

/-- A plan is made of its change sets' rows, under different keys, and of the fields they touch. -/
structure Compiled (s : Schema) (sets : List (ChangeSet ε)) (p : Plan) : Prop where
  key : p.key = s.primaryKey.name
  rows : List.Forall₂ (fun c r => r.Of s c) sets p.rows
  literals_nodup : (p.rows.map fun r => r.key.literal).Nodup
  fields : p.fields = (p.rows.flatMap fun r => r.cells.map Prod.fst).eraseDups

variable {sets : List (ChangeSet ε)} {p : Plan}

theorem Compiled.keys_nodup (h : p.Compiled s sets) : (p.rows.map PlanRow.key).Nodup := by
  refine List.Nodup.of_map Storage.literal ?_
  rw [List.map_map]
  exact h.literals_nodup

theorem Compiled.fields_nodup (h : p.Compiled s sets) : p.fields.Nodup :=
  h.fields ▸ nodup_eraseDups _

theorem Compiled.mem_fields (h : p.Compiled s sets) (n : String) :
    n ∈ p.fields ↔ ∃ r ∈ p.rows, n ∈ r.cells.map Prod.fst := by
  rw [h.fields, List.mem_eraseDups, List.mem_flatMap]

theorem Compiled.exists_of_mem_rows (h : p.Compiled s sets) {r : PlanRow} (hr : r ∈ p.rows) :
    ∃ c ∈ sets, r.Of s c :=
  h.rows.exists_left hr

theorem Compiled.exists_of_mem_fields (h : p.Compiled s sets) {n : String} (hn : n ∈ p.fields) :
    ∃ c ∈ sets, ∃ d ∈ c.changes.entries, d.1 = n := by
  obtain ⟨r, hr, hin⟩ := (h.mem_fields n).1 hn
  obtain ⟨c, hc, hof⟩ := h.exists_of_mem_rows hr
  rw [hof.map_fst] at hin
  obtain ⟨d, hd, rfl⟩ := List.mem_map.1 hin
  exact ⟨c, hc, d, hd, rfl⟩

theorem compiled_of_compile (h : compile s sets = .ok p) : p.Compiled s sets := by
  obtain ⟨⟨rows, seen⟩, hrows, h⟩ := Except.bind_eq_ok_iff.1 h
  obtain rfl := Except.ok.inj h
  obtain ⟨hall, -, hnodup⟩ := compileRows_ok hrows
  exact ⟨rfl, hall, hnodup, touchedBy_eq [] rows⟩

theorem compileRow_eq {c : ChangeSet ε} {r : PlanRow} {seen : Std.HashSet String} (h : r.Of s c)
    (hseen : seen.contains r.key.literal = false) :
    compileRow s c seen = .ok (r, seen.insert r.key.literal) := by
  unfold compileRow
  refine Except.bind_eq_ok_iff.2 ⟨r.key, h.key, ?_⟩
  rw [if_neg (by simp [hseen])]
  refine Except.bind_eq_ok_iff.2 ⟨r.cells, Except.mapM_eq_ok (h.cells.imp ?_), rfl⟩
  rintro ⟨n, d⟩ ⟨m, x⟩ ⟨rfl, f, hf, hx⟩
  dsimp only at hf hx ⊢
  rw [hf, Except.ok_bind, hx]
  rfl

theorem compileRows_eq {rows : List PlanRow} {seen : Std.HashSet String}
    (h : List.Forall₂ (fun c r => r.Of s c) sets rows)
    (hseen : ∀ r ∈ rows, seen.contains r.key.literal = false)
    (hnodup : (rows.map fun r => r.key.literal).Nodup) :
    ∃ seen', (sets.mapM (compileRow s)).run seen = .ok (rows, seen') := by
  induction h generalizing seen with
  | nil => exact ⟨seen, rfl⟩
  | @cons c r sets rows hof _ ih =>
      obtain ⟨hnotMem, hrest⟩ := List.nodup_cons.1 hnodup
      have hnew : ∀ u ∈ rows, (seen.insert r.key.literal).contains u.key.literal = false := by
        intro u hu
        rw [Std.HashSet.contains_insert, Bool.or_eq_false_iff, beq_eq_false_iff_ne]
        exact ⟨fun he => hnotMem (List.mem_map.2 ⟨u, hu, he.symm⟩), hseen u (by simp [hu])⟩
      obtain ⟨seen', hrun⟩ := ih hnew hrest
      refine ⟨seen', ?_⟩
      rw [List.mapM_cons, StateT.run_bind]
      change compileRow s c seen >>= _ = _
      rw [compileRow_eq hof (hseen r (by simp)), Except.ok_bind, StateT.run_bind, hrun]
      rfl

/-- Compilation gives the only plan that is made of the change sets. -/
theorem Compiled.compile_eq (h : p.Compiled s sets) : compile s sets = .ok p := by
  obtain ⟨seen, hrun⟩ : ∃ seen, (sets.mapM (compileRow s)).run {} = .ok (p.rows, seen) :=
    compileRows_eq h.rows (fun _ _ => Std.HashSet.contains_empty) h.literals_nodup
  have hfields : touchedBy [] p.rows = p.fields := (touchedBy_eq [] p.rows).trans h.fields.symm
  unfold compile
  rw [hrun, Except.ok_bind]
  change Except.ok (Plan.mk s.primaryKey.name (touchedBy [] p.rows) p.rows) = _
  rw [hfields, ← h.key]

theorem compile_one {c : ChangeSet ε} {r : PlanRow} (h : r.Of s c) :
    compile s [c] = .ok ⟨s.primaryKey.name, (r.cells.map Prod.fst).eraseDups, [r]⟩ :=
  Compiled.compile_eq ⟨rfl, .cons h .nil, List.nodup_singleton _, by simp⟩

end Plan

end StagedStore
