import StagedStore.Proofs.Filter.Read
import StagedStore.Proofs.Sql.Written
import StagedStore.Proofs.Update.Tuples
import StagedStore.Proofs.Update.Written

/-!
# Cells chosen by key

One expression under a column serves all rows of a query. Its arms tell the rows apart by the
literals of their keys, so on the pair of a planned row and an origin row it comes to what the
planned row's own cell says, whatever the cells of the other rows are.
-/

namespace StagedStore

open Memory Sql

/-! ## Literals -/

namespace Sql.Expr

/-- The texts of the literals in an expression. -/
def literals (x : Expr) : List String :=
  x.leaves.filterMap fun
    | .literal v => some v.literal
    | _ => none

/-- The arms that an expression chooses among. -/
def arms : Expr → List (Expr × Expr)
  | .choose arms _ => arms
  | _ => []

theorem literals_ofStorage (v : Storage) : (ofStorage v).literals = [v.literal] := by
  have hliteral : v.written.literal = v.literal := by
    cases v with
    | real x => by_cases hx : x.isFinite = true <;> simp [Storage.written, Storage.literal, hx]
    | _ => rfl
  rw [ofStorage_eq, ← hliteral]
  rfl

theorem literals_equal (q : Part) (name : String) (v : Storage) :
    (compare .eq (.qualified q name) (.ofStorage v)).literals = [v.literal] := by
  rw [← literals_ofStorage v]
  rfl

theorem literals_isIn (q : Part) (name : String) (vs : List Storage) :
    (inList false (.qualified q name) (vs.map .ofStorage)).literals = vs.map Storage.literal := by
  have hleaves : (inList false (.qualified q name) (vs.map .ofStorage)).literals =
      (leavesAll (vs.map .ofStorage)).filterMap fun
        | .literal v => some v.literal
        | _ => none := rfl
  rw [hleaves, leavesAll_eq, List.flatMap_map, List.filterMap_flatMap]
  change vs.flatMap (fun v => (ofStorage v).literals) = _
  simp only [literals_ofStorage]
  exact (List.map_eq_flatMap ..).symm

end Sql.Expr

/-- A real has a literal as it is written. -/
theorem Storage.isWhole_written_real (x : Binary64) : (Storage.real x).written.IsWhole := by
  by_cases hx : x.isFinite = true <;> simp [written, IsWhole, hx]

theorem Storage.IsWhole.written {v : Storage} (h : v.IsWhole) : v.written.IsWhole := by
  cases v with
  | real x => exact isWhole_written_real x
  | _ => exact h

/-! ## Arms -/

/-- How many arms wait for the key of a row with a cell: none if the cell is the value itself. -/
def Cell.arms : Cell → Nat
  | .value _ => 0
  | _ => 1

namespace Plan

variable {s : Schema} {p : Plan} {t : Table} {rows : List PlanRow} {n : String} {r : PlanRow}

theorem arms_resolveField (p : Plan) (rows : List PlanRow) (n : String) :
    (p.resolveField rows n).arms = rows.filterMap (p.incrementArm? n) ++ p.keepArms n rows := by
  rw [resolveField_eq]
  split
  · rename_i hnil
    rw [hnil]
    rfl
  · rfl

/-- Where the values of a function differ, one element at most has that of another. -/
theorem countP_of_nodup_map {α β : Type} [DecidableEq β] {f : α → β} {xs : List α}
    (hnodup : (xs.map f).Nodup) {x : α} (hx : x ∈ xs) (q : α → Bool) :
    xs.countP (fun y => f y = f x && q y) = if q x then 1 else 0 := by
  induction xs with
  | nil => cases hx
  | cons y ys ih =>
      obtain ⟨hnotMem, hrest⟩ := List.nodup_cons.1 hnodup
      rw [List.countP_cons]
      rcases List.mem_cons.1 hx with rfl | hx
      · have hnone : ys.countP (fun z => f z = f x && q z) = 0 := by
          refine List.countP_eq_zero.2 fun z hz hboth => hnotMem ?_
          rw [Bool.and_eq_true, decide_eq_true_iff] at hboth
          exact List.mem_map.2 ⟨z, hz, hboth.1⟩
        simp [hnone]
      · have hne : f y ≠ f x := fun he => hnotMem (List.mem_map.2 ⟨x, hx, he.symm⟩)
        rw [ih hrest hx]
        simp [hne]

variable (hnodup : (rows.map fun r => r.key.literal).Nodup) (hr : r ∈ rows)

include hnodup hr

/-- The key of a row stands in an arm that adds if the row increments the field. -/
theorem countP_increments :
    (rows.filterMap (p.incrementArm? n)).countP (fun a => a.1.literals.contains r.key.literal) =
      if (p.incrementArm? n r).isSome then 1 else 0 := by
  rw [List.countP_filterMap,
    ← countP_of_nodup_map hnodup hr fun u => (p.incrementArm? n u).isSome]
  refine congrArg (rows.countP ·) (funext fun u => ?_)
  unfold incrementArm?
  cases u.cell n with
  | increment a => simp [Expr.literals_equal, eq_comm]
  | _ => simp

theorem mem_untouched_iff :
    r.key.literal ∈ (rows.filterMap (untouchedCell? n)).map Storage.literal ↔
      r.cell n = .untouched := by
  rw [List.map_filterMap, List.mem_filterMap]
  constructor
  · rintro ⟨u, hu, hkey⟩
    unfold untouchedCell? at hkey
    split at hkey
    · rename_i hcell
      obtain rfl : u = r := List.inj_on_of_nodup_map hnodup hu hr (Option.some.inj hkey)
      exact hcell
    · cases hkey
  · intro hcell
    exact ⟨r, hr, by rw [untouchedCell?, hcell]; rfl⟩

/-- The key of a row stands in the arm that keeps the field if the row leaves it untouched. -/
theorem countP_keep :
    (p.keepArms n rows).countP (fun a => a.1.literals.contains r.key.literal) =
      if (untouchedKey? n r).isSome then 1 else 0 := by
  have hkeys : rows.filterMap (untouchedKey? n) =
      (rows.filterMap (untouchedCell? n)).map Expr.ofStorage := by
    rw [List.map_filterMap]
    refine List.filterMap_congr fun u _ => ?_
    unfold untouchedKey? untouchedCell?
    cases u.cell n <;> rfl
  have hsame : (untouchedKey? n r).isSome =
      ((rows.filterMap (untouchedCell? n)).map Storage.literal).contains r.key.literal := by
    rw [Bool.eq_iff_iff, List.contains_iff_mem, mem_untouched_iff hnodup hr]
    unfold untouchedKey?
    cases r.cell n <;> simp
  unfold keepArms
  rw [hkeys, hsame]
  cases rows.filterMap (untouchedCell? n) with
  | nil => rfl
  | cons k ks =>
      change [(Expr.inList false (.qualified planned p.key) ((k :: ks).map .ofStorage),
        Expr.qualified origin n)].countP _ = _
      rw [List.countP_singleton, Expr.literals_isIn]

/-- Among the conditions of a field's arms, the key of a row stands in one unless the row gives the
value itself. -/
theorem countP_arms :
    (p.resolveField rows n).arms.countP (fun a => a.1.literals.contains r.key.literal) =
      (r.cell n).arms := by
  rw [arms_resolveField, List.countP_append, countP_increments hnodup hr, countP_keep hnodup hr]
  unfold incrementArm? untouchedKey?
  cases r.cell n <;> rfl

omit hnodup hr

/-! ## Texts -/

variable {numbers : Nat → Prop}

theorem written_planned {name : String} (hname : '\x00' ∉ name.toList) :
    (Expr.qualified planned name).WrittenBy numbers Operand :=
  Expr.written_qualified (by decide) (by decide +kernel) hname

theorem written_origin {name : String} (hname : '\x00' ∉ name.toList) :
    (Expr.qualified origin name).WrittenBy numbers Operand :=
  Expr.written_qualified (by decide) (by decide +kernel) hname

theorem written_ofStorage {v : Storage} (hv : v.written.IsWhole) :
    (Expr.ofStorage v).WrittenBy numbers Operand := by
  rw [Expr.ofStorage_eq]
  exact Expr.written_literal hv

section

variable (hkeys : ∀ r ∈ rows, r.key.written.IsWhole)
  (hamounts : ∀ r ∈ rows, ∀ a, r.cell n = .increment a → a.written.IsWhole)
  (hkey : '\x00' ∉ p.key.toList) (hn : '\x00' ∉ n.toList)

include hkeys

theorem written_untouchedKeys :
    ∀ e ∈ rows.filterMap (untouchedKey? n), e.WrittenBy numbers Disjoined := by
  intro e he
  obtain ⟨u, hu, he⟩ := List.mem_filterMap.1 he
  unfold untouchedKey? at he
  split at he
  · obtain rfl := Option.some.inj he
    exact (written_ofStorage (hkeys u hu)).of_operand
  · cases he

include hamounts hkey hn

theorem written_arms {a : Expr × Expr}
    (ha : a ∈ rows.filterMap (p.incrementArm? n) ++ p.keepArms n rows) :
    a.1.WrittenBy numbers Disjoined ∧ a.2.WrittenBy numbers Disjoined := by
  rcases List.mem_append.1 ha with ha | ha
  · obtain ⟨u, hu, ha⟩ := List.mem_filterMap.1 ha
    unfold incrementArm? at ha
    split at ha
    · rename_i amount hcell
      obtain rfl := Option.some.inj ha
      exact ⟨((written_planned hkey).equal (written_ofStorage (hkeys u hu)) rfl).of_sole,
        ((written_origin hn).add (written_ofStorage (hamounts u hu amount hcell))).of_sole⟩
    · cases ha
  · unfold keepArms at ha
    split at ha
    · cases ha
    · rename_i hne
      obtain rfl := List.mem_singleton.1 ha
      refine ⟨Expr.WrittenBy.of_sole ?_, (written_origin hn).of_operand⟩
      exact (written_planned hkey).isIn (written_untouchedKeys hkeys) (fun h => hne h) false

/-- Every expression of a field is written with the tokens that it is read from. -/
theorem written_resolveField : (p.resolveField rows n).WrittenBy numbers Disjoined := by
  have helse : (Expr.qualified planned n).WrittenBy numbers Disjoined :=
    (written_planned hn).of_operand
  rw [resolveField_eq]
  split
  · exact helse
  · rename_i hne
    refine Expr.WrittenBy.of_operand (Expr.WrittenBy.choose (fun h => hne h) ?_ helse)
    exact fun a ha => written_arms hkeys hamounts hkey hn ha

end

/-! ## Pairs -/

theorem planned_written (p : Plan) (r : PlanRow) : r.written.planned p.written = r.planned p := by
  have hcells : p.fields.map (fun f => (r.written.cell f).planned) =
      p.fields.map fun f => (r.cell f).planned := by
    refine List.map_congr_left fun f _ => ?_
    rw [r.cell_written]
    cases r.cell f <;> rfl
  exact congrArg (r.key.bound :: ·) hcells

theorem mem_rows_written (h : ∀ r ∈ rows, r ∈ p.rows) :
    ∀ r ∈ rows.map PlanRow.written, r ∈ p.written.rows :=
  List.forall_mem_map.2 fun r hr => List.mem_map_of_mem (h r hr)

theorem pair_written (p : Plan) (r : PlanRow) : p.written.pair r.written = p.pair r := by
  funext e
  rw [pair, planned_written, pair]

/-- What the expression under a column of a query is. -/
structure Chooses (ctx : Context) (s : Schema) (p : Plan) (t : Table) (rows : List PlanRow)
    (i : Nat) (column : String) (x : Expr) : Prop where
  /-- Its text is read as the expression. -/
  reads : exprOfText? x.render = some x
  /-- On the pair of a planned row and an origin row it comes to what the planned row's own cell
  says: the value as it is bound, the origin row's value plus the amount as it is written, or the
  origin row's value. -/
  resolves : ∃ u, (joined ctx p t).resolve x = .ok u ∧ ∀ r ∈ rows, ∀ cell,
    (p.layout r)[i]? = some cell →
      ∀ e, u.term.eval (p.pair r e) = cell.written.resolved (s.fieldCell column e)
  /-- The literal of a planned row's key stands in the condition of one arm, and of none if the
  row's cell is a value. -/
  arms : ∀ r ∈ rows, ∀ cell, (p.layout r)[i]? = some cell →
    x.arms.countP (fun a => a.1.literals.contains r.key.literal) = cell.arms

section

variable {ε : Type} {sets : List (ChangeSet ε)} {ctx : Context}

theorem Ready.chooses_key (h : p.written.Ready s t)
    (hkey : '\x00' ∉ p.key.toList) : p.Chooses ctx s t rows 0 p.key (.qualified planned p.key) where
  reads := (written_planned hkey).of_operand.exprOfText?_render
  resolves := by
    have hres : (joined ctx p t).resolve (.qualified planned p.key) = .ok ⟨.slot 0, .none⟩ :=
      h.resolve_plannedKey
    refine ⟨_, hres, ?_⟩
    rintro r hr _ ⟨⟩ e
    rw [Term.eval, getElem?_pair_key]
    rfl
  arms := by
    rintro r hr _ ⟨⟩
    rfl

theorem Ready.chooses_field (h : p.written.Ready s t) (hrows : ∀ r ∈ rows, r ∈ p.rows)
    (hnodup : (rows.map fun r => r.key.literal).Nodup) (hkeys : ∀ r ∈ rows, r.key.written.IsWhole)
    (hamounts : ∀ r ∈ rows, ∀ a, r.cell n = .increment a → a.written.IsWhole)
    (hkey : '\x00' ∉ p.key.toList) (hn : '\x00' ∉ n.toList) {i : Nat} (hi : p.fields[i]? = some n) :
    p.Chooses ctx s t rows (i + 1) n (p.resolveField rows n) where
  reads := (written_resolveField hkeys hamounts hkey hn).exprOfText?_render
  resolves := by
    have hsub := mem_rows_written hrows
    obtain ⟨u, hu, heval⟩ := h.resolve_resolveField ctx (i := i + 1) hsub
      (List.mem_of_getElem? hi) hi
    rw [resolveField_written] at hu
    refine ⟨_, hu, fun r hr cell hcell e => ?_⟩
    obtain rfl : r.cell n = cell := by simpa [layout, hi] using hcell
    rw [heval, ← pair_written, h.evalArms_armTerms hsub (List.mem_map_of_mem hr) hi, r.cell_written]
  arms r hr cell hcell := by
    obtain rfl : r.cell n = cell := by simpa [layout, hi] using hcell
    exact countP_arms hnodup hr

/-- The query of a plan takes its columns from the pairs of its rows and the origin rows with their
keys. -/
theorem Ready.exists_source (h : p.written.Ready s t) (hkind : s.primaryKey.kind ≠ .real)
    (hrows : ∀ r ∈ rows, r ∈ p.rows) (hne : rows ≠ []) {a : Area}
    (hfind : ctx.catalog.find s.table.allQuoted = .ok (a, t))
    (hparams : ctx.params = (p.select s rows).2) :
    ∃ source, (p.select s rows).1 = .mk (p.resolved rows) (some source) none [] none ∧
      evalSource ctx source = .ok ⟨p.plannedSlots ++ t.slots "_origin",
        rows.flatMap fun r => (matching s t r).map (p.pair r)⟩ := by
  refine ⟨_, rfl, ?_⟩
  rw [← select_written] at hparams
  have hsource := h.evalSource_join (mem_rows_written hrows) (by simpa using hne) hfind
    (resolveAll_tuples hparams)
  rw [bindRows_written, List.flatMap_map] at hsource
  simp only [pair_written] at hsource
  refine hsource.trans (congrArg (fun rows => Except.ok (Relation.mk _ rows)) ?_)
  refine List.flatMap_congr fun r hr => ?_
  have hwrites := h.writes r.written (List.mem_map_of_mem (hrows r hr))
  have hkey : r.written.kept.key = r.key :=
    Storage.kept_of_notReal (Schema.store_of_writes hkind hwrites).1
  unfold matching
  rw [hkey]

theorem Compiled.isWhole_amount (h : p.Compiled s sets) (hchecked : ∀ c ∈ sets, c.Checked s)
    (hr : r ∈ p.rows) {a : Storage} (ha : r.cell n = .increment a) : a.written.IsWhole := by
  obtain ⟨c, hc, hof⟩ := h.exists_of_mem_rows hr
  rcases hof.cell n with ⟨-, hcell⟩ | ⟨d, f, hd, hf, hcell⟩
  · rw [hcell] at ha
    cases ha
  · rw [ha] at hcell
    obtain ⟨v, rfl, hv⟩ := Cell.increment_of_ofDelta hcell
    obtain ⟨-, g, hg, hcheck⟩ := (hchecked c hc).entries _ (Changes.mem_of_get? hd)
    obtain rfl := Except.ok.inj (hf.symm.trans hg)
    have hnumeric := Delta.isNumeric_of_check hcheck
    rcases Field.encode_ok hv with ⟨-, -, rfl⟩ | ⟨-, hw⟩
    · trivial
    · have hwrites := Field.writes_of_encodeKind? hw
      cases hkind : f.kind <;> rw [hkind] at hnumeric hwrites <;> try cases hnumeric
      · obtain ⟨m, rfl⟩ := hwrites
        trivial
      · obtain ⟨x, rfl⟩ := hwrites
        exact Storage.isWhole_written_real x

end

end Plan

/-! ## A row of each kind -/

namespace ThreeRows

/-- An increment, a change set without changes, and a value. -/
def kinds : List (ChangeSet Record) :=
  [⟨.integer 1, Changes.empty.increment "x" (.integer 2), .empty⟩, ⟨.integer 2, .empty, .empty⟩,
    ⟨.integer 3, Changes.empty.set "x" (.integer 9), .empty⟩]

def kindsPlan : Plan :=
  ⟨"id", ["x"], [⟨.integer 1, [("x", .increment (.integer 2))]⟩, ⟨.integer 2, []⟩,
    ⟨.integer 3, [("x", .value (.integer 9))]⟩]⟩

theorem new_kinds : ∀ c ∈ kinds, ∃ key changes item,
    ChangeSet.new schema key changes item = .ok c := by
  intro c hc
  refine ⟨c.key, c.changes, c.item, ?_⟩
  simp only [kinds, List.mem_cons, List.not_mem_nil, or_false] at hc
  rcases hc with rfl | rfl | rfl <;> rfl

theorem compile_kinds : Plan.compile schema kinds = .ok kindsPlan :=
  Plan.Compiled.compile_eq
    { key := rfl
      rows := .cons ⟨rfl, .cons ⟨rfl, _, rfl, rfl⟩ .nil⟩ (.cons ⟨rfl, .nil⟩
        (.cons ⟨rfl, .cons ⟨rfl, _, rfl, rfl⟩ .nil⟩ .nil))
      literals_nodup := by decide
      fields := by decide }

/-- The database in which the query of the plan is read. -/
def kindsContext : Context :=
  ⟨⟨[table 3 entries], []⟩, (kindsPlan.select schema kindsPlan.rows).2, 3⟩

end ThreeRows

end StagedStore
