import StagedStore.Proofs.Update.Batch

/-!
# Plans as they are written

A real that is not finite has no literal, and null is written in its place. A plan that adds such an
amount has the statements, and does what, of the plan that adds null.
-/

namespace StagedStore

/-- The cell that the literal of a cell stands for. -/
def Storage.written : Storage → Storage
  | .real x => if x.isFinite then .real x else .null
  | v => v

theorem Sql.Expr.ofStorage_eq (v : Storage) : ofStorage v = .literal v.written := by
  cases v with
  | real x =>
      unfold ofStorage Storage.written
      dsimp only
      split <;> rfl
  | _ => rfl

theorem Storage.written_written (v : Storage) : v.written.written = v.written := by
  cases v with
  | real x =>
      unfold written
      by_cases hx : x.isFinite = true <;> simp [hx]
  | _ => rfl

/-- A cell of a plan, with the amount that is written. -/
def Cell.written : Cell → Cell
  | .increment a => .increment a.written
  | c => c

namespace PlanRow

def written (r : PlanRow) : PlanRow :=
  ⟨r.key, r.cells.map fun x => (x.1, x.2.written)⟩

theorem cell_written (r : PlanRow) (n : String) : r.written.cell n = (r.cell n).written := by
  obtain ⟨key, cells⟩ := r
  unfold cell written
  dsimp only
  induction cells with
  | nil => rfl
  | cons x cells ih =>
      rw [List.map_cons, List.lookup_cons, List.lookup_cons]
      cases n == x.1 with
      | true => rfl
      | false => exact ih

theorem incremented_written (r : PlanRow) : r.written.incremented = r.incremented := by
  unfold incremented written
  rw [List.filterMap_map]
  refine List.filterMap_congr fun x _ => ?_
  obtain ⟨n, c⟩ := x
  cases c <;> rfl

end PlanRow

namespace Plan

/-- A plan with the amounts that are written. -/
def written (p : Plan) : Plan :=
  { p with rows := p.rows.map PlanRow.written }

variable {s : Schema} {p : Plan} {rows : List PlanRow}

/-! ## The statements -/

theorem incrementArm?_written (n : String) (r : PlanRow) :
    p.written.incrementArm? n r.written = p.incrementArm? n r := by
  unfold incrementArm?
  rw [r.cell_written]
  cases r.cell n with
  | increment a =>
      simp only [Cell.written, Sql.Expr.ofStorage_eq, a.written_written]
      rfl
  | _ => rfl

theorem untouchedKey?_written (n : String) (r : PlanRow) :
    untouchedKey? n r.written = untouchedKey? n r := by
  unfold untouchedKey?
  rw [r.cell_written]
  cases r.cell n <;> rfl

theorem resolveField_written (n : String) :
    p.written.resolveField (rows.map PlanRow.written) n = p.resolveField rows n := by
  have harms : (rows.map PlanRow.written).filterMap (p.written.incrementArm? n) =
      rows.filterMap (p.incrementArm? n) := by
    rw [List.filterMap_map]
    exact List.filterMap_congr fun r _ => incrementArm?_written n r
  have hkeys : (rows.map PlanRow.written).filterMap (untouchedKey? n) =
      rows.filterMap (untouchedKey? n) := by
    rw [List.filterMap_map]
    exact List.filterMap_congr fun r _ => untouchedKey?_written n r
  unfold resolveField
  rw [harms, hkeys]
  rfl

theorem bindRow_written (r : PlanRow) : p.written.bindRow r.written = p.bindRow r := by
  have hcells : (fun n => bindCell (r.written.cell n)) = fun n => bindCell (r.cell n) := by
    funext n
    rw [r.cell_written]
    cases r.cell n <;> rfl
  unfold bindRow
  rw [hcells]
  rfl

theorem bindRows_written :
    (rows.map PlanRow.written).mapM p.written.bindRow = rows.mapM p.bindRow := by
  rw [List.mapM_map]
  congr 1
  funext r
  exact bindRow_written r

theorem select_written :
    p.written.select s (rows.map PlanRow.written) = p.select s rows := by
  have hfields : (fun n => (.expr (p.written.resolveField (rows.map PlanRow.written) n)
      (some (.quoted n)) : Sql.ResultColumn)) =
        fun n => .expr (p.resolveField rows n) (some (.quoted n)) := by
    funext n
    rw [resolveField_written]
  unfold select
  rw [bindRows_written, hfields]
  rfl

theorem chunksOf_map {α β : Type} (f : α → β) (n : Nat) (xs : List α) :
    chunksOf n (xs.map f) = (chunksOf n xs).map (List.map f) := by
  induction xs using chunksOf.induct n with
  | case1 xs h => simp [chunksOf, h]
  | case2 xs h ih =>
      rw [chunksOf.eq_def n xs, chunksOf, if_neg (by simpa using h), if_neg h, List.map_cons, ← ih,
        List.map_take, List.map_drop]

theorem chunks_written : p.written.chunks = p.chunks.map (List.map PlanRow.written) :=
  chunksOf_map ..

/-! ## The plan applied -/

section Apply

variable {σ : Type} [Connection σ] {stg : StagingTable}

theorem stage_written :
    (p.written.stage s stg : Action σ Unit) = p.stage s stg := by
  have hnext (rows : List PlanRow) :
      (p.written.stageNext s stg (rows.map PlanRow.written) : Action σ Unit) =
        p.stageNext s stg rows := by
    unfold stageNext
    rw [select_written]
  unfold stage
  rw [chunks_written]
  cases p.chunks with
  | nil => rfl
  | cons c cs =>
      rw [List.map_cons]
      dsimp only
      have hrest : (cs.map (List.map PlanRow.written)).forM (p.written.stageNext s stg) =
          (cs.forM (p.stageNext s stg) : Action σ Unit) := by
        induction cs with
        | nil => rfl
        | cons d cs ih =>
            change (p.written.stageNext s stg (d.map PlanRow.written) >>= fun _ =>
              (cs.map (List.map PlanRow.written)).forM (p.written.stageNext s stg)) = _
            rw [hnext, ih]
            rfl
      rw [select_written, hrest]

theorem returning_written : p.written.returning = p.returning := by
  unfold returning
  rw [written, List.zipIdx_map, List.foldl_map]
  simp only [Prod.map, PlanRow.incremented_written]
  rfl

theorem hasReturning_written : p.written.hasReturning = p.hasReturning := by
  unfold hasReturning
  rw [written, List.any_map]
  congr 1
  funext r
  rw [Function.comp_apply, PlanRow.incremented_written]

theorem decodeReturning_written : p.written.decodeReturning s = p.decodeReturning s := by
  funext rows
  unfold decodeReturning
  rw [returning_written]

theorem apply_written : (p.written.apply s stg : Action σ _) = p.apply s stg := by
  unfold apply
  rw [stage_written, hasReturning_written, decodeReturning_written]
  rfl

end Apply

/-- Under the amounts that are written, the plan of checked change sets is ready for every state of the
table. -/
theorem Compiled.ready_written {ε : Type} {sets : List (ChangeSet ε)}
    {t : Memory.Table}
    (h : p.Compiled s sets) (hfits : s.Fits t) (hkind : s.primaryKey.kind ≠ .real)
    (hchecked : ∀ c ∈ sets, c.Checked s) : p.written.Ready s t := by
  have hlaid := h.laid hfits hchecked
  refine Laid.ready ⟨hfits, hlaid.key, hlaid.fields_nodup, hlaid.key_notMem, hlaid.declared⟩ hkind
    ?_ ?_ ?_
  · intro r hr
    obtain ⟨q, hq, rfl⟩ := List.mem_map.1 hr
    have hwrites := h.writes hq
    exact hwrites
  · have hkeys : p.written.rows.map PlanRow.key = p.rows.map PlanRow.key := by
      rw [written, List.map_map]
      rfl
    exact hkeys ▸ h.keys_nodup
  · intro r hr n a ha
    obtain ⟨q, -, rfl⟩ := List.mem_map.1 hr
    rw [q.cell_written] at ha
    cases hc : q.cell n with
    | increment b =>
        rw [hc] at ha
        obtain rfl := Cell.increment.inj ha
        rw [Sql.Expr.ofStorage_eq, b.written_written]
    | _ =>
        rw [hc] at ha
        cases ha

end Plan

end StagedStore
