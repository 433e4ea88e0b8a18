import StagedStore.Connection.Scripted
import StagedStore.Proofs.Chunks
import StagedStore.Proofs.Insert.Entities
import StagedStore.Proofs.Update.Tuples

/-!
# Chunks of batches

A batch of updates and a batch of new entities are cut into chunks in the same way: no row is lost
or repeated, and no statement for more than one row has more parameters than a statement may have.
-/

namespace StagedStore

open Sql Connection

/-! ## What a connection is asked to run -/

/-- The statement of a call that runs one, and its parameters. -/
def Call.ran? : Call → Option (String × Params)
  | .run sql params => some (sql, params)
  | _ => none

namespace Scripted

variable {α β : Type}

/-- The statements that were run and their parameters, the first in front. -/
def ran (c : Scripted) : List (String × Params) :=
  c.calls.reverse.filterMap Call.ran?

/-- An action runs some statements in order: all of them when it succeeds, and otherwise those up to
the one that fails. -/
def Issues (f : Action Scripted α) (asked : List (String × Params)) : Prop :=
  ∀ c, ∃ done, (outcome f c).2.ran = c.ran ++ done ∧ done <+: asked ∧
    ∀ a, (outcome f c).1 = .ok a → done = asked

theorem issues_pure (a : α) : Issues (pure a) [] :=
  fun _ => ⟨[], (List.append_nil _).symm, List.prefix_refl _, fun _ _ => rfl⟩

theorem Issues.bind {f : Action Scripted α} {g : α → Action Scripted β}
    {asked asked' : List (String × Params)} (hf : Issues f asked) (hg : ∀ a, Issues (g a) asked') :
    Issues (f >>= g) (asked ++ asked') := by
  intro c
  obtain ⟨done, hran, hprefix, hall⟩ := hf c
  rw [Action.outcome_bind]
  cases hfirst : outcome f c with
  | mk r c₁ =>
      rw [hfirst] at hran hall
      cases r with
      | error e => exact ⟨done, hran, hprefix.trans (List.prefix_append ..), nofun⟩
      | ok a =>
          obtain rfl := hall a rfl
          obtain ⟨done', hran', hprefix', hall'⟩ := hg a c₁
          refine ⟨done ++ done', ?_, List.prefix_append_right_inj done |>.2 hprefix', ?_⟩
          · rw [hran', hran, List.append_assoc]
          · exact fun b hb => by rw [hall' b hb]

theorem Issues.bind_silent {f : Action Scripted α} {g : α → Action Scripted β}
    {asked : List (String × Params)} (hf : Issues f asked) (hg : ∀ a, Issues (g a) []) :
    Issues (f >>= g) asked := by
  have hbind := hf.bind hg
  rwa [List.append_nil] at hbind

theorem issues_silent {f : Action Scripted α} (h : ∀ c, (outcome f c).2.calls = c.calls) :
    Issues f [] :=
  fun c => ⟨[], by rw [ran, h, List.append_nil, ran], List.prefix_refl _, fun _ _ => rfl⟩

theorem issues_answer (call : Call) : Issues (answer call) call.ran?.toList := by
  intro c
  refine ⟨call.ran?.toList, ?_, List.prefix_refl _, fun _ _ => rfl⟩
  have hcalls : (outcome (answer call) c).2.calls = call :: c.calls := by
    unfold answer outcome ExceptT.run
    dsimp only
    split <;> rfl
  rw [ran, hcalls, List.reverse_cons, List.filterMap_append, ran]
  cases call <;> rfl

theorem issues_run (q : Statement) (params : Params) :
    Issues (run q params) [(q.render, params)] :=
  (issues_answer (.run q.render params)).bind_silent fun r =>
    (issues_silent fun _ => rfl).bind_silent fun _ => issues_pure r.affected

theorem issues_lastInsertedKey : Issues lastInsertedKey [] := by
  have hall : Issues (queryAll lastInsertedKeyQuery #[]) [] :=
    (issues_answer (.queryAll lastInsertedKeyQuery.render #[])).bind_silent fun r =>
      issues_pure r.rows
  have hsingle : Issues (querySingle lastInsertedKeyQuery #[]) [] :=
    hall.bind_silent fun rows => by
      cases rows with
      | nil => exact issues_silent fun _ => rfl
      | cons r rows => exact issues_pure r
  exact hsingle.bind_silent fun r => issues_silent fun _ => rfl

theorem issues_forM {γ : Type} {f : γ → Action Scripted Unit} {asked : γ → List (String × Params)}
    (h : ∀ x, Issues (f x) (asked x)) (xs : List γ) : Issues (xs.forM f) (xs.flatMap asked) := by
  induction xs with
  | nil => exact issues_pure ()
  | cons x xs ih => exact (h x).bind fun _ => ih

theorem issues_mapM {γ : Type} {f : γ → Action Scripted β} {asked : γ → List (String × Params)}
    (h : ∀ x, Issues (f x) (asked x)) (xs : List γ) : Issues (xs.mapM f) (xs.flatMap asked) := by
  induction xs with
  | nil => exact issues_pure []
  | cons x xs ih =>
      rw [List.mapM_cons, List.flatMap_cons]
      exact (h x).bind fun y => ih.bind_silent fun ys => issues_pure (y :: ys)

end Scripted

/-! ## How many parameters a chunk has -/

theorem length_bound_le {rows : List (List Cell)} {width : Nat}
    (h : ∀ r ∈ rows, r.length = width) :
    (rows.flatMap Cell.boundOf).length ≤ rows.length * width := by
  induction rows with
  | nil => simp
  | cons r rows ih =>
      obtain ⟨hr, hrows⟩ := List.forall_mem_cons.1 h
      have hbound : (Cell.boundOf r).length ≤ width := hr ▸ List.length_filterMap_le ..
      rw [List.flatMap_cons, List.length_append, List.length_cons, Nat.succ_mul, Nat.add_comm]
      exact Nat.add_le_add (ih hrows) hbound

/-- A chunk of more than one row is one that fits. -/
theorem le_maxParams_of_chunk {width n : Nat} (hn : n ≤ max (Plan.maxParams / width) 1) :
    n ≤ 1 ∨ n * width ≤ Plan.maxParams := by
  rcases Nat.le_total (Plan.maxParams / width) 1 with hone | hmany
  · exact .inl (by omega)
  · exact .inr ((Nat.mul_le_mul_right width (by omega)).trans (Nat.div_mul_le_self _ _))

theorem Chunked.fits {α : Type} {width k : Nat} {xs : List α} {ranges : List (Nat × Nat)}
    {chunks : List (List α)} (h : Chunked (max (Plan.maxParams / width) 1) xs ranges chunks)
    {r : Nat × Nat} (hr : r ∈ ranges) (hk : k ≤ (slice xs r).length * width) :
    r.2 = r.1 + 1 ∨ k ≤ Plan.maxParams := by
  have hlt := h.nonempty r hr
  have hle := h.bounded r hr
  have hbounded : r.2 - r.1 ≤ max (Plan.maxParams / width) 1 := by omega
  rw [h.length_slice hr] at hk
  rcases le_maxParams_of_chunk hbounded with hone | hmany
  · exact .inl (by omega)
  · exact .inr (hk.trans hmany)

/-! ## Batches of updates -/

namespace Plan

variable (p : Plan) (s : Schema)

theorem ranges_eq : p.ranges = rangesFrom 0 p.chunks := by
  have hfold (chunks : List (List PlanRow)) (start : Nat) (rs : List (Nat × Nat)) :
      (chunks.foldl (fun done c => (done.1 + c.length, (done.1, done.1 + c.length) :: done.2))
        (start, rs)).2.reverse = rs.reverse ++ rangesFrom start chunks := by
    induction chunks generalizing start rs with
    | nil => simp [rangesFrom]
    | cons c cs ih =>
        rw [List.foldl_cons, ih, rangesFrom, List.reverse_cons, List.append_assoc]
        rfl
  exact hfold p.chunks 0 []

theorem chunked : Chunked p.chunkSize p.rows p.ranges p.chunks := by
  rw [ranges_eq]
  exact chunked_chunksOf p.chunkSize_ne_zero p.rows

theorem size_select_le (rows : List PlanRow) :
    (p.select s rows).2.size ≤ rows.length * p.columns.length := by
  have hwidth : ∀ r ∈ p.laidOut rows, r.length = p.columns.length :=
    List.forall_mem_map.2 fun r _ => by simp [layout, columns]
  have hle := length_bound_le hwidth
  rw [select_eq]
  rwa [laidOut, List.length_map] at hle

end Plan

/-! ## Batches of new entities -/

namespace Inserts

variable (i : Inserts) (s : Schema)

/-- The statements that insert some rows: one for all of them, or one for each where nothing but a
key is stored. -/
def asked (rows : List (List Storage)) : List (String × Params) :=
  if i.fields.isEmpty then
    rows.map fun _ => ((Statement.insertDefault s.table.allQuoted).render, #[])
  else [((statement s i.fields rows).1.render, (statement s i.fields rows).2)]

theorem issues_insertRows (rows : List (List Storage)) :
    Scripted.Issues (insertRows s i.fields rows) (i.asked s rows) := by
  unfold insertRows asked
  split
  · have hone (row : List Storage) : Scripted.Issues
        (do let _ ← run (.insertDefault s.table.allQuoted) #[])
        [((Statement.insertDefault s.table.allQuoted).render, #[])] :=
      (Scripted.issues_run _ _).bind_silent fun _ => Scripted.issues_pure ()
    have hall := Scripted.issues_forM hone rows
    rwa [← List.map_eq_flatMap] at hall
  · exact (Scripted.issues_run _ _).bind_silent fun _ => Scripted.issues_pure ()

theorem issues_insertAll :
    Scripted.Issues (i.insertAll s) ((chunksOf i.chunkSize i.rows).flatMap (i.asked s)) := by
  have hchunk (rows : List (List Storage)) :
      Scripted.Issues (i.insertChunk s rows) (i.asked s rows) := by
    refine (i.issues_insertRows s rows).bind_silent fun _ => ?_
    split
    · exact Scripted.issues_lastInsertedKey.bind_silent fun n => Scripted.issues_pure _
    · exact Scripted.issues_pure _
  exact (Scripted.issues_mapM hchunk (chunksOf i.chunkSize i.rows)).bind_silent fun told =>
    Scripted.issues_pure (told.filterMap id)

theorem size_statement_le {rows : List (List Storage)}
    (h : ∀ r ∈ rows, r.length = i.fields.length) :
    (statement s i.fields rows).2.size ≤ rows.length * max i.fields.length 1 := by
  have hwidth : ∀ r ∈ laidOut rows, r.length = i.fields.length :=
    List.forall_mem_map.2 fun r hr => by rw [List.length_map, h r hr]
  have hle := length_bound_le hwidth
  rw [statement_eq]
  rw [laidOut, List.length_map] at hle
  exact hle.trans (Nat.mul_le_mul_left _ (Nat.le_max_left ..))

end Inserts

variable {ε : Type} [Entity ε] {items : List ε} {i : Inserts}

/-- A plan's rows and a batch of new entities are cut into chunks without loss: one chunk after the
other, each row stands in one chunk, and all chunks but the last have the same length.  A statement
for more than one row keeps within the parameters that a statement may have.  Entities are inserted
by the statements of their chunks, one after the other. -/
theorem chunks_hold_every_row (p : Plan) {s : Schema} (hi : Inserts.ofItems s items = .ok i) :
    (p.columns.length ≠ 0 ∧ p.chunkSize ≠ 0 ∧
      Chunked p.chunkSize p.rows p.ranges p.chunks ∧ (p.ranges = [] ↔ p.rows = []) ∧
      ∀ r ∈ p.ranges, r.2 = r.1 + 1 ∨ (p.select s (slice p.rows r)).2.size ≤ Plan.maxParams) ∧
    (max i.fields.length 1 ≠ 0 ∧ i.chunkSize ≠ 0 ∧
      List.Forall₂ (fun item row => List.Forall₂
        (fun f w => f.encode (Entity.fieldOrNull item f.name) = .ok w) i.fields row) items i.rows ∧
      ∃ ranges, Chunked i.chunkSize items ranges (ranges.map (slice items)) ∧
        (∀ r ∈ ranges, r.2 = r.1 + 1 ∨
          (Inserts.statement s i.fields (slice i.rows r)).2.size ≤ Plan.maxParams) ∧
        Scripted.Issues (i.insertAll s) (ranges.flatMap fun r => i.asked s (slice i.rows r))) := by
  constructor
  · have hchunked := p.chunked
    refine ⟨by simp [Plan.columns], p.chunkSize_ne_zero, hchunked, hchunked.eq_nil_iff, ?_⟩
    exact fun r hr => hchunked.fits hr (p.size_select_le s _)
  · obtain ⟨-, -, hrows⟩ := Inserts.ofItems_ok hi
    have hchunked := chunked_chunksOf i.chunkSize_ne_zero i.rows
    refine ⟨by omega, i.chunkSize_ne_zero, hrows, rangesFrom 0 (chunksOf i.chunkSize i.rows), ?_,
      fun r hr => ?_, ?_⟩
    · exact ⟨hchunked.nonempty, by rw [hchunked.covers, hrows.length_eq], hchunked.even,
        hchunked.bounded, rfl⟩
    · refine hchunked.fits hr (i.size_statement_le s fun row hrow => ?_)
      have hmem : row ∈ i.rows := List.mem_of_mem_drop (List.mem_of_mem_take hrow)
      obtain ⟨item, -, hrow⟩ := hrows.exists_left hmem
      exact hrow.length_eq.symm
    · have hissues := i.issues_insertAll s
      rw [hchunked.slices, List.flatMap_map] at hissues
      exact hissues

namespace Gap

def inserts : Inserts :=
  ⟨true, [⟨"x", .text, true⟩], [[.text "p"], [.text "q"]]⟩

theorem ofItems_records : Inserts.ofItems schema records = .ok inserts := by
  with_unfolding_all rfl

end Gap

open Gap in
/-- Two entities are inserted by one statement, whose only field leaves room for many more. -/
theorem chunks_hold_every_row_of_two :
    Inserts.ofItems schema records = .ok inserts ∧
      (∃ ranges, Chunked 32766 records ranges (ranges.map (slice records)) ∧
        Scripted.Issues (inserts.insertAll schema)
          (ranges.flatMap fun r => inserts.asked schema (slice inserts.rows r))) ∧
      Chunked 10922 Padded.plan.rows Padded.plan.ranges Padded.plan.chunks := by
  obtain ⟨⟨-, -, hplan, -⟩, -, -, -, ranges, hitems, -, hissues⟩ :=
    chunks_hold_every_row Padded.plan ofItems_records
  exact ⟨ofItems_records, ⟨ranges, hitems, hissues⟩, hplan⟩

end StagedStore
