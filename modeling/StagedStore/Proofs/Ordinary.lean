import StagedStore.Proofs.Action
import StagedStore.Sql.Leaves
import StagedStore.Store.Patch
import StagedStore.Store.Update

/-!
# Ordinary actions

An action is ordinary if none of its statements is about transactions.  All that the store does
between the begin and the end of a transaction is ordinary, and each batched write begins by
dropping what an earlier one may have left under the name of its staging table.
-/

namespace StagedStore

/-- Whether a statement may begin or end a transaction.  Text of the caller's own may. -/
def Sql.Statement.isControl : Sql.Statement → Bool
  | .begin | .commit | .rollback | .fragment _ => true
  | _ => false

/-- A script whose statements are what their trees say, none of them about transactions. -/
def Sql.Script.isOrdinary (s : Sql.Script) : Bool :=
  s.statements.all fun s => s.isPlain && !s.isControl

variable {δ α β : Type} [Database δ]

/-- The actions that do not begin or end transactions. -/
inductive Ordinary : {α : Type} → Action (Session δ) α → Prop
  | ofExcept {α : Type} (r : Except Error α) : Ordinary (Action.ofExcept r)
  | report (e : Event) : Ordinary (Connection.report e)
  | lastChanges : Ordinary Connection.lastChanges
  | exec {s : Sql.Script} (h : s.isOrdinary = true) : Ordinary (Connection.exec s)
  | run {s : Sql.Statement} (h : s.isControl = false) (params : Sql.Params) :
      Ordinary (Connection.run s params)
  | queryAll {s : Sql.Statement} (h : s.isControl = false) (params : Sql.Params) :
      Ordinary (Connection.queryAll s params)
  | bind {α β : Type} {f : Action (Session δ) α} {g : α → Action (Session δ) β} (hf : Ordinary f)
      (hg : ∀ a, Ordinary (g a)) : Ordinary (f >>= g)

theorem ordinary_pure (a : α) : Ordinary (pure a : Action (Session δ) α) :=
  .ofExcept (.ok a)

theorem ordinary_throw (e : Error) : Ordinary (throw e : Action (Session δ) α) :=
  .ofExcept (.error e)

theorem ordinary_forM {f : α → Action (Session δ) PUnit} (h : ∀ a, Ordinary (f a)) (xs : List α) :
    Ordinary (xs.forM f) := by
  induction xs with
  | nil => exact ordinary_pure _
  | cons x xs ih => exact (h x).bind fun _ => ih

theorem ordinary_mapM {f : α → Action (Session δ) β} (h : ∀ a, Ordinary (f a)) (xs : List α) :
    Ordinary (xs.mapM f) := by
  induction xs with
  | nil => exact ordinary_pure _
  | cons x xs ih =>
      rw [List.mapM_cons]
      exact (h x).bind fun y => ih.bind fun ys => ordinary_pure (y :: ys)

theorem ordinary_querySingle {s : Sql.Statement} (h : s.isControl = false) (params : Sql.Params) :
    Ordinary (Connection.querySingle s params : Action (Session δ) Row) := by
  refine (Ordinary.queryAll h params).bind fun rows => ?_
  cases rows with
  | nil => exact ordinary_throw _
  | cons r rs => exact ordinary_pure r

/-! ## Steps with a staging table -/

theorem ordinary_discard (t : StagingTable) : Ordinary (t.discard : Action (Session δ) Unit) :=
  (Ordinary.exec rfl).bind fun _ => .report _

theorem ordinary_append (t : StagingTable) (q : Sql.Query) (params : Sql.Params) :
    Ordinary (t.append q params : Action (Session δ) Nat) :=
  (Ordinary.run rfl params).bind fun _ => (Ordinary.report _).bind fun _ => ordinary_pure _

theorem ordinary_applyUpdate (t : StagingTable) (s : Schema) (fields : List String) :
    Ordinary (t.applyUpdate s fields : Action (Session δ) Nat) :=
  (Ordinary.run rfl #[]).bind fun _ => .lastChanges

theorem ordinary_applyDelete (t : StagingTable) (s : Schema) :
    Ordinary (t.applyDelete s : Action (Session δ) Nat) :=
  (Ordinary.run rfl #[]).bind fun _ => .lastChanges

theorem ordinary_readBack (t : StagingTable) (columns : List String) :
    Ordinary (t.readBack columns : Action (Session δ) (List Row)) :=
  .queryAll rfl #[]

/-! ## Insertions -/

theorem ordinary_insertRows (s : Schema) (fields : List Field) (rows : List (List Storage)) :
    Ordinary (Inserts.insertRows s fields rows : Action (Session δ) Unit) := by
  unfold Inserts.insertRows
  split
  · exact ordinary_forM (fun _ => (Ordinary.run rfl #[]).bind fun _ => ordinary_pure ()) rows
  · exact (Ordinary.run rfl _).bind fun _ => ordinary_pure ()

theorem ordinary_insertChunk (i : Inserts) (s : Schema) (rows : List (List Storage)) :
    Ordinary (i.insertChunk s rows : Action (Session δ) (Option (Nat × Int64))) := by
  refine (ordinary_insertRows s i.fields rows).bind fun _ => ?_
  split
  · exact ((ordinary_querySingle rfl #[]).bind fun _ => .ofExcept _).bind fun _ => ordinary_pure _
  · exact ordinary_pure none

theorem ordinary_insertAll (i : Inserts) (s : Schema) :
    Ordinary (i.insertAll s : Action (Session δ) (List (Nat × Int64))) :=
  (ordinary_mapM (ordinary_insertChunk i s) _).bind fun _ => ordinary_pure _

/-! ## Batched writes -/

/-- The ordinary actions that begin by dropping what is left of a staging table. -/
inductive Fresh (t : StagingTable) : {α : Type} → Action (Session δ) α → Prop
  | discard : Fresh t t.discard
  | bind {α β : Type} {f : Action (Session δ) α} {g : α → Action (Session δ) β} (hf : Fresh t f)
      (hg : ∀ a, Ordinary (g a)) : Fresh t (f >>= g)

theorem Fresh.ordinary {t : StagingTable} {f : Action (Session δ) α} (h : Fresh t f) :
    Ordinary f := by
  induction h with
  | discard => exact ordinary_discard t
  | bind _ hg ih => exact ih.bind hg

theorem fresh_create (t : StagingTable) (q : Sql.Query) (params : Sql.Params) :
    Fresh t (t.create q params : Action (Session δ) UInt64) :=
  Fresh.discard.bind fun _ => (Ordinary.run rfl params).bind fun _ =>
    (ordinary_querySingle rfl #[]).bind fun _ => (Ordinary.ofExcept _).bind fun _ =>
      (Ordinary.report _).bind fun _ => ordinary_pure _

theorem fresh_deleteSelected (t : StagingTable) (s : Schema) (q : Sql.Select)
    (params : Sql.Params) : Fresh t (t.deleteSelected s q params : Action (Session δ) Deleted) :=
  (fresh_create t _ params).bind fun _ => (ordinary_applyDelete t s).bind fun _ =>
    (ordinary_readBack t _).bind fun _ => (ordinary_discard t).bind fun _ =>
      (Ordinary.ofExcept _).bind fun _ => (Ordinary.report _).bind fun _ => ordinary_pure _

theorem fresh_patch (p : PatchPlan) (s : Schema) (t : StagingTable) :
    Fresh t (p.apply s t : Action (Session δ) Patched) := by
  have hrest (modified : Nat) : Ordinary (do
      let rows ← t.readBack p.staged
      t.discard
      return p.report modified (← Action.ofExcept (rows.mapM (p.decodeRow s))) :
      Action (Session δ) Patched) :=
    (ordinary_readBack t _).bind fun _ => (ordinary_discard t).bind fun _ =>
      (Ordinary.ofExcept _).bind fun _ => ordinary_pure _
  refine (fresh_create t _ p.params).bind fun _ => ?_
  dsimp only
  split
  · exact (ordinary_pure 0).bind hrest
  · exact (ordinary_applyUpdate t s p.touched).bind hrest

theorem Plan.chunks_ne_nil {p : Plan} (h : p.isNoop = false) : p.chunks ≠ [] := by
  have hrows : p.rows ≠ [] := by
    rw [isNoop, Bool.or_eq_false_iff, List.isEmpty_eq_false_iff] at h
    exact List.isEmpty_eq_false_iff.1 h.2
  rw [chunks, chunksOf, if_neg (not_or.2 ⟨p.chunkSize_ne_zero, hrows⟩)]
  exact List.cons_ne_nil _ _

theorem fresh_stage {p : Plan} (h : p.isNoop = false) (s : Schema) (t : StagingTable) :
    Fresh t (p.stage s t : Action (Session δ) Unit) := by
  unfold Plan.stage
  split
  · rename_i hnil
    exact absurd hnil (Plan.chunks_ne_nil h)
  · exact (fresh_create t _ _).bind fun _ => ordinary_forM (fun rows =>
      (ordinary_append t _ _).bind fun _ => ordinary_pure ()) _

theorem fresh_applyPlan {p : Plan} (h : p.isNoop = false) (s : Schema) (t : StagingTable) :
    Fresh t (p.apply s t : Action (Session δ) (Nat × List WriteBack)) := by
  have hrest (modified : Nat) (decoded : List WriteBack) : Ordinary (do
      t.discard
      return (modified, decoded) : Action (Session δ) (Nat × List WriteBack)) :=
    (ordinary_discard t).bind fun _ => ordinary_pure _
  refine (fresh_stage h s t).bind fun _ => (ordinary_applyUpdate t s p.fields).bind fun n => ?_
  dsimp only
  split
  · exact (ordinary_readBack t p.columns).bind fun rows => (Ordinary.ofExcept _).bind (hrest n)
  · exact (ordinary_pure []).bind (hrest n)

end StagedStore
