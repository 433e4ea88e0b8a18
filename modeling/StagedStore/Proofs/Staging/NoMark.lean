import StagedStore.Proofs.Memory.Transaction
import StagedStore.Proofs.Recovery.Removal
import StagedStore.Proofs.Staging.Leftover
import StagedStore.Proofs.Store.Agreement

/-!
# Staging tables leave no mark

Runs of updates, patches, deletions and removals that share one staging table, of any tables and in
any order.  A call that succeeds leaves no staging table, a call that fails before its first commit
leaves every table as it was, and what is left under the name beforehand changes no answer, no
entity and no other table.  Nothing is asked of the names of the entities' tables.
-/

namespace StagedStore

open Memory

/-! ## Calls -/

/-- A call that goes through the staging table.  Entities of several tables are of one type here. -/
inductive StagedCall (ε : Type) where
  | update (s : Schema) (sets : List (ChangeSet ε))
  | patch (s : Schema) (f : Filter) (c : Changes) (returning : List String)
  | delete (s : Schema) (f : Filter)
  | remove (s : Schema) (items : List ε)

/-- What a call gives.  Only an update writes to its entities. -/
inductive Answer (ε : Type) where
  | updated (b : Batch ε Nat)
  | patched (r : Except Error Patched)
  | deleted (r : Except Error Deleted)

/-- Whether a call has succeeded. -/
def Answer.isOk {ε : Type} : Answer ε → Bool
  | .updated b => b.result.isOk
  | .patched r => r.isOk
  | .deleted r => r.isOk

namespace StagedCall

variable {ε δ : Type} [Entity ε] [Database δ]

def run (t : StagingTable) (p : Pool δ) : StagedCall ε → Answer ε × Pool δ
  | update s sets => (Pool.update s t sets p).map .updated id
  | patch s f c returning => (outcome (Pool.patch s t f c returning) p).map .patched id
  | delete s f => (outcome (Pool.delete s t f) p).map .deleted id
  | remove s items => (outcome (Pool.remove s t items) p).map .deleted id

/-- Run calls one after the other. -/
def runAll (t : StagingTable) (p : Pool δ) : List (StagedCall ε) → List (Answer ε) × Pool δ
  | [] => ([], p)
  | c :: cs =>
    let (a, p) := c.run t p
    let (as, p) := runAll t p cs
    (a :: as, p)

/-- What a call does in its first transaction, if it comes to one. -/
inductive Opens (t : StagingTable) : StagedCall ε → {α : Type} → Action (Session δ) α → Prop
  | update {s : Schema} {sets : List (ChangeSet ε)} {plan : Plan}
      (hplan : Plan.compile s sets = .ok plan) (hnoop : plan.isNoop = false) :
      Opens t (.update s sets) (plan.apply s t)
  | patch {s : Schema} {f : Filter} {c : Changes} {returning : List String} {plan : PatchPlan}
      (hplan : PatchPlan.compile s f c returning = .ok plan) :
      Opens t (.patch s f c returning) (plan.apply s t)
  | delete {s : Schema} {f : Filter} {q : Sql.Select} {params : Sql.Params}
      (hq : f.select s [s.primaryKey.name] = .ok (q, params)) :
      Opens t (.delete s f) (t.deleteSelected s q params)
  | remove {s : Schema} {items : List ε} {keys : List Value} {chunk : List Value}
      {rest : List (List Value)} {q : Sql.Select} {params : Sql.Params}
      (hkeys : keysOf s items = .ok keys) (hchunks : chunksOf Plan.maxParams keys = chunk :: rest)
      (hq : (Filter.all.isIn s.primaryKey.name chunk).select s [s.primaryKey.name] =
        .ok (q, params)) :
      Opens t (.remove s items) (t.deleteSelected s q params)

/-- The call comes to its staging table. -/
def Stages (t : StagingTable) (c : StagedCall ε) : Prop :=
  ∃ (α : Type) (f : Action (Session MemoryDatabase) α), Opens t c f

/-- The first transaction of the call is committed. -/
def Commits (t : StagingTable) (c : StagedCall ε) (p : Pool δ) : Prop :=
  ∃ (α : Type) (f : Action (Session δ) α) (a : α) (p' : Pool δ), Opens t c f ∧
    outcome (Pool.transaction f) p = (.ok a, p')

end StagedCall

/-! ## Calls that succeed -/

/-- No temporary table of the name is there. -/
def Pool.Lacks (n : String) (p : Pool MemoryDatabase) : Prop :=
  ∀ m ∈ p.database, m.catalog.findIn? .temp n = none

/-- An action that leaves no temporary table of the name when it succeeds. -/
def Clears {α : Type} (n : String) (f : Action (Session MemoryDatabase) α) : Prop :=
  ∀ s a s', outcome f s = (.ok a, s') → s'.database.catalog.findIn? .temp n = none

section Clears

variable {α β : Type} {n : String} {t : StagingTable}

/-- An action that drops the staging table and runs no statement after that. -/
theorem clears_discard_then {f : Action (Session MemoryDatabase) α}
    (h : ∀ s a s', outcome f s = (.ok a, s') → s'.database = s.database) :
    Clears t.name (t.discard >>= fun _ => f) := by
  intro s a s' hrun
  obtain ⟨⟨⟩, s₁, hdiscard, hrun⟩ := Action.outcome_bind_eq_ok_iff.1 hrun
  obtain ⟨c, hc, hdropped⟩ := StagingTable.discard_ok hdiscard
  rw [h s₁ a s' hrun, hc]
  exact hdropped.gone

theorem Clears.after {f : Action (Session MemoryDatabase) α}
    {g : α → Action (Session MemoryDatabase) β} (hg : ∀ a, Clears n (g a)) :
    Clears n (f >>= g) := by
  intro s b s' hrun
  obtain ⟨a, s₁, -, hrun⟩ := Action.outcome_bind_eq_ok_iff.1 hrun
  exact hg a s₁ b s' hrun

theorem clears_deleteSelected (s : Schema) (q : Sql.Select) (params : Sql.Params) :
    Clears t.name (t.deleteSelected s q params) := by
  refine .after fun _ => .after fun modified => .after fun rows => clears_discard_then ?_
  intro s₁ a s₂ hrun
  obtain ⟨keys, s₃, hkeys, hrun⟩ := Action.outcome_bind_eq_ok_iff.1 hrun
  obtain ⟨⟨⟩, s₄, hreport, hrun⟩ := Action.outcome_bind_eq_ok_iff.1 hrun
  obtain ⟨-, rfl⟩ := Prod.mk.inj hrun
  rw [(Session.report_ok hreport).1, (Session.ofExcept_ok hkeys).2]

theorem clears_patch (plan : PatchPlan) (s : Schema) : Clears t.name (plan.apply s t) := by
  have hrest (modified : Nat) : Clears t.name (do
      let rows ← t.readBack plan.staged
      t.discard
      return plan.report modified (← Action.ofExcept (rows.mapM (plan.decodeRow s)))) := by
    refine .after fun rows => clears_discard_then ?_
    intro s₁ a s₂ hrun
    obtain ⟨values, s₃, hvalues, hrun⟩ := Action.outcome_bind_eq_ok_iff.1 hrun
    obtain ⟨-, rfl⟩ := Prod.mk.inj hrun
    rw [(Session.ofExcept_ok hvalues).2]
  refine .after fun _ => ?_
  dsimp only
  split
  · exact .after hrest
  · exact .after hrest

theorem clears_applyPlan (plan : Plan) (s : Schema) : Clears t.name (plan.apply s t) := by
  have hrest (modified : Nat) (decoded : List WriteBack) : Clears t.name (do
      t.discard
      return (modified, decoded)) := by
    refine clears_discard_then fun s₁ a s₂ hrun => ?_
    obtain ⟨-, rfl⟩ := Prod.mk.inj hrun
    rfl
  refine .after fun _ => .after fun modified => ?_
  dsimp only
  split
  · exact .after fun _ => .after (hrest modified)
  · exact .after (hrest modified)

theorem Pool.lacks_of_transaction {f : Action (Session MemoryDatabase) α} (hf : Clears n f)
    {p p' : Pool MemoryDatabase} {a : α} (h : outcome (transaction f) p = (.ok a, p')) :
    p'.Lacks n := by
  obtain ⟨m, σ, m', -, hrun, hm', hcatalog⟩ := transaction_ok h
  intro m₁ hm₁
  obtain rfl := Option.some.inj (hm'.symm.trans hm₁)
  rw [hcatalog]
  exact hf _ _ _ hrun

theorem Pool.lacks_of_withLease {f : Action (Session MemoryDatabase) α} (hf : Clears n f)
    {p p' : Pool MemoryDatabase} {a : α} (h : outcome (withLease f) p = (.ok a, p')) :
    p'.Lacks n := by
  obtain ⟨m, σ, m', -, hrun, hm', hcatalog⟩ := withLease_ok h
  intro m₁ hm₁
  obtain rfl := Option.some.inj (hm'.symm.trans hm₁)
  rw [hcatalog]
  exact hf _ _ _ hrun

/-- Each chunk leaves no staging table. -/
theorem Pool.lacks_of_removeChunks {s : Schema} {chunks : List (List Value)} {done d : Deleted}
    {p p' : Pool MemoryDatabase} (h : outcome (removeChunks s t done chunks) p = (.ok d, p'))
    (hp : chunks = [] → p.Lacks t.name) : p'.Lacks t.name := by
  induction chunks generalizing done p with
  | nil =>
      obtain ⟨-, rfl⟩ := Prod.mk.inj h
      exact hp rfl
  | cons keys rest ih =>
      rw [removeChunks] at h
      obtain ⟨⟨q, params⟩, p₁, -, h⟩ := Action.outcome_bind_eq_ok_iff.1 h
      obtain ⟨part, p₂, hpart, h⟩ := Action.outcome_bind_eq_ok_iff.1 h
      exact ih h fun _ => lacks_of_transaction (clears_deleteSelected s q params) hpart

theorem Pool.lacks_of_patch {s : Schema} {f : Filter} {c : Changes} {returning : List String}
    {p p' : Pool MemoryDatabase} {r : Patched}
    (h : outcome (patch s t f c returning) p = (.ok r, p')) : p'.Lacks t.name := by
  obtain ⟨plan, p₁, -, h⟩ := Action.outcome_bind_eq_ok_iff.1 h
  obtain ⟨r₁, p₂, hr, h⟩ := Action.outcome_bind_eq_ok_iff.1 h
  obtain ⟨⟨⟩, p₃, hreport, h⟩ := Action.outcome_bind_eq_ok_iff.1 h
  obtain ⟨-, rfl⟩ := Prod.mk.inj h
  obtain ⟨-, rfl⟩ := Prod.mk.inj hreport
  exact fun m hm => lacks_of_withLease (clears_patch plan s) hr m hm

theorem Pool.lacks_of_delete {s : Schema} {f : Filter} {p p' : Pool MemoryDatabase} {d : Deleted}
    (h : outcome (delete s t f) p = (.ok d, p')) : p'.Lacks t.name := by
  obtain ⟨⟨q, params⟩, p₁, -, h⟩ := Action.outcome_bind_eq_ok_iff.1 h
  exact lacks_of_withLease (clears_deleteSelected s q params) h

end Clears

namespace StagedCall

section Single

variable {ε : Type} [Entity ε] {t : StagingTable} {c : StagedCall ε} {p : Pool MemoryDatabase}

/-- A call that comes to its staging table and succeeds leaves none. -/
theorem lacks_of_isOk (hstages : c.Stages t) (hok : (c.run t p).1.isOk = true) :
    (c.run t p).2.Lacks t.name := by
  obtain ⟨α, f, hopens⟩ := hstages
  cases hopens with
  | @update s sets plan hplan hnoop =>
      have hrun : (Pool.update s t sets p).1.result.isOk = true := hok
      change (Pool.update s t sets p).2.Lacks t.name
      unfold Pool.update at hrun ⊢
      simp only [hplan, hnoop, Action.run_eq, Bool.false_eq_true, if_false] at hrun ⊢
      rcases ht : outcome (Pool.transaction (plan.apply s t)) p with ⟨e | ⟨n, decoded⟩, p₁⟩
      · rw [ht] at hrun
        cases hrun
      · exact Pool.lacks_of_transaction (clears_applyPlan plan s) ht
  | @patch s f changes returning plan hplan =>
      rcases hr : outcome (Pool.patch s t f changes returning) p with ⟨e | a, p'⟩
      all_goals rw [run, hr] at hok ⊢
      · cases hok
      · exact Pool.lacks_of_patch hr
  | @delete s f q params hq =>
      rcases hr : outcome (Pool.delete s t f) p with ⟨e | a, p'⟩
      all_goals rw [run, hr] at hok ⊢
      · cases hok
      · exact Pool.lacks_of_delete hr
  | @remove s items keys chunk rest q params hkeys hchunks hq =>
      rcases hr : outcome (Pool.remove s t items) p with ⟨e | a, p'⟩
      all_goals rw [run, hr] at hok ⊢
      · cases hok
      · rw [removed_of_keysOf hkeys, hchunks] at hr
        exact Pool.lacks_of_removeChunks hr fun hnil => absurd hnil (List.cons_ne_nil _ _)

end Single

/-! ## Calls that fail -/

/-- A call that fails before its first commit leaves every table as it was. -/
theorem untouched_of_not_isOk {ε δ τ : Type} [Entity ε] [Database δ] (R : Recovery δ τ)
    {t : StagingTable} {c : StagedCall ε} {p : Pool δ} (hok : (c.run t p).1.isOk = false)
    (hcommits : ¬c.Commits t p) : Untouched R.toSnapshots p (c.run t p).2 := by
  cases c with
  | update s sets =>
      rcases hr : Pool.update s t sets p with ⟨⟨items, e | n⟩, p'⟩
      all_goals rw [run, hr] at hok ⊢
      · obtain huntouched | ⟨plan, n, decoded, hplan, ht, -⟩ :=
          update_error_cases (R := R) hr rfl
        · exact huntouched.1
        · -- The update was committed, unless its plan is not carried out at all.
          cases hnoop : plan.isNoop with
          | false => exact absurd ⟨_, _, _, p', .update hplan hnoop, ht⟩ hcommits
          | true =>
              unfold Pool.update at hr
              simp [hplan, hnoop] at hr
      · cases hok
  | patch s f changes returning =>
      rcases hr : outcome (Pool.patch s t f changes returning) p with ⟨e | a, p'⟩
      all_goals rw [run, hr] at hok ⊢
      · exact untouched_of_patch_error hr
      · cases hok
  | delete s f =>
      rcases hr : outcome (Pool.delete s t f) p with ⟨e | a, p'⟩
      all_goals rw [run, hr] at hok ⊢
      · exact untouched_of_delete_error hr
      · cases hok
  | remove s items =>
      rcases hr : outcome (Pool.remove s t items) p with ⟨e | a, p'⟩
      all_goals rw [run, hr] at hok ⊢
      · cases hkeys : keysOf s items with
        | error e' =>
            rw [Pool.remove, hkeys] at hr
            obtain ⟨-, rfl⟩ := Prod.mk.inj hr
            exact .refl _ _
        | ok keys =>
            rw [removed_of_keysOf hkeys] at hr
            cases hchunks : chunksOf Plan.maxParams keys with
            | nil =>
                rw [hchunks] at hr
                exact absurd (congrArg Prod.fst hr) (by simp [Pool.removeChunks])
            | cons chunk rest =>
                rw [hchunks, Pool.removeChunks] at hr
                rcases Action.outcome_bind_eq_error_iff.1 hr with hq | ⟨⟨q, params⟩, p₁, hq, hr⟩
                · obtain ⟨-, rfl⟩ := Prod.mk.inj hq
                  exact .refl _ _
                · obtain ⟨hselect, rfl⟩ := Prod.mk.inj hq
                  rcases Action.outcome_bind_eq_error_iff.1 hr with ht | ⟨part, p₂, ht, -⟩
                  · exact untouched_of_transaction_error
                      (fresh_deleteSelected t s q params).ordinary ht
                  · exact absurd ⟨_, _, part, p₂, .remove hkeys hchunks hselect, ht⟩ hcommits
      · cases hok

/-! ## Calls beside a leftover -/

section Leftover

variable {ε : Type} [Entity ε] {t : StagingTable} {p p' : Pool MemoryDatabase}

theorem agree_patch (h : p.Similar t.name p') (s : Schema) (f : Filter) (c : Changes)
    (returning : List String) : Agree (Pool.Similar t.name) (Pool.Similar t.name)
      (outcome (Pool.patch s t f c returning) p) (outcome (Pool.patch s t f c returning) p') := by
  refine Agree.bind (agree_of_eq h) fun plan p p' h => ?_
  refine Agree.bind (Pool.agree_withLease (fresh_patch plan s t) h) fun r p p' h => ?_
  exact Agree.bind (Pool.agree_report h _) fun _ p p' h => .ok r h

theorem agree_delete (h : p.Similar t.name p') (s : Schema) (f : Filter) :
    Agree (Pool.Similar t.name) (Pool.Similar t.name) (outcome (Pool.delete s t f) p)
      (outcome (Pool.delete s t f) p') := by
  refine Agree.bind (agree_of_eq h) fun ⟨q, params⟩ p p' h => ?_
  exact Pool.agree_withLease (fresh_deleteSelected t s q params) h

theorem agree_removeChunks (h : p.Similar t.name p') (s : Schema) (done : Deleted)
    (chunks : List (List Value)) : Agree (Pool.Similar t.name) (Pool.Similar t.name)
      (outcome (Pool.removeChunks s t done chunks) p)
      (outcome (Pool.removeChunks s t done chunks) p') := by
  induction chunks generalizing done p p' with
  | nil => exact .ok done h
  | cons keys rest ih =>
      refine Agree.bind (agree_of_eq h) fun ⟨q, params⟩ p p' h => ?_
      refine Agree.bind (Pool.agree_transaction (fresh_deleteSelected t s q params) h) ?_
      exact fun part p p' h => ih h (done.append part)

theorem agree_remove (h : p.Similar t.name p') (s : Schema) (items : List ε) :
    Agree (Pool.Similar t.name) (Pool.Similar t.name) (outcome (Pool.remove s t items) p)
      (outcome (Pool.remove s t items) p') :=
  Agree.bind (agree_of_eq h) fun _ _ _ h => agree_removeChunks h s .none _

theorem update_similar (h : p.Similar t.name p') (s : Schema) (sets : List (ChangeSet ε)) :
    (Pool.update s t sets p).1 = (Pool.update s t sets p').1 ∧
      (Pool.update s t sets p).2.Similar t.name (Pool.update s t sets p').2 := by
  unfold Pool.update
  cases hplan : Plan.compile s sets with
  | error e => exact ⟨rfl, h⟩
  | ok plan =>
      dsimp only
      cases hnoop : plan.isNoop with
      | true => exact ⟨rfl, h⟩
      | false =>
          simp only [Action.run_eq, Bool.false_eq_true, if_false]
          obtain ⟨a, q, q', hq, hq', h⟩ | ⟨e, q, q', hq, hq', h⟩ :=
            (Pool.agree_transaction (fresh_applyPlan hnoop s t) h).cases
          all_goals
            rw [hq, hq']
            exact ⟨rfl, h⟩

/-- A call does the same whatever is left under the name of its staging table. -/
theorem run_similar (h : p.Similar t.name p') (c : StagedCall ε) :
    (c.run t p).1 = (c.run t p').1 ∧ (c.run t p).2.Similar t.name (c.run t p').2 := by
  cases c with
  | update s sets =>
      obtain ⟨hb, hsimilar⟩ := update_similar h s sets
      exact ⟨congrArg Answer.updated hb, hsimilar⟩
  | patch s f changes returning =>
      have hagree := agree_patch h s f changes returning
      exact ⟨congrArg Answer.patched hagree.fst_eq, hagree.snd⟩
  | delete s f =>
      have hagree := agree_delete h s f
      exact ⟨congrArg Answer.deleted hagree.fst_eq, hagree.snd⟩
  | remove s items =>
      have hagree := agree_remove h s items
      exact ⟨congrArg Answer.deleted hagree.fst_eq, hagree.snd⟩

theorem runAll_similar (h : p.Similar t.name p') (calls : List (StagedCall ε)) :
    (runAll t p calls).1 = (runAll t p' calls).1 ∧
      (runAll t p calls).2.Similar t.name (runAll t p' calls).2 := by
  induction calls generalizing p p' with
  | nil => exact ⟨rfl, h⟩
  | cons c cs ih =>
      obtain ⟨hanswer, hpool⟩ := run_similar h c
      obtain ⟨hanswers, hpools⟩ := ih hpool
      exact ⟨congrArg₂ List.cons hanswer hanswers, hpools⟩

end Leftover

/-- Deletes the row with the largest value below a bound. -/
def deleteLargest : StagedCall Record :=
  .delete ThreeRows.schema ThreeRows.largest

/-- Deletes from a table that is not there. -/
def deleteMissing : StagedCall Record :=
  .delete Leftover.schema .all

/-- The pool of three rows with a staging table of another shape left in it. -/
def littered : Pool MemoryDatabase :=
  { ThreeRows.pool with database := ThreeRows.pool.database.map fun m =>
      { m with catalog := { m.catalog with temp := [⟨"stage", [⟨"x", .text, true⟩], none, false, [0],
        [], [], 1, [⟨1, #[.text "left"]⟩]⟩] } } }

theorem similar_littered : ThreeRows.pool.Similar "stage" littered := by
  simp [Pool.Similar, Pool.without, MemoryDatabase.without, littered, ThreeRows.pool,
    Pool.ofDatabase, Catalog.drop, Catalog.modifyArea]

theorem not_commits_deleteMissing : ¬deleteMissing.Commits Leftover.staging Leftover.pool := by
  rintro ⟨α, f, d, p', hopens, hrun⟩
  generalize hc : deleteMissing = c at hopens
  cases hopens with
  | @delete s filter q params hq =>
      obtain ⟨rfl, rfl⟩ := StagedCall.delete.inj hc
      have hfails : ((Filter.all.select Leftover.schema [Leftover.schema.primaryKey.name]).toOption.all
          fun selected => Leftover.isMissing (outcome (Pool.transaction
            (Leftover.staging.deleteSelected Leftover.schema selected.1 selected.2))
              Leftover.pool).1) = true := by decide +kernel
      rw [hq] at hfails
      simp only [Except.toOption, Option.all_some, hrun] at hfails
      cases hfails
  | _ => cases hc

end StagedCall

end StagedStore
