import StagedStore.Proofs.Pool.Transaction
import StagedStore.Store.Basic

/-!
# Steady operations

What a pool does besides handing out leases, taking them back and closing leaves two things as they
were: how many leases are out, and whether the database is closed.  This holds of every operation
whether it succeeds or fails, so it is stated of the state an operation leaves and not of its result.
-/

namespace StagedStore

variable {δ ε α β : Type}

namespace Pool

/-- As many leases are out, and the database is open if it was. -/
structure Steady (p p' : Pool δ) : Prop where
  active : p'.active = p.active
  isClosed : p'.isClosed = p.isClosed

theorem Steady.refl (p : Pool δ) : Steady p p :=
  ⟨rfl, rfl⟩

theorem Steady.trans {p q r : Pool δ} (h : Steady p q) (h' : Steady q r) : Steady p r :=
  ⟨h'.active.trans h.active, h'.isClosed.trans h.isClosed⟩

theorem steady_note (e : Event) (p : Pool δ) : Steady p (p.note e) :=
  ⟨rfl, rfl⟩

/-- An operation that leaves every pool steady. -/
def Steadily (f : Action (Pool δ) α) : Prop :=
  ∀ p, Steady p (outcome f p).2

theorem steadily_pure (a : α) : Steadily (pure a : Action (Pool δ) α) :=
  fun p => .refl p

theorem steadily_ofExcept (r : Except Error α) :
    Steadily (Action.ofExcept r : Action (Pool δ) α) :=
  fun p => .refl p

theorem steadily_report (e : Event) : Steadily (report e : Action (Pool δ) Unit) :=
  fun p => steady_note e p

theorem Steadily.bind {f : Action (Pool δ) α} {g : α → Action (Pool δ) β} (hf : Steadily f)
    (hg : ∀ a, Steadily (g a)) : Steadily (f >>= g) := by
  intro p
  have hfirst := hf p
  rw [Action.outcome_bind]
  rcases hout : outcome f p with ⟨_ | a, q⟩
  · rw [hout] at hfirst
    exact hfirst
  · rw [hout] at hfirst
    exact hfirst.trans (hg a q)

variable [Database δ]

theorem steadily_transaction (f : Action (Session δ) α) : Steadily (transaction f) := by
  intro p
  rw [outcome_transaction]
  split
  · exact .refl p
  · rename_i d hd
    refine ⟨rfl, ?_⟩
    simp [isClosed, hd]

/-! ## Operations under a lease of their own -/

/-- A lease for one operation is back when the operation ends. -/
theorem steadily_withLease (f : Action (Session δ) α) : Steadily (withLease f) := by
  intro p
  rw [outcome_withLease]
  cases hclosed : p.isClosed with
  | true => exact .refl p
  | false =>
      have hsteady := steadily_transaction f
        ({ p with active := p.active + 1 }.note (.acquired (p.active + 1)))
      refine ⟨?_, hsteady.isClosed⟩
      change (outcome (transaction f) _).2.active - 1 = p.active
      rw [hsteady.active]
      rfl

theorem steadily_patch (s : Schema) (t : StagingTable) (f : Filter) (c : Changes)
    (returning : List String) : Steadily (patch s t f c returning : Action (Pool δ) Patched) :=
  (steadily_ofExcept _).bind fun plan => (steadily_withLease (plan.apply s t)).bind fun _ =>
    (steadily_report _).bind fun _ => steadily_pure _

theorem steadily_delete (s : Schema) (t : StagingTable) (f : Filter) :
    Steadily (delete s t f : Action (Pool δ) Deleted) :=
  (steadily_ofExcept _).bind fun _ => steadily_withLease _

theorem steadily_count (s : Schema) (f : Filter) :
    Steadily (count s f : Action (Pool δ) UInt64) :=
  (steadily_ofExcept _).bind fun _ => (steadily_withLease _).bind fun _ =>
    (steadily_ofExcept _).bind fun _ => steadily_pure _

theorem steadily_find (s : Schema) (f : Filter) :
    Steadily (find s f : Action (Pool δ) (List Record)) :=
  (steadily_ofExcept _).bind fun _ => (steadily_withLease _).bind fun _ => steadily_ofExcept _

/-! ## Operations under a lease of the caller's -/

theorem steadily_removeChunks (s : Schema) (t : StagingTable) (chunks : List (List Value)) :
    ∀ done, Steadily (removeChunks s t done chunks : Action (Pool δ) Deleted) := by
  induction chunks with
  | nil => exact fun done => steadily_pure done
  | cons keys rest ih =>
      exact fun done => (steadily_ofExcept _).bind fun _ =>
        (steadily_transaction _).bind fun part => ih (done.append part)

variable [Entity ε]

theorem steadily_remove (s : Schema) (t : StagingTable) (items : List ε) :
    Steadily (remove s t items : Action (Pool δ) Deleted) :=
  (steadily_ofExcept _).bind fun _ => steadily_removeChunks s t _ _

theorem steady_insert (s : Schema) (items : List ε) (p : Pool δ) :
    Steady p (insert s items p).2 := by
  unfold insert
  split
  · exact .refl p
  · split
    · exact .refl p
    · rename_i i _
      have hsteady := steadily_transaction (i.insertAll s) p
      unfold outcome at hsteady
      split
      · rename_i hrun
        rw [hrun] at hsteady
        exact hsteady
      · rename_i hrun
        rw [hrun] at hsteady
        split
        · exact hsteady
        · exact hsteady.trans (steady_note _ _)

theorem steady_populate (s : Schema) (items : List ε) (p : Pool δ) :
    Steady p (populate s items p).2 := by
  unfold populate
  split
  · exact .refl p
  · have hsteady := steadily_transaction (Connection.lastInsertedKey (σ := Session δ)) p
    unfold outcome at hsteady
    split
    all_goals
      rename_i hrun
      rw [hrun] at hsteady
      exact hsteady

theorem steady_update (s : Schema) (t : StagingTable) (sets : List (ChangeSet ε)) (p : Pool δ) :
    Steady p (update s t sets p).2 := by
  unfold update
  dsimp only
  split
  · exact .refl p
  · split
    · exact .refl p
    · rename_i plan _ _
      have hsteady := steadily_transaction (plan.apply s t) p
      unfold outcome at hsteady
      split
      all_goals
        rename_i hrun
        rw [hrun] at hsteady
        exact hsteady

end Pool

end StagedStore
