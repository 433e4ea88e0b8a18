import StagedStore.Proofs.Recovery.Basic
import StagedStore.Proofs.Recovery.WriteBacks

/-!
# Failed writes

A write that ends in an error before its commit leaves no trace: every table is as it was, no entity
was written to and the count of leases is the same.  What fails after the commit can only be an
entity that refuses a value.
-/

namespace StagedStore

open Recovery

/-! ## Pools -/

section Pools

variable {δ τ α : Type}

/-- Two states of a pool between which nothing happened that a later operation could notice: all
tables are the same, and as many leases are out. -/
def Untouched (S : Snapshots δ τ) (p p' : Pool δ) : Prop :=
  p'.database.map S.tables = p.database.map S.tables ∧ p'.active = p.active

theorem Untouched.refl (S : Snapshots δ τ) (p : Pool δ) : Untouched S p p :=
  ⟨rfl, rfl⟩

variable [Database δ] {R : Recovery δ τ}

theorem untouched_of_transaction_error {f : Action (Session δ) α} (hf : Ordinary f)
    {p p' : Pool δ} {e : Error} (h : outcome (Pool.transaction f) p = (.error e, p')) :
    Untouched R.toSnapshots p p' := by
  rw [Pool.outcome_transaction] at h
  split at h
  · obtain ⟨-, rfl⟩ := Prod.mk.inj h
    exact .refl _ _
  · rename_i d hd
    obtain ⟨hr, rfl⟩ := Prod.mk.inj h
    refine ⟨?_, rfl⟩
    rw [hd, Option.map_some, Option.map_some, tables_of_transact_error (keeps_of_ordinary hf) hr]

theorem untouched_of_withLease_error {f : Action (Session δ) α} (hf : Ordinary f)
    {p p' : Pool δ} {e : Error} (h : outcome (Pool.withLease f) p = (.error e, p')) :
    Untouched R.toSnapshots p p' := by
  rw [Pool.outcome_withLease] at h
  split at h
  · obtain ⟨-, rfl⟩ := Prod.mk.inj h
    exact .refl _ _
  · obtain ⟨hr, rfl⟩ := Prod.mk.inj h
    obtain ⟨htables, hactive⟩ :=
      untouched_of_transaction_error (R := R) hf (Prod.ext hr rfl : outcome _ _ = (.error e, _))
    refine ⟨htables, ?_⟩
    change (outcome (Pool.transaction f) _).2.active - 1 = p.active
    rw [hactive]
    exact Nat.add_sub_cancel p.active 1

end Pools

/-! ## Writes to entities -/

section Writes

variable {ε δ τ : Type} [Entity ε] [Database δ]

/-- An insertion was committed, and then an entity refused its generated key. -/
def InsertRefused (s : Schema) (items : List ε) (p : Pool δ) (e : Error) : Prop :=
  RaisedByEntity ε e ∧ ∃ i lasts p₁, Inserts.ofItems s items = .ok i ∧
    outcome (Pool.transaction (i.insertAll s)) p = (.ok lasts, p₁)

/-- A batched update was committed, and then an entity refused a value read back for it. -/
def UpdateRefused (s : Schema) (t : StagingTable) (sets : List (ChangeSet ε)) (p : Pool δ)
    (e : Error) : Prop :=
  RaisedByEntity ε e ∧ ∃ plan r p₁, Plan.compile s sets = .ok plan ∧
    outcome (Pool.transaction (plan.apply s t)) p = (.ok r, p₁)

variable {R : Recovery δ τ}

/-- An insertion that ends in an error has done nothing, or it was committed and then an entity
refused its key. -/
theorem insert_error_cases {s : Schema} {items : List ε} {p p' : Pool δ} {b : Batch ε Nat}
    {e : Error} (h : Pool.insert s items p = (b, p')) (he : b.result = .error e)
    (hret : e.isReturned = true) :
    (Untouched R.toSnapshots p p' ∧ b.items = items) ∨
      ∃ i lasts, Inserts.ofItems s items = .ok i ∧
        outcome (Pool.transaction (i.insertAll s)) p = (.ok lasts, p') ∧
        Refused (keyWrites s.primaryKey.name 0 lasts) items b.items e := by
  unfold Pool.insert at h
  split at h
  · obtain ⟨rfl, rfl⟩ := Prod.mk.inj h
    exact absurd he (by simp)
  · split at h
    · obtain ⟨rfl, rfl⟩ := Prod.mk.inj h
      exact .inl ⟨.refl _ _, rfl⟩
    · rename_i i hi
      split at h
      · rename_i e' p₁ ht
        obtain ⟨rfl, rfl⟩ := Prod.mk.inj h
        exact .inl ⟨untouched_of_transaction_error (ordinary_insertAll i s) ht, rfl⟩
      · rename_i lasts p₁ ht
        split at h
        · rename_i ha
          obtain ⟨rfl, rfl⟩ := Prod.mk.inj h
          obtain rfl := Except.error.inj he
          obtain ⟨hlength, hcounts⟩ :=
            Pool.ensures_transaction (Inserts.ensures_insertAll i s) _ _ _ ht
          rw [Inserts.length_rows hi] at hlength
          exact .inr ⟨i, lasts, hi, ht, assignGenerated_refused [] hlength
            (fun cl hcl => Nat.lt_of_le_of_lt (hcounts cl hcl) (by decide)) hret ha⟩
        · obtain ⟨rfl, rfl⟩ := Prod.mk.inj h
          exact absurd he (by simp)

/-- A batched update that ends in an error has done nothing, or it was committed and then an entity
refused a value read back for it. -/
theorem update_error_cases {s : Schema} {t : StagingTable} {sets : List (ChangeSet ε)}
    {p p' : Pool δ} {b : Batch ε Nat} {e : Error} (h : Pool.update s t sets p = (b, p'))
    (he : b.result = .error e) :
    (Untouched R.toSnapshots p p' ∧ b.items = sets.map ChangeSet.item) ∨
      ∃ plan modified decoded, Plan.compile s sets = .ok plan ∧
        outcome (Pool.transaction (plan.apply s t)) p = (.ok (modified, decoded), p') ∧
        Refused (decoded.flatMap WriteBack.writes) (sets.map ChangeSet.item) b.items e := by
  unfold Pool.update at h
  simp only at h
  split at h
  · obtain ⟨rfl, rfl⟩ := Prod.mk.inj h
    exact .inl ⟨.refl _ _, rfl⟩
  · rename_i plan hplan
    split at h
    · obtain ⟨rfl, rfl⟩ := Prod.mk.inj h
      exact absurd he (by simp)
    · rename_i hnoop
      rw [Bool.not_eq_true] at hnoop
      split at h
      · rename_i e' p₁ ht
        obtain ⟨rfl, rfl⟩ := Prod.mk.inj h
        exact .inl ⟨untouched_of_transaction_error (fresh_applyPlan hnoop s t).ordinary ht, rfl⟩
      · rename_i modified decoded p₁ ht
        obtain ⟨rfl, rfl⟩ := Prod.mk.inj h
        rcases ha : assignWriteBacks (sets.map ChangeSet.item).toArray decoded with ⟨items, r⟩
        rw [ha] at he
        rcases r with e' | ⟨⟩
        · obtain rfl := Except.error.inj he
          have hplaces := Pool.ensures_transaction (Plan.ensures_apply plan s t) _ _ _ ht
          rw [Plan.length_rows hplan] at hplaces
          exact .inr ⟨plan, modified, decoded, hplan, ht,
            assignWriteBacks_ends (by simpa using hplaces) ha⟩
        · exact absurd he (by simp [Except.map])

theorem untouched_of_insert_error {s : Schema} {items : List ε} {p p' : Pool δ}
    {b : Batch ε Nat} {e : Error} (h : Pool.insert s items p = (b, p')) (he : b.result = .error e)
    (hret : e.isReturned = true) (hrefused : ¬InsertRefused s items p e) :
    Untouched R.toSnapshots p p' ∧ b.items = items := by
  obtain huntouched | ⟨i, lasts, hi, ht, hrefuses⟩ := insert_error_cases (R := R) h he hret
  · exact huntouched
  · exact absurd ⟨hrefuses.raisedByEntity, i, lasts, p', hi, ht⟩ hrefused

theorem untouched_of_update_error {s : Schema} {t : StagingTable} {sets : List (ChangeSet ε)}
    {p p' : Pool δ} {b : Batch ε Nat} {e : Error} (h : Pool.update s t sets p = (b, p'))
    (he : b.result = .error e) (hrefused : ¬UpdateRefused s t sets p e) :
    Untouched R.toSnapshots p p' ∧ b.items = sets.map ChangeSet.item := by
  obtain huntouched | ⟨plan, modified, decoded, hplan, ht, hrefuses⟩ :=
    update_error_cases (R := R) h he
  · exact huntouched
  · exact absurd ⟨hrefuses.raisedByEntity, plan, _, p', hplan, ht⟩ hrefused

theorem untouched_of_patch_error {s : Schema} {t : StagingTable} {f : Filter} {c : Changes}
    {returning : List String} {p p' : Pool δ} {e : Error}
    (h : outcome (Pool.patch s t f c returning) p = (.error e, p')) :
    Untouched R.toSnapshots p p' := by
  rcases Action.outcome_bind_eq_error_iff.1 h with h | ⟨plan, p₁, hplan, h⟩
  · obtain ⟨-, rfl⟩ := Prod.mk.inj h
    exact .refl _ _
  · obtain ⟨-, rfl⟩ := Prod.mk.inj hplan
    rcases Action.outcome_bind_eq_error_iff.1 h with h | ⟨r, p₂, -, h⟩
    · exact untouched_of_withLease_error (fresh_patch plan s t).ordinary h
    · rcases Action.outcome_bind_eq_error_iff.1 h with h | ⟨_, _, -, h⟩
      · exact absurd (congrArg Prod.fst h) (by simp [Pool.report])
      · exact absurd (congrArg Prod.fst h) (by simp)

theorem untouched_of_delete_error {s : Schema} {t : StagingTable} {f : Filter} {p p' : Pool δ}
    {e : Error} (h : outcome (Pool.delete s t f) p = (.error e, p')) :
    Untouched R.toSnapshots p p' := by
  rcases Action.outcome_bind_eq_error_iff.1 h with h | ⟨⟨q, params⟩, p₁, hq, h⟩
  · obtain ⟨-, rfl⟩ := Prod.mk.inj h
    exact .refl _ _
  · obtain ⟨-, rfl⟩ := Prod.mk.inj hq
    exact untouched_of_withLease_error (fresh_deleteSelected t s q params).ordinary h

end Writes

end StagedStore
