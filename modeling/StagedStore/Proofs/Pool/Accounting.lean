import StagedStore.Proofs.Pool.Steady

/-!
# Accounting for leases

A `Usage` is a store in use by a single thread: the store and all leases that it has handed out so
far.  `Usage.run` makes one call after the other, on the store or under a lease.  In every state that
calls lead to, the count that the pool keeps is the number of leases that are out, and a store is
closed only when there is none.
-/

namespace StagedStore

/-- A store and the leases that it has handed out, the first first. -/
structure Usage (δ : Type) where
  store : Store δ
  leases : List Lease

/-- What can be asked of a store, or of a lease by its place among those handed out. -/
inductive StoreCall (δ : Type) : Type 1 where
  | acquire
  /-- Give a lease back. -/
  | drop (i : Nat)
  /-- Give a lease back before it is dropped, which gives it back again. -/
  | release (i : Nat)
  | transact {α : Type} (i : Nat) (f : Action (Session δ) α)
  | insert {ε : Type} [Entity ε] (i : Nat) (schema : Schema) (items : List ε)
  | populate {ε : Type} [Entity ε] (i : Nat) (schema : Schema) (items : List ε)
  | update {ε : Type} [Entity ε] (i : Nat) (schema : Schema) (sets : List (ChangeSet ε))
  | remove {ε : Type} [Entity ε] (i : Nat) (schema : Schema) (items : List ε)
  | patch (schema : Schema) (f : Filter) (c : Changes) (returning : List String)
  | delete (schema : Schema) (f : Filter)
  | count (schema : Schema) (f : Filter)
  | find (schema : Schema) (f : Filter)
  | execute (script : Sql.Script)
  | disconnect

/-- Whether a call works on the database and neither hands out a lease for the caller, nor takes
one back, nor closes the database. -/
def StoreCall.isOperation {δ : Type} : StoreCall δ → Bool
  | .acquire | .drop _ | .release _ | .disconnect => false
  | _ => true

namespace Usage

variable {δ : Type}

/-- A store that nobody has used. -/
def ofStore (s : Store δ) : Usage δ :=
  ⟨s, []⟩

/-- How many leases are out. -/
def live (u : Usage δ) : Nat :=
  u.leases.countP fun l => !l.released

/-- Give a lease back. -/
def giveBack (i : Nat) (u : Usage δ) : Usage δ :=
  match u.leases[i]? with
  | some l => ⟨(u.store.release l).2, u.leases.set i (u.store.release l).1⟩
  | none => u

/-- Do something to the store under a lease, if it is out. -/
def under (i : Nat) (f : Store δ → Store δ) (u : Usage δ) : Usage δ :=
  match u.leases[i]? with
  | some l => if l.released then u else { u with store := f u.store }
  | none => u

/-! ## Accounts -/

/-- The count is that of the leases that are out, and a closed store has none. -/
structure Accounted (u : Usage δ) : Prop where
  active : u.store.pool.active = u.live
  closed : u.store.pool.isClosed = true → u.live = 0

variable {u : Usage δ}

theorem Accounted.steady (h : u.Accounted) {s : Store δ}
    (hs : Pool.Steady u.store.pool s.pool) : ({ u with store := s } : Usage δ).Accounted where
  active := hs.active.trans h.active
  closed hclosed := h.closed (hs.isClosed.symm.trans hclosed)

theorem countP_set_released {ls : List Lease} {i : Nat} {l : Lease} (hi : ls[i]? = some l)
    (hl : l.released = false) :
    (ls.set i ⟨true⟩).countP (fun l => !l.released) + 1 = ls.countP fun l => !l.released := by
  induction ls generalizing i with
  | nil => simp at hi
  | cons x ls ih =>
      cases i with
      | zero =>
          obtain rfl : x = l := by simpa using hi
          simp [hl]
      | succ i =>
          have := ih (i := i) (by simpa using hi)
          simp only [List.set_cons_succ, List.countP_cons]
          omega

/-- A lease that is out is one of those that the pool counts. -/
theorem Accounted.active_pos (h : u.Accounted) {l : Lease} (hl : l ∈ u.leases)
    (hout : l.released = false) : 0 < u.store.pool.active := by
  rw [h.active]
  exact List.countP_pos_iff.2 ⟨l, hl, by simp [hout]⟩

theorem Accounted.isOpen (h : u.Accounted) {l : Lease} (hl : l ∈ u.leases)
    (hout : l.released = false) : u.store.pool.isClosed = false := by
  cases hclosed : u.store.pool.isClosed with
  | false => rfl
  | true =>
      have hpos := h.active_pos hl hout
      rw [h.active, h.closed hclosed] at hpos
      exact absurd hpos (Nat.lt_irrefl 0)

theorem isClosed_release (s : Store δ) (l : Lease) :
    (s.release l).2.pool.isClosed = s.pool.isClosed := by
  unfold Store.release Store.onPool Pool.release
  cases l.released <;> rfl

/-- Giving a lease back takes it off the count if it was out, and does nothing else. -/
theorem Accounted.release (h : u.Accounted) {l : Lease} (hl : l ∈ u.leases) :
    (u.store.release l).1.released = true ∧
      (u.store.release l).2.pool.active + (if l.released then 0 else 1) = u.store.pool.active ∧
      (u.store.release l).2.pool.database = u.store.pool.database := by
  cases hout : l.released with
  | true =>
      have hrelease : u.store.release l = (l, u.store) := by
        simp [Store.release, Store.onPool, Pool.release, hout]
      rw [hrelease]
      exact ⟨hout, rfl, rfl⟩
  | false =>
      have hpos := h.active_pos hl hout
      have hrelease : u.store.release l = (⟨true⟩, { u.store with
          pool := { u.store.pool with active := u.store.pool.active - 1 }.note
            (.released (u.store.pool.active - 1)) }) := by
        simp [Store.release, Store.onPool, Pool.release, hout]
      rw [hrelease]
      exact ⟨rfl, Nat.sub_add_cancel hpos, rfl⟩

theorem Accounted.giveBack (h : u.Accounted) (i : Nat) : (u.giveBack i).Accounted := by
  unfold Usage.giveBack
  split
  · rename_i l hl
    obtain ⟨hback, hactive, -⟩ := h.release (List.mem_of_getElem? hl)
    have hsame := isClosed_release u.store l
    cases hout : l.released with
    | true =>
        have hset : u.leases.set i (u.store.release l).1 = u.leases := by
          obtain ⟨hi, rfl⟩ := List.getElem?_eq_some_iff.1 hl
          have hl' : (u.store.release u.leases[i]).1 = u.leases[i] := by
            simp [Store.release, Store.onPool, Pool.release, hout]
          rw [hl', List.set_getElem_self]
        rw [hset]
        exact h.steady ⟨by simpa [hout] using hactive, hsame⟩
    | false =>
        have hlease : (u.store.release l).1 = ⟨true⟩ := by
          rw [← hback]
        have hcount := countP_set_released hl hout
        rw [hout, h.active] at hactive
        refine ⟨?_, fun hclosed => ?_⟩
        · change (u.store.release l).2.pool.active = (u.leases.set i _).countP _
          rw [hlease]
          have hlive : u.live = u.leases.countP fun l => !l.released := rfl
          simp only [Bool.false_eq_true, if_false] at hactive
          omega
        · rw [hsame, h.isOpen (List.mem_of_getElem? hl) hout] at hclosed
          exact absurd hclosed Bool.false_ne_true
  · exact h

theorem acquire_eq (s : Store δ) : outcome Store.acquire s =
    if s.pool.isClosed then (.error .poolClosed, s)
    else (.ok ⟨false⟩, { s with
      pool := { s.pool with active := s.pool.active + 1 }.note
        (.acquired (s.pool.active + 1)) }) := by
  have hact : outcome Store.acquire s =
      ((outcome Pool.acquire s.pool).1, { s with pool := (outcome Pool.acquire s.pool).2 }) := rfl
  rw [hact, Pool.acquire_eq]
  split <;> rfl

theorem disconnect_eq (s : Store δ) : outcome Store.disconnect s =
    if s.pool.active = 0 then (.ok (), { s with pool := s.pool.close.note .closed })
    else (.error (.activeConnections s.pool.active),
      { s with pool := s.pool.note (.disconnectRefused s.pool.active) }) := by
  have hact : outcome Store.disconnect s =
      let r := if s.pool.active = 0 then
          ((.ok (), s.pool.close.note .closed) : Except Error Unit × Pool δ)
        else (.error (.activeConnections s.pool.active),
          s.pool.note (.disconnectRefused s.pool.active))
      (r.1, { s with pool := r.2 }) := rfl
  rw [hact]
  split <;> rfl

theorem accounted_ofStore {d : δ} {c : Config} {s : Store δ} (h : Store.ofDatabase d c = .ok s) :
    (ofStore s).Accounted := by
  unfold Store.ofDatabase at h
  obtain ⟨staging, -, h⟩ := Except.bind_eq_ok_iff.1 h
  obtain rfl := Except.ok.inj h
  exact ⟨rfl, fun _ => rfl⟩

/-- How disconnecting ends in any state: it closes the store if no lease is out, and otherwise tells
how many are. -/
theorem Accounted.disconnect (h : u.Accounted) :
    ∃ r s, outcome Store.disconnect u.store = (r, s) ∧ s.pool.active = u.store.pool.active ∧
      if u.store.pool.active = 0 then r = .ok () ∧ s.pool.isClosed = true
      else r = .error (.activeConnections u.store.pool.active) ∧ s.pool.isClosed = false := by
  rw [disconnect_eq]
  split
  · exact ⟨_, _, rfl, rfl, rfl, rfl⟩
  · rename_i hne
    refine ⟨_, _, rfl, rfl, rfl, ?_⟩
    change u.store.pool.isClosed = false
    cases hclosed : u.store.pool.isClosed with
    | false => rfl
    | true => exact absurd (h.active.trans (h.closed hclosed)) hne

/-! ## Steps -/

variable [Database δ]

/-- The state after a call. -/
def step (u : Usage δ) : StoreCall δ → Usage δ
  | .acquire =>
    match outcome Store.acquire u.store with
    | (.ok l, s) => ⟨s, u.leases ++ [l]⟩
    | (.error _, s) => ⟨s, u.leases⟩
  | .drop i => u.giveBack i
  | .release i => (u.giveBack i).giveBack i
  | .transact i f => u.under i fun s => (outcome (Store.transaction f) s).2
  | @StoreCall.insert _ _ _ i schema items => u.under i fun s => (s.insert schema items).2
  | @StoreCall.populate _ _ _ i schema items => u.under i fun s => (s.populate schema items).2
  | @StoreCall.update _ _ _ i schema sets => u.under i fun s => (s.update schema sets).2
  | @StoreCall.remove _ _ _ i schema items => u.under i fun s => (outcome (Store.remove schema items) s).2
  | .patch schema f c returning =>
    { u with store := (outcome (Store.patch schema f c returning) u.store).2 }
  | .delete schema f => { u with store := (outcome (Store.delete schema f) u.store).2 }
  | .count schema f => { u with store := (outcome (Store.count schema f) u.store).2 }
  | .find schema f => { u with store := (outcome (Store.find schema f) u.store).2 }
  | .execute script => { u with store := (outcome (Store.execute script) u.store).2 }
  | .disconnect => { u with store := (outcome Store.disconnect u.store).2 }

/-- The state after calls, one after the other. -/
def run (u : Usage δ) (calls : List (StoreCall δ)) : Usage δ :=
  calls.foldl step u

/-- Whatever works on the database leaves the count and the openness as they were. -/
theorem steady_step (u : Usage δ) {c : StoreCall δ} (hc : c.isOperation = true) :
    Pool.Steady u.store.pool (u.step c).store.pool := by
  have hunder (i : Nat) {f : Store δ → Store δ}
      (hf : Pool.Steady u.store.pool (f u.store).pool) :
      Pool.Steady u.store.pool (u.under i f).store.pool := by
    unfold under
    split
    · split
      · exact .refl _
      · exact hf
    · exact .refl _
  cases c with
  | acquire | drop _ | release _ | disconnect => simp [StoreCall.isOperation] at hc
  | transact i f => exact hunder i (Pool.steadily_transaction f u.store.pool)
  | insert i schema items => exact hunder i (Pool.steady_insert schema items u.store.pool)
  | populate i schema items => exact hunder i (Pool.steady_populate schema items u.store.pool)
  | update i schema sets =>
      exact hunder i (Pool.steady_update schema u.store.staging sets u.store.pool)
  | remove i schema items =>
      exact hunder i (Pool.steadily_remove schema u.store.staging items u.store.pool)
  | patch schema f c returning =>
      exact Pool.steadily_patch schema u.store.staging f c returning u.store.pool
  | delete schema f => exact Pool.steadily_delete schema u.store.staging f u.store.pool
  | count schema f => exact Pool.steadily_count schema f u.store.pool
  | find schema f => exact Pool.steadily_find schema f u.store.pool
  | execute script => exact Pool.steadily_withLease (Connection.exec script) u.store.pool

theorem leases_step (u : Usage δ) {c : StoreCall δ} (hc : c.isOperation = true) :
    (u.step c).leases = u.leases := by
  have hunder (i : Nat) (f : Store δ → Store δ) : (u.under i f).leases = u.leases := by
    unfold under
    split
    · split <;> rfl
    · rfl
  cases c with
  | acquire | drop _ | release _ | disconnect => simp [StoreCall.isOperation] at hc
  | transact i _ | insert i _ _ | populate i _ _ | update i _ _ | remove i _ _ => exact hunder i _
  | patch _ _ _ _ | delete _ _ | count _ _ | find _ _ | execute _ => rfl

theorem accounted_step (h : u.Accounted) (c : StoreCall δ) : (u.step c).Accounted := by
  cases hc : c.isOperation with
  | true =>
      have hsteady := steady_step u hc
      have hleases := leases_step u hc
      have hlive : (u.step c).live = u.live :=
        congrArg (List.countP fun l : Lease => !l.released) hleases
      exact ⟨hsteady.active.trans (h.active.trans hlive.symm), fun hclosed =>
        hlive.trans (h.closed (hsteady.isClosed.symm.trans hclosed))⟩
  | false =>
      cases c with
      | acquire =>
          rw [step, acquire_eq]
          cases hclosed : u.store.pool.isClosed with
          | true => exact h
          | false =>
              refine ⟨?_, fun hc => absurd (hclosed.symm.trans hc) Bool.false_ne_true⟩
              change u.store.pool.active + 1 = (u.leases ++ [(⟨false⟩ : Lease)]).countP _
              rw [h.active, List.countP_append]
              rfl
      | drop i => exact h.giveBack i
      | release i => exact (h.giveBack i).giveBack i
      | disconnect =>
          rw [step, disconnect_eq]
          split
          · rename_i hzero
            exact ⟨h.active, fun _ => h.active.symm.trans hzero⟩
          · exact ⟨h.active, h.closed⟩
      | _ => simp [StoreCall.isOperation] at hc

/-! ## Runs -/

theorem accounted_run (h : u.Accounted) (calls : List (StoreCall δ)) : (u.run calls).Accounted := by
  induction calls generalizing u with
  | nil => exact h
  | cons c calls ih => exact ih (accounted_step h c)

/-- A closed store is never open again. -/
theorem isClosed_step (c : StoreCall δ) (hclosed : u.store.pool.isClosed = true) :
    (u.step c).store.pool.isClosed = true := by
  have hback (i : Nat) (v : Usage δ) (hv : v.store.pool.isClosed = true) :
      (v.giveBack i).store.pool.isClosed = true := by
    unfold giveBack
    split
    · rename_i l _
      rw [isClosed_release]
      exact hv
    · exact hv
  cases hc : c.isOperation with
  | true => exact (steady_step u hc).isClosed.trans hclosed
  | false =>
      cases c with
      | acquire =>
          rw [step, acquire_eq, if_pos hclosed]
          exact hclosed
      | drop i => exact hback i u hclosed
      | release i => exact hback i _ (hback i u hclosed)
      | disconnect =>
          rw [step, disconnect_eq]
          split
          · rfl
          · exact hclosed
      | _ => simp [StoreCall.isOperation] at hc

theorem isClosed_run (calls : List (StoreCall δ)) (hclosed : u.store.pool.isClosed = true) :
    (u.run calls).store.pool.isClosed = true := by
  induction calls generalizing u with
  | nil => exact hclosed
  | cons c calls ih => exact ih (isClosed_step c hclosed)

/-- A lease that was given back stays so. -/
theorem released_step {i : Nat} {l : Lease} (c : StoreCall δ) (hl : u.leases[i]? = some l)
    (hback : l.released = true) : (u.step c).leases[i]? = some l := by
  have hgive (j : Nat) (v : Usage δ) (hv : v.leases[i]? = some l) :
      (v.giveBack j).leases[i]? = some l := by
    unfold giveBack
    split
    · rename_i k hk
      by_cases hij : j = i
      · subst hij
        obtain rfl := Option.some.inj (hk.symm.trans hv)
        have hsame : (v.store.release k).1 = k := by
          simp [Store.release, Store.onPool, Pool.release, hback]
        rw [hsame]
        obtain ⟨hj, rfl⟩ := List.getElem?_eq_some_iff.1 hv
        rw [List.set_getElem_self]
        exact hv
      · rw [List.getElem?_set_ne hij]
        exact hv
    · exact hv
  cases hc : c.isOperation with
  | true => rwa [leases_step u hc]
  | false =>
      cases c with
      | acquire =>
          rw [step, acquire_eq]
          cases u.store.pool.isClosed with
          | true => exact hl
          | false =>
              change (u.leases ++ [(⟨false⟩ : Lease)])[i]? = some l
              rw [List.getElem?_append_left (List.getElem?_eq_some_iff.1 hl).1]
              exact hl
      | drop j => exact hgive j u hl
      | release j => exact hgive j _ (hgive j u hl)
      | disconnect => exact hl
      | _ => simp [StoreCall.isOperation] at hc

theorem released_run {i : Nat} {l : Lease} (calls : List (StoreCall δ)) (hl : u.leases[i]? = some l)
    (hback : l.released = true) : (u.run calls).leases[i]? = some l := by
  induction calls generalizing u with
  | nil => exact hl
  | cons c calls ih => exact ih (released_step c hl hback)

/-- A transaction under a lease that is out runs on the database. -/
theorem Accounted.transaction (h : u.Accounted) {l : Lease} (hl : l ∈ u.leases)
    (hout : l.released = false) {α : Type} (f : Action (Session δ) α) :
    ∃ d, u.store.pool.database = some d ∧
      (outcome (Store.transaction f) u.store).1 =
        (Pool.transact u.store.pool.logLimit f d).1 := by
  cases hd : u.store.pool.database with
  | none =>
      have hopen := h.isOpen hl hout
      simp [Pool.isClosed, hd] at hopen
  | some d =>
      refine ⟨d, rfl, ?_⟩
      change (Pool.transaction f u.store.pool).1 = _
      unfold Pool.transaction
      rw [hd]

/-- The accounts of a store hold after any calls: the count is that of the leases that are out, each
lease is taken off it once and stays off, the store closes exactly when none is out, it stays closed
and then has none, and whatever works on the database leaves the count alone. -/
theorem accounts_hold {d : δ} {c : Config} {s : Store δ} (h : Store.ofDatabase d c = .ok s)
    (calls : List (StoreCall δ)) :
    let u := (ofStore s).run calls
    let pool := u.store.pool
    pool.active = u.live ∧
    (∀ l ∈ u.leases, (u.store.release l).1.released = true ∧
      (u.store.release l).2.pool.active + (if l.released then 0 else 1) = pool.active) ∧
    (∀ (i : Nat) (l : Lease), u.leases[i]? = some l → l.released = true →
      ∀ more, (u.run more).leases[i]? = some l) ∧
    (∃ r s', outcome Store.disconnect u.store = (r, s') ∧ s'.pool.active = pool.active ∧
      if pool.active = 0 then r = .ok () ∧ s'.pool.isClosed = true
      else r = .error (.activeConnections pool.active) ∧ s'.pool.isClosed = false) ∧
    (pool.isClosed = true →
      (∀ more, (u.run more).store.pool.isClosed = true) ∧
      outcome Store.acquire u.store = (.error .poolClosed, u.store) ∧
      ∀ l ∈ u.leases, l.released = true) ∧
    (∀ l ∈ u.leases, l.released = false → ∀ {α : Type} (f : Action (Session δ) α),
      ∃ d, pool.database = some d ∧
        (outcome (Store.transaction f) u.store).1 = (Pool.transact pool.logLimit f d).1) ∧
    ∀ call : StoreCall δ, call.isOperation = true →
      (u.step call).store.pool.active = pool.active := by
  intro u pool
  have hu : u.Accounted := accounted_run (accounted_ofStore h) calls
  refine ⟨hu.active, ?_, ?_, hu.disconnect, ?_, ?_, ?_⟩
  · intro l hl
    obtain ⟨hback, hactive, -⟩ := hu.release hl
    exact ⟨hback, hactive⟩
  · exact fun i l hl hback more => released_run more hl hback
  · intro hclosed
    refine ⟨fun more => isClosed_run more hclosed, ?_, ?_⟩
    · rw [acquire_eq]
      exact if_pos hclosed
    · intro l hl
      have hnone := List.countP_eq_zero.1 (hu.closed hclosed) l hl
      simpa using hnone
  · exact fun l hl hout α f => hu.transaction hl hout f
  · exact fun call hcall => (steady_step u hcall).active

/-! ## A store in use -/

/-- A store over an empty database in memory. -/
def freshStore : Store MemoryDatabase :=
  ⟨(Pool.ofDatabase .empty none).note (.opened "stage"), ⟨true, none, none, "stage"⟩, ⟨"stage"⟩⟩

theorem ofDatabase_freshStore :
    Store.ofDatabase MemoryDatabase.empty freshStore.config = .ok freshStore := by
  with_unfolding_all rfl

/-- Two leases are handed out and the first is given back. -/
def threeCalls : List (StoreCall MemoryDatabase) :=
  [.acquire, .acquire, .release 0]

/-- One of two leases is still out, so the store does not close. -/
theorem accounts_hold_of_three_calls :
    Store.ofDatabase MemoryDatabase.empty freshStore.config = .ok freshStore ∧
      ((ofStore freshStore).run threeCalls).store.pool.active = 1 ∧
      ∃ s, outcome Store.disconnect ((ofStore freshStore).run threeCalls).store =
        (.error (.activeConnections 1), s) ∧ s.pool.isClosed = false := by
  obtain ⟨hactive, -, -, ⟨r, s, hrun, -, hend⟩, -⟩ := accounts_hold ofDatabase_freshStore threeCalls
  have hlive : ((ofStore freshStore).run threeCalls).live = 1 := rfl
  rw [hlive] at hactive
  rw [hactive, if_neg Nat.one_ne_zero] at hend
  obtain ⟨rfl, hopen⟩ := hend
  exact ⟨ofDatabase_freshStore, hactive, s, hrun, hopen⟩

end Usage

end StagedStore
