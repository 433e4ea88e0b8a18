import StagedStore.Proofs.Pool.Transaction
import StagedStore.Proofs.Recovery.Memory
import StagedStore.Proofs.Staging

/-!
# Leftover staging tables

Databases that differ in what is left under the name of a staging table cannot be told apart by
transactions that begin by dropping it.  `Similar` databases differ in nothing else, now and after
a rollback; once the table is dropped they are `Alike`, and statements keep them so.
-/

namespace StagedStore

open Memory

namespace MemoryDatabase

variable {n : String} {m m' : MemoryDatabase}

/-- The database without the temporary tables of a name, now and after a rollback. -/
def without (n : String) (m : MemoryDatabase) : MemoryDatabase :=
  { m with catalog := m.catalog.drop .temp n, saved := m.saved.map fun c => c.drop .temp n }

/-- Databases that differ in the temporary tables of a name at most. -/
def Similar (n : String) (m m' : MemoryDatabase) : Prop :=
  m.without n = m'.without n

/-- Databases that differ at most in the temporary tables of a name that a rollback brings back. -/
def Alike (n : String) (m m' : MemoryDatabase) : Prop :=
  ∃ saved, m' = { m with saved } ∧
    m.saved.map (fun c => c.drop .temp n) = saved.map fun c => c.drop .temp n

theorem Alike.similar (h : Alike n m m') : Similar n m m' := by
  obtain ⟨saved, rfl, hsaved⟩ := h
  unfold Similar without
  rw [hsaved]

theorem Alike.changes_eq (h : Alike n m m') : m'.changes = m.changes := by
  obtain ⟨saved, rfl, -⟩ := h
  rfl

theorem Similar.alike_drop (h : Similar n m m') :
    Alike n { m with catalog := m.catalog.drop .temp n }
      { m' with catalog := m'.catalog.drop .temp n } := by
  obtain ⟨hcatalog, hsaved, hkey, hchanges⟩ := MemoryDatabase.mk.inj h
  refine ⟨m'.saved, ?_, hsaved⟩
  rw [hcatalog, hkey, hchanges]

theorem isSome_of_drop {saved saved' : Option Catalog}
    (h : saved.map (fun c => c.drop .temp n) = saved'.map fun c => c.drop .temp n) :
    saved.isSome = saved'.isSome := by
  have h' := congrArg Option.isSome h
  rwa [Option.isSome_map, Option.isSome_map] at h'

theorem Similar.inTransaction_eq (h : Similar n m m') : m.inTransaction = m'.inTransaction :=
  isSome_of_drop (MemoryDatabase.mk.inj h).2.1

/-! ## Statements on databases that are alike -/

theorem agree_finish (h : Alike n m m') (a : Area) (t : Table) (count : Nat) :
    Agree (Alike n) (Similar n) (m.finish a t count) (m'.finish a t count) := by
  obtain ⟨saved, rfl, hsaved⟩ := h
  have haccepts : ({ m with saved } : MemoryDatabase).accepts (m.catalog.replace a t) =
      m.accepts (m.catalog.replace a t) := by
    unfold accepts inTransaction
    rw [isSome_of_drop hsaved]
  unfold finish
  dsimp only
  rw [haccepts]
  split
  · exact .ok () ⟨saved, rfl, hsaved⟩
  · exact .error _ (Alike.similar ⟨saved, rfl, hsaved⟩)

theorem agree_fail (h : Similar n m m') (f : Fault) :
    Agree (Alike n) (Similar n) (m.fail f) (m'.fail f) := by
  obtain ⟨hcatalog, hsaved, hkey, -⟩ := MemoryDatabase.mk.inj h
  refine .error f ?_
  unfold Similar without
  dsimp only
  rw [hcatalog, hsaved, hkey]

theorem agree_insert (h : Alike n m m') (a : Area) (t : Table) (many : Bool)
    (rows : List (List Storage)) :
    Agree (Alike n) (Similar n) (m.insert a t many rows) (m'.insert a t many rows) := by
  obtain ⟨saved, rfl, hsaved⟩ := h
  unfold MemoryDatabase.insert
  rcases (Insertion.start t).insertAll rows with ⟨s, fault⟩
  have hkey : Alike n { m with lastKey := s.last.getD m.lastKey }
      { m with saved, lastKey := s.last.getD m.lastKey } := ⟨saved, rfl, hsaved⟩
  dsimp only
  split
  · exact agree_finish hkey _ _ _
  · split
    · exact agree_fail hkey.similar _
    · -- Each database falls back to the tables it saved, which need not be alike.
      refine agree_fail ?_ _
      unfold Similar without
      dsimp only
      cases hm : m.saved <;> cases hs : saved <;> simp_all
  · exact agree_fail hkey.similar _

theorem agree_perform (h : Alike n m m') {p : Prepared} (hp : p.isControl = false) :
    Agree (Alike n) (Similar n) (m.perform p) (m'.perform p) := by
  cases p with
  | rows os rows => exact .ok () h
  | insert a t many rows => exact agree_insert h a t many rows
  | update a t changesKey values =>
      unfold perform
      dsimp only
      split
      · exact agree_finish h _ _ _
      · exact agree_fail h.similar _
  | delete a t condition => exact agree_finish h _ _ _
  | create a t =>
      obtain ⟨saved, rfl, hsaved⟩ := h
      exact .ok () ⟨saved, rfl, hsaved⟩
  | drop a k =>
      obtain ⟨saved, rfl, hsaved⟩ := h
      exact .ok () ⟨saved, rfl, hsaved⟩
  | nothing => exact .ok () h
  | begin => simp [Prepared.isControl] at hp
  | commit => simp [Prepared.isControl] at hp
  | rollback => simp [Prepared.isControl] at hp

theorem Alike.context_eq (h : Alike n m m') (params : Sql.Params) :
    m'.context params = m.context params := by
  obtain ⟨saved, rfl, -⟩ := h
  rfl

theorem agree_execute (h : Alike n m m') {s : Sql.Statement} (hs : s.isControl = false)
    (params : Sql.Params) :
    Agree (Alike n) (Similar n) (m.execute s params) (m'.execute s params) := by
  unfold execute
  rw [h.context_eq]
  split
  · exact .error _ h.similar
  · rename_i p hp
    obtain ⟨_, d, d', hd, hd', h⟩ | ⟨f, d, d', hd, hd', h⟩ :=
      (agree_perform h (isControl_prepare _ hs p hp)).cases
    all_goals rw [hd, hd']
    · exact .ok p h
    · exact .error f h

theorem agree_executeBound (h : Alike n m m') {s : Sql.Statement} (hs : s.isControl = false)
    (params : Sql.Params) :
    Agree (Alike n) (Similar n) (m.executeBound s params) (m'.executeBound s params) := by
  unfold executeBound
  rw [h.context_eq]
  split
  · exact .error _ h.similar
  · rename_i p hp
    split
    · exact .error _ h.similar
    · obtain ⟨_, d, d', hd, hd', h⟩ | ⟨f, d, d', hd, hd', h⟩ :=
        (agree_perform h (isControl_prepare _ hs p hp)).cases
      all_goals rw [hd, hd']
      · exact .ok p h
      · exact .error f h

theorem agree_executeFirst (h : Alike n m m') {s : Sql.Statement} (hs : s.isControl = false)
    (params : Sql.Params) :
    Agree (Alike n) (Similar n) (m.executeFirst s params) (m'.executeFirst s params) := by
  unfold executeFirst
  split
  · rename_i s' rest hr
    exact agree_executeBound h (isControl_of_readings hs hr) params
  · exact .error _ h.similar

theorem agree_executeAll (h : Alike n m m') {ss : List Sql.Statement}
    (hs : ∀ s ∈ ss, s.isControl = false) :
    Agree (Alike n) (Similar n) (m.executeAll (ss.map some)) (m'.executeAll (ss.map some)) := by
  induction ss generalizing m m' with
  | nil => exact .ok () h
  | cons s ss ih =>
      rw [List.map_cons, executeAll, executeAll]
      obtain ⟨_, d, d', hd, hd', h⟩ | ⟨f, d, d', hd, hd', h⟩ :=
        (agree_execute h (hs s (by simp)) #[]).cases
      all_goals rw [hd, hd']
      · exact ih h fun s' hs' => hs s' (by simp [hs'])
      · exact .error f h

theorem agree_script (h : Alike n m m') {s : Sql.Script} (hs : s.isOrdinary = true) :
    Agree (Alike n) (Similar n) (outcome (Database.script s) m) (outcome (Database.script s) m') := by
  obtain ⟨hr, hc⟩ := readings_of_isOrdinary hs
  change Agree _ _ (m.executeAll (s.statements.flatMap readings))
    (m'.executeAll (s.statements.flatMap readings))
  rw [hr]
  exact agree_executeAll h hc

theorem agree_run (h : Alike n m m') {s : Sql.Statement} (hs : s.isControl = false)
    (params : Sql.Params) : Agree (Alike n) (Similar n) (outcome (Database.run s params) m)
      (outcome (Database.run s params) m') := by
  unfold outcome
  rw [run_run, run_run]
  obtain ⟨p, d, d', hd, hd', h⟩ | ⟨f, d, d', hd, hd', h⟩ := (agree_executeFirst h hs params).cases
  all_goals rw [hd, hd']
  · have hcount : Agree (Alike n) (Similar n) (.ok d.changes, d)
        ((.ok d'.changes, d') : Except Fault Nat × MemoryDatabase) := by
      rw [h.changes_eq]
      exact .ok _ h
    cases p with
    | rows os rows =>
        cases rows with
        | nil => exact hcount
        | cons r rs => exact .error _ h.similar
    | _ => exact hcount
  · exact .error f h

theorem agree_query (h : Alike n m m') {s : Sql.Statement} (hs : s.isControl = false)
    (params : Sql.Params) : Agree (Alike n) (Similar n) (outcome (Database.query s params) m)
      (outcome (Database.query s params) m') := by
  unfold outcome
  rw [run_query, run_query]
  obtain ⟨p, d, d', hd, hd', h⟩ | ⟨f, d, d', hd, hd', h⟩ := (agree_executeFirst h hs params).cases
  all_goals rw [hd, hd']
  · cases p <;> exact .ok _ h
  · exact .error f h

theorem agree_drop {t : StagingTable} (h : Similar t.name m m') :
    Agree (Alike t.name) (Similar t.name) (outcome (Database.script t.dropScript) m)
      (outcome (Database.script t.dropScript) m') := by
  rw [t.script_drop, t.script_drop]
  exact .ok () h.alike_drop

/-! ## Transactions on similar databases -/

theorem agree_begin (h : Similar n m m') :
    Agree (Similar n) (Similar n) (outcome Database.begin m) (outcome Database.begin m') := by
  change Agree _ _ (m.perform .begin) (m'.perform .begin)
  rw [perform_begin, perform_begin, h.inTransaction_eq]
  split
  · exact .error _ h
  · obtain ⟨hcatalog, -, hkey, hchanges⟩ := MemoryDatabase.mk.inj h
    refine .ok () ?_
    unfold Similar without
    rw [Option.map_some, Option.map_some, hcatalog, hkey, hchanges]

theorem agree_commit (h : Alike n m m') :
    Agree (Similar n) (Similar n) (outcome Database.commit m) (outcome Database.commit m') := by
  have hopen := h.similar.inTransaction_eq
  obtain ⟨saved, rfl, hsaved⟩ := h
  change Agree _ _ (m.perform .commit) (perform _ .commit)
  rw [perform_commit, perform_commit, ← hopen]
  split
  · exact .error _ (Alike.similar ⟨saved, rfl, hsaved⟩)
  · split
    · exact .ok () rfl
    · exact .error _ (Alike.similar ⟨saved, rfl, hsaved⟩)

theorem agree_rollback (h : Similar n m m') :
    Agree (Similar n) (Similar n) (outcome Database.rollback m) (outcome Database.rollback m') := by
  obtain ⟨hcatalog, hsaved, hkey, hchanges⟩ := MemoryDatabase.mk.inj h
  obtain ⟨c, saved, key, changes⟩ := m
  obtain ⟨c', saved', key', changes'⟩ := m'
  cases saved <;> cases saved'
  · exact .error _ h
  · simp at hsaved
  · simp at hsaved
  · refine .ok () ?_
    unfold Similar without
    simp_all

end MemoryDatabase

/-! ## Sessions -/

/-- Sessions that differ in their databases alone, which are related. -/
def Beside (P : MemoryDatabase → MemoryDatabase → Prop) (s s' : Session MemoryDatabase) : Prop :=
  P s.database s'.database ∧ s' = { s with database := s'.database }

section Sessions

open MemoryDatabase

variable {α : Type} {n : String} {s s' : Session MemoryDatabase}
  {P Q R : MemoryDatabase → MemoryDatabase → Prop}

theorem agree_observe {sql : String} {step : Step MemoryDatabase α} (h : Beside R s s')
    (hstep : Agree P Q (outcome step s.database) (outcome step s'.database)) :
    Agree (Beside P) (Beside Q) (outcome (Session.observe sql step) s)
      (outcome (Session.observe sql step) s') := by
  obtain ⟨-, hs⟩ := h
  have hrun (s : Session MemoryDatabase) : outcome (Session.observe sql step) s =
      match outcome step s.database with
      | (.ok a, d) => (.ok a, { s.note (.executing (logText s.logLimit sql)) with database := d })
      | (.error f, d) => (.error f.toError,
          { s.note (.executing (logText s.logLimit sql)) with database := d }.note
            (.statementFailed sql)) := by
    rcases hx : outcome step s.database with ⟨_ | _, _⟩
    all_goals
      simp only [outcome, ExceptT.run, Session.observe, Session.note] at hx ⊢
      rw [hx]
  rw [hrun, hrun]
  obtain ⟨a, d, d', hd, hd', h⟩ | ⟨f, d, d', hd, hd', h⟩ := hstep.cases
  all_goals rw [hd, hd', hs]
  · exact .ok a ⟨h, rfl⟩
  · exact .error _ ⟨h, rfl⟩

theorem agree_exec {script : Sql.Script} (h : Beside R s s')
    (hscript : Agree (Alike n) Q (outcome (Database.script script) s.database)
      (outcome (Database.script script) s'.database)) :
    Agree (Beside (Alike n)) (Beside Q) (outcome (Connection.exec script) s)
      (outcome (Connection.exec script) s') := by
  refine Agree.bind (agree_observe h hscript) fun _ s s' h => ?_
  obtain ⟨hd, hs⟩ := h
  have hchanges (s : Session MemoryDatabase) :
      outcome (do Session.setChanges (Database.changes (← get).database)) s =
        (.ok (), { s with changes := s.database.changes }) := rfl
  rw [hchanges, hchanges, hs]
  exact .ok () ⟨hd, by rw [hd.changes_eq]⟩

/-- Ordinary actions do the same on databases that are alike. -/
theorem Ordinary.agree {f : Action (Session MemoryDatabase) α} (hf : Ordinary f)
    (h : Beside (Alike n) s s') :
    Agree (Beside (Alike n)) (Beside (Similar n)) (outcome f s) (outcome f s') := by
  induction hf generalizing s s' with
  | ofExcept r =>
      cases r with
      | ok a => exact .ok a h
      | error e => exact .error e ⟨h.1.similar, h.2⟩
  | report e =>
      obtain ⟨hd, hs⟩ := h
      rw [hs]
      exact .ok () ⟨hd, rfl⟩
  | lastChanges =>
      obtain ⟨hd, hs⟩ := h
      rw [hs]
      exact .ok _ ⟨hd, rfl⟩
  | exec hordinary => exact agree_exec h (agree_script h.1 hordinary)
  | run hcontrol params =>
      refine Agree.bind (agree_observe h (agree_run h.1 hcontrol params)) fun n s s' h => ?_
      obtain ⟨hd, hs⟩ := h
      rw [hs]
      exact .ok n ⟨hd, rfl⟩
  | queryAll hcontrol params => exact agree_observe h (agree_query h.1 hcontrol params)
  | bind _ _ ihf ihg => exact Agree.bind (ihf h) fun a s s' h => ihg a h

/-- Actions that begin by dropping the staging table do the same on similar databases. -/
theorem Fresh.agree {t : StagingTable} {f : Action (Session MemoryDatabase) α} (hf : Fresh t f)
    (h : Beside (Similar t.name) s s') :
    Agree (Beside (Alike t.name)) (Beside (Similar t.name)) (outcome f s) (outcome f s') := by
  induction hf with
  | discard =>
      refine Agree.bind (agree_exec h (agree_drop h.1)) fun _ s s' h => ?_
      exact (Ordinary.report _).agree h
  | bind _ hg ih => exact Agree.bind ih fun a s s' h => (hg a).agree h

end Sessions

/-! ## Pools -/

namespace Pool

open MemoryDatabase

variable {α : Type} {n : String}

theorem agree_settle {m m' : MemoryDatabase} (h : Alike n m m') (a : α) :
    Agree (Similar n) (Similar n) (settle a m) (settle a m') := by
  unfold settle
  simp only [Action.run_eq]
  obtain ⟨_, d, d', hd, hd', h⟩ | ⟨f, d, d', hd, hd', h⟩ := (agree_commit h).cases
  all_goals rw [hd, hd']
  · exact .ok a h
  · have hopen : Database.inTransaction d = Database.inTransaction d' := h.inTransaction_eq
    dsimp only
    rw [hopen]
    split
    · exact .error _ (agree_rollback h).snd
    · exact .error _ h

theorem agree_undo {m m' : MemoryDatabase} (h : Similar n m m') (e : Error) :
    (undo e m).1 = (undo e m').1 ∧ Similar n (undo e m).2 (undo e m').2 := by
  unfold undo
  simp only [Action.run_eq]
  obtain ⟨_, d, d', hd, hd', h⟩ | ⟨f, d, d', hd, hd', h⟩ := (agree_rollback h).cases
  all_goals
    rw [hd, hd']
    exact ⟨rfl, h⟩

/-- A transaction that begins by dropping the staging table does the same on similar databases, and
the same is reported. -/
theorem agree_transact {t : StagingTable} {f : Action (Session MemoryDatabase) α} (hf : Fresh t f)
    (limit : Option Nat) {m m' : MemoryDatabase} (h : Similar t.name m m') :
    (transact limit f m).1 = (transact limit f m').1 ∧
      Similar t.name (transact limit f m).2.1 (transact limit f m').2.1 ∧
      (transact limit f m).2.2 = (transact limit f m').2.2 := by
  rw [transact_eq, transact_eq]
  obtain ⟨_, d, d', hd, hd', h⟩ | ⟨f, d, d', hd, hd', h⟩ := (agree_begin h).cases
  all_goals rw [hd, hd']
  · have hstart : Beside (Similar t.name) (Session.start d limit) (Session.start d' limit) := ⟨h, rfl⟩
    obtain ⟨a, s, s', hs, hs', h⟩ | ⟨e, s, s', hs, hs', h⟩ := (hf.agree hstart).cases
    all_goals
      dsimp only
      rw [hs, hs']
    · have hsettle := agree_settle h.1 a
      exact ⟨hsettle.fst_eq, hsettle.snd, (congrArg Session.events h.2).symm⟩
    · have hundo := agree_undo h.1 e
      exact ⟨congrArg Except.error hundo.1, hundo.2, (congrArg Session.events h.2).symm⟩
  · exact ⟨rfl, h, rfl⟩

/-- The pool without the temporary tables of a name. -/
def without (n : String) (p : Pool MemoryDatabase) : Pool MemoryDatabase :=
  { p with database := p.database.map (MemoryDatabase.without n) }

/-- Pools that differ in the temporary tables of a name at most. -/
def Similar (n : String) (p p' : Pool MemoryDatabase) : Prop :=
  p.without n = p'.without n

theorem agree_report {p p' : Pool MemoryDatabase} (h : Similar n p p') (e : Event) :
    Agree (Similar n) (Similar n) (outcome (report e) p) (outcome (report e) p') := by
  obtain ⟨hdatabase, hactive, hlimit, hevents⟩ := Pool.mk.inj h
  refine .ok () ?_
  unfold Similar without note
  dsimp only
  rw [hdatabase, hactive, hlimit, hevents]

theorem agree_transaction {t : StagingTable} {f : Action (Session MemoryDatabase) α}
    (hf : Fresh t f) {p p' : Pool MemoryDatabase} (h : Similar t.name p p') :
    Agree (Similar t.name) (Similar t.name) (outcome (transaction f) p)
      (outcome (transaction f) p') := by
  obtain ⟨hdatabase, hactive, hlimit, hevents⟩ := Pool.mk.inj h
  rw [outcome_transaction, outcome_transaction, ← hlimit]
  cases hm : p.database <;> cases hm' : p'.database <;> rw [hm, hm'] at hdatabase
  · exact .error _ h
  · simp at hdatabase
  · simp at hdatabase
  · rename_i m m'
    obtain ⟨hr, hd, he⟩ := agree_transact hf p.logLimit (Option.some.inj hdatabase)
    dsimp only
    rw [hr, he, hevents]
    refine agree_of_eq ?_
    unfold Similar without
    dsimp only
    rw [Option.map_some, Option.map_some, hd, hactive, hlimit]

theorem agree_withLease {t : StagingTable} {f : Action (Session MemoryDatabase) α}
    (hf : Fresh t f) {p p' : Pool MemoryDatabase} (h : Similar t.name p p') :
    Agree (Similar t.name) (Similar t.name) (outcome (withLease f) p)
      (outcome (withLease f) p') := by
  have hnote {p p' : Pool MemoryDatabase} (h : Similar t.name p p') (active : Nat → Nat)
      (e : Nat → Event) : Similar t.name
        ({ p with active := active p.active }.note (e (active p.active)))
        ({ p' with active := active p'.active }.note (e (active p'.active))) := by
    obtain ⟨hdatabase, hactive, hlimit, hevents⟩ := Pool.mk.inj h
    unfold Similar without note
    dsimp only
    rw [hdatabase, hactive, hlimit, hevents]
  have hclosed : p.isClosed = p'.isClosed := by
    have hdatabase := congrArg Option.isNone (Pool.mk.inj h).1
    rwa [Option.isNone_map, Option.isNone_map] at hdatabase
  rw [outcome_withLease, outcome_withLease, hclosed]
  split
  · exact .error _ h
  · have hagree := agree_transaction hf (hnote h (· + 1) .acquired)
    dsimp only
    rw [hagree.fst_eq]
    exact agree_of_eq (hnote hagree.snd (· - 1) .released)

end Pool

end StagedStore
