import StagedStore.Proofs.Memory.Transaction

/-!
# Runs that succeed

`Session.Runs` says that an action succeeds on every session of a database, with some result and
some database behind it, whatever the session has logged.
-/

namespace StagedStore

open Memory

namespace Session

/-- An action on a database succeeds, and this is its result and the database it leaves. -/
def Runs {α : Type} (f : Action (Session MemoryDatabase) α) (m : MemoryDatabase) (a : α)
    (m' : MemoryDatabase) : Prop :=
  ∀ σ, σ.database = m → ∃ σ', outcome f σ = (.ok a, σ') ∧ σ'.database = m'

variable {α β : Type} {m m' m₁ m₂ : MemoryDatabase} {statement : Sql.Statement}
  {params : Sql.Params}

theorem runs_pure (a : α) : Runs (pure a) m a m :=
  fun σ hσ => ⟨σ, rfl, hσ⟩

theorem runs_ofExcept {r : Except Error α} {a : α} (h : r = .ok a) :
    Runs (Action.ofExcept r) m a m :=
  fun σ hσ => ⟨σ, by rw [Action.outcome_ofExcept, h], hσ⟩

theorem runs_report (e : Event) : Runs (Connection.report e) m () m :=
  fun σ hσ => ⟨σ.note e, rfl, hσ⟩

theorem runs_bind {f : Action (Session MemoryDatabase) α}
    {g : α → Action (Session MemoryDatabase) β} {a : α} {b : β} (hf : Runs f m a m₁)
    (hg : Runs (g a) m₁ b m₂) : Runs (f >>= g) m b m₂ := by
  intro σ hσ
  obtain ⟨σ₁, hf, hσ₁⟩ := hf σ hσ
  obtain ⟨σ₂, hg, hσ₂⟩ := hg σ₁ hσ₁
  exact ⟨σ₂, Action.outcome_bind_eq_ok_iff.2 ⟨a, σ₁, hf, hg⟩, hσ₂⟩

theorem runs_observe (sql : String) {step : Step MemoryDatabase α} {a : α}
    (h : step.run m = (.ok a, m')) : Runs (observe sql step) m a m' := by
  rintro σ rfl
  refine ⟨{ σ.note (.executing (logText σ.logLimit sql)) with database := m' }, ?_, rfl⟩
  unfold outcome ExceptT.run observe
  dsimp only [note]
  rw [h]

theorem runs_exec {script : Sql.Script}
    (h : (Database.script script : Step MemoryDatabase Unit).run m = (.ok (), m')) :
    Runs (Connection.exec script) m () m' := by
  refine runs_bind (runs_observe _ h) ?_
  rintro σ rfl
  exact ⟨_, rfl, rfl⟩

theorem runs_run {n : Nat}
    (h : (Database.run statement params : Step MemoryDatabase Nat).run m = (.ok n, m')) :
    Runs (Connection.run statement params) m n m' := by
  refine runs_bind (runs_observe _ h) ?_
  rintro σ rfl
  exact ⟨_, rfl, rfl⟩

theorem runs_queryAll {rows : List Row}
    (h : (Database.query statement params : Step MemoryDatabase (List Row)).run m =
      (.ok rows, m')) : Runs (Connection.queryAll statement params) m rows m' :=
  runs_observe _ h

theorem runs_querySingle {row : Row} {rows : List Row}
    (h : (Database.query statement params : Step MemoryDatabase (List Row)).run m =
      (.ok (row :: rows), m')) : Runs (Connection.querySingle statement params) m row m' :=
  runs_bind (runs_queryAll h) (runs_pure row)

/-- The count that a statement gives is the one that is kept. -/
theorem runs_run_lastChanges {n : Nat}
    (h : (Database.run statement params : Step MemoryDatabase Nat).run m = (.ok n, m')) :
    Runs (do let _ ← Connection.run statement params; Connection.lastChanges) m n m' := by
  rintro σ rfl
  obtain ⟨σ₁, hrun, rfl⟩ := runs_observe statement.render h σ rfl
  refine ⟨{ σ₁ with changes := n }, ?_, rfl⟩
  refine Action.outcome_bind_eq_ok_iff.2 ⟨n, { σ₁ with changes := n }, ?_, rfl⟩
  exact Action.outcome_bind_eq_ok_iff.2 ⟨n, σ₁, hrun, rfl⟩

end Session

namespace MemoryDatabase

variable {m m' : MemoryDatabase} {statement : Sql.Statement} {params : Sql.Params} {p : Prepared}

/-- A temporary table whose name is free is created of the rows of a query. -/
theorem prepare_createTemporary {ctx : Context} {n : Part} {q : Sql.Select} {os : List Output}
    {rows : List (Array Storage)} (hname : checkTableName n.name = .ok ())
    (hfree : ctx.catalog.findIn? .temp n.name = none) (hq : evalSelect ctx q = .ok (os, rows)) :
    prepare ctx (.createTemporary n (.select q)) =
      .ok (.create .temp (tableOfRows n.name os rows)) := by
  change prepareTemporary ctx n.name q = _
  unfold prepareTemporary
  rw [hname, Except.ok_bind]
  dsimp only
  rw [hfree, if_neg (by simp), hq]
  rfl

theorem executeFirst_eq (hplain : statement.isPlain = true)
    (hp : prepare (m.context params) statement = .ok p)
    (hcount : countGiven params statement.maxParam = statement.maxParam)
    (hperform : m.perform p = (.ok (), m')) :
    m.executeFirst statement params = (.ok p, m') := by
  unfold executeFirst executeBound
  rw [readings_of_isPlain hplain]
  dsimp only
  rw [hp]
  dsimp only
  rw [if_neg (by simp [hcount]), hperform]

/-- A plain statement that gives no rows runs if it can be prepared and performed. -/
theorem run_eq (hplain : statement.isPlain = true)
    (hp : prepare (m.context params) statement = .ok p)
    (hcount : countGiven params statement.maxParam = statement.maxParam)
    (hperform : m.perform p = (.ok (), m')) (hnone : rowsOf p = []) :
    (Database.run statement params : Step MemoryDatabase Nat).run m = (.ok m'.changes, m') := by
  rw [run_run, executeFirst_eq hplain hp hcount hperform]
  cases p with
  | rows os rows =>
      cases rows with
      | nil => rfl
      | cons r rs => simp [rowsOf, resultRows] at hnone
  | _ => rfl

/-- A plain query that gives rows runs, and leaves the database as it is. -/
theorem query_eq {q : Sql.Select} {os : List Output} {rows : List (Array Storage)}
    (hplain : (Sql.Statement.select q).isPlain = true)
    (hq : evalSelect (m.context params) q = .ok (os, rows))
    (hcount : countGiven params (Sql.Statement.select q).maxParam =
      (Sql.Statement.select q).maxParam) :
    (Database.query (.select q) params : Step MemoryDatabase (List Row)).run m =
      (.ok (resultRows os rows), m) := by
  have hp : prepare (m.context params) (.select q) = .ok (.rows os rows) := by
    change (evalSelect (m.context params) q >>= fun r => Except.ok (Prepared.rows r.1 r.2)) = _
    rw [hq]
    rfl
  rw [run_query, executeFirst_eq hplain hp hcount rfl]

end MemoryDatabase

namespace Pool

variable {α : Type} {a : α} {m m' : MemoryDatabase} {p : Pool MemoryDatabase}

/-- A transaction succeeds where its action does and every reference holds behind it. -/
theorem transaction_eq {f : Action (Session MemoryDatabase) α} (hm : p.database = some m)
    (hfree : m.saved = none)
    (hf : Session.Runs f { m with saved := some m.catalog } a m') (hopen : m'.saved.isSome = true)
    (hholds : m'.catalog.consistent true = true) :
    ∃ p', outcome (transaction f) p = (.ok a, p') ∧
      p'.database = some { m' with saved := none } := by
  obtain ⟨σ, hrun, rfl⟩ := hf (Session.start _ p.logLimit) rfl
  have hbegin : outcome Database.begin m = (.ok (), { m with saved := some m.catalog }) := by
    change (if m.saved.isSome then _ else _) = _
    rw [hfree]
    rfl
  have hsettle : settle a σ.database = (.ok a, { σ.database with saved := none }) := by
    have hcommit : outcome Database.commit σ.database =
        (.ok (), { σ.database with saved := none }) := by
      change (if (!σ.database.saved.isSome) = true then _
        else if σ.database.catalog.consistent true = true then _ else _) = _
      rw [hopen, hholds]
      rfl
    unfold settle
    rw [Action.run_eq, hcommit]
  have htransact : transact p.logLimit f m =
      (.ok a, { σ.database with saved := none }, σ.events) := by
    rw [transact_eq, hbegin]
    simp only [hrun, hsettle]
  refine ⟨{ p with
    database := some { σ.database with saved := none }
    events := σ.events ++ p.events }, ?_, rfl⟩
  rw [outcome_transaction, hm]
  simp only [htransact]

/-- A transaction under a lease of its own succeeds where its action does. -/
theorem withLease_eq {f : Action (Session MemoryDatabase) α} (hm : p.database = some m)
    (hfree : m.saved = none)
    (hf : Session.Runs f { m with saved := some m.catalog } a m') (hopen : m'.saved.isSome = true)
    (hholds : m'.catalog.consistent true = true) :
    ∃ p', outcome (withLease f) p = (.ok a, p') ∧
      p'.database = some { m' with saved := none } := by
  obtain ⟨q, hrun, hq⟩ := transaction_eq
    (p := { p with active := p.active + 1 }.note (.acquired (p.active + 1))) hm hfree hf hopen
      hholds
  refine ⟨(release ⟨false⟩ q).2, ?_, hq⟩
  have hclosed : p.isClosed = false := by
    rw [isClosed, hm]
    rfl
  rw [outcome_withLease, hclosed]
  simp only [Bool.false_eq_true, if_false, hrun]

end Pool

end StagedStore
