import StagedStore.Connection.Recorded
import StagedStore.Proofs.Sql.Selects
import StagedStore.Proofs.Store.Chunked

/-!
# The staging script

A plan is staged by a script of calls: the leftover table is dropped, the table is created from the
first chunk, its rows are counted and the other chunks are appended. The calls are made in this
order, up to the first that fails.
-/

namespace StagedStore

open Sql Connection

/-! ## Scripts of calls -/

/-- Why a call of a staging script ends it, if it does: the connection refuses it, or it is the
count query and gives no count. -/
def Call.failure? : Call × Reply → Option Error
  | (_, ⟨some e, _, _⟩) => some e
  | (.queryAll sql _, ⟨none, _, []⟩) => some (.noRow sql)
  | (.queryAll _ _, ⟨none, _, r :: _⟩) =>
    match r.get? "n" with
    | none => some (.decode "n" .missing)
    | some (.integer _) => none
    | some v => some (.decode "n" (.notInteger v))
  | _ => none

/-- The calls of a script are made in order, up to the first that fails; its error is the result. -/
inductive Call.Made {α : Type} : List Call → List (Call × Reply) → Except Error α → Prop
  | done (a : α) : Made [] [] (.ok a)
  | failed {c : Call} {r : Reply} {e : Error} (cs : List Call) (h : failure? (c, r) = some e) :
      Made (c :: cs) [(c, r)] (.error e)
  | next {c : Call} {r : Reply} {cs : List Call} {made : List (Call × Reply)} {x : Except Error α}
      (h : failure? (c, r) = none) (hrest : Made cs made x) : Made (c :: cs) ((c, r) :: made) x

namespace Call.Made

variable {α β : Type} {cs cs' : List Call} {made made' : List (Call × Reply)} {x : Except Error α}

theorem one {c : Call} {r : Reply} (h : failure? (c, r) = none) (a : α) :
    Made [c] [(c, r)] (.ok a) :=
  .next h (.done a)

theorem append {a : α} {y : Except Error β} (h : Made cs made (.ok a)) (h' : Made cs' made' y) :
    Made (cs ++ cs') (made ++ made') y := by
  generalize hx : (.ok a : Except Error α) = x at h
  induction h with
  | done => exact h'
  | failed => cases hx
  | next hc _ ih => exact .next hc (ih hx)

theorem append_error {e : Error} (h : Made cs made (.error e : Except Error α))
    (cs' : List Call) : Made (cs ++ cs') made (.error e : Except Error β) := by
  generalize hx : (.error e : Except Error α) = x at h
  induction h with
  | done => cases hx
  | failed cs hc =>
      obtain rfl := Except.error.inj hx
      exact .failed _ hc
  | next hc _ ih => exact .next hc (ih hx)

theorem isPrefix (h : Made cs made x) : made.map Prod.fst <+: cs := by
  induction h with
  | done => exact List.prefix_refl _
  | failed cs _ => exact ⟨cs, rfl⟩
  | next _ _ ih => exact (List.prefix_cons_inj _).2 ih

/-- A script succeeds when all its calls are made and none of them fails. -/
theorem exists_ok_iff (h : Made cs made x) :
    (∃ a, x = .ok a) ↔ made.map Prod.fst = cs ∧ ∀ m ∈ made, failure? m = none := by
  induction h with
  | done a => simp
  | failed cs hc => simp [hc]
  | next hc _ ih => simp [ih, hc]

/-- A script fails with the error of the call that was made last, the only one that failed. -/
theorem eq_error_iff (h : Made cs made x) (e : Error) :
    x = .error e ↔ ∃ before last, made = before ++ [last] ∧
      (∀ m ∈ before, failure? m = none) ∧ failure? last = some e := by
  induction h with
  | done a => simp
  | @failed c r e' cs hc =>
      constructor
      · rintro ⟨⟩
        exact ⟨[], (c, r), rfl, by simp, hc⟩
      · rintro ⟨before, last, hmade, -, hlast⟩
        have hsplit : [] ++ [(c, r)] = before ++ [last] := hmade
        obtain ⟨rfl, hlast'⟩ := List.append_inj' hsplit rfl
        obtain rfl := List.singleton_inj.1 hlast'
        rw [hc] at hlast
        exact congrArg _ (Option.some.inj hlast)
  | @next c r cs made x hc _ ih =>
      rw [ih]
      constructor
      · rintro ⟨before, last, rfl, hbefore, hlast⟩
        exact ⟨(c, r) :: before, last, rfl, List.forall_mem_cons.2 ⟨hc, hbefore⟩, hlast⟩
      · rintro ⟨before, last, hmade, hbefore, hlast⟩
        cases before with
        | nil =>
            -- The call that succeeded would be the one that failed.
            obtain ⟨rfl, -⟩ := List.cons.inj hmade
            rw [hc] at hlast
            cases hlast
        | cons m before =>
            obtain ⟨-, rfl⟩ := List.cons.inj hmade
            exact ⟨before, last, rfl, (List.forall_mem_cons.1 hbefore).2, hlast⟩

end Call.Made

/-! ## Actions that follow a script -/

namespace Recorded

variable {σ α β γ : Type}

/-- An action on a recorded connection does what it does without the record, and the record shows
that it makes the calls of a script. -/
def Follows (f : Action (Recorded σ) α) (g : Action σ α) (script : List Call) : Prop :=
  ∀ r : Recorded σ, ∃ made,
    outcome f r = ((outcome g r.connection).1, ⟨(outcome g r.connection).2, r.made ++ made⟩) ∧
    Call.Made script made (outcome g r.connection).1

theorem follows_pure (a : α) : Follows (σ := σ) (pure a) (pure a) [] :=
  fun r => ⟨[], by simp, .done a⟩

theorem Follows.bind {f : Action (Recorded σ) α} {g : Action σ α}
    {f' : α → Action (Recorded σ) β} {g' : α → Action σ β} {script script' : List Call}
    (h : Follows f g script) (h' : ∀ a, Follows (f' a) (g' a) script') :
    Follows (f >>= f') (g >>= g') (script ++ script') := by
  intro r
  obtain ⟨made, hf, hmade⟩ := h r
  rw [Action.outcome_bind, Action.outcome_bind, hf]
  generalize outcome g r.connection = out at hmade
  rcases out with ⟨e | a, c⟩
  · exact ⟨made, rfl, hmade.append_error script'⟩
  · obtain ⟨made', hf', hmade'⟩ := h' a ⟨c, r.made ++ made⟩
    exact ⟨made ++ made', by simpa only [List.append_assoc] using hf', hmade.append hmade'⟩

theorem Follows.bind_silent {f : Action (Recorded σ) α} {g : Action σ α}
    {f' : α → Action (Recorded σ) β} {g' : α → Action σ β} {script : List Call}
    (h : Follows f g script) (h' : ∀ a, Follows (f' a) (g' a) []) :
    Follows (f >>= f') (g >>= g') script := by
  have hbind := h.bind h'
  rwa [List.append_nil] at hbind

theorem follows_forM {f : γ → Action (Recorded σ) Unit} {g : γ → Action σ Unit} {call : γ → Call}
    (h : ∀ x, Follows (f x) (g x) [call x]) (xs : List γ) :
    Follows (xs.forM f) (xs.forM g) (xs.map call) := by
  induction xs with
  | nil => exact follows_pure ()
  | cons x xs ih => exact (h x).bind fun _ => ih

theorem outcome_pass (call : Call) (step : Action σ α) (reply : α → Reply) (r : Recorded σ) :
    outcome (pass call step reply) r = ((outcome step r.connection).1,
      ⟨(outcome step r.connection).2, r.made ++ [(call, match (outcome step r.connection).1 with
        | .ok a => reply a
        | .error e => ⟨some e, 0, []⟩)]⟩) := by
  change (match outcome step r.connection with
    | (.ok a, c) => _
    | (.error e, c) => _ : Except Error α × Recorded σ) = _
  rcases outcome step r.connection with ⟨e | a, c⟩ <;> rfl

/-- A call that is not asked for rows fails only when the connection refuses it. -/
theorem follows_pass {call : Call} {step : Action σ α} {reply : α → Reply}
    (h : ∀ a, Call.failure? (call, reply a) = none) :
    Follows (pass call step reply) step [call] := by
  intro r
  refine ⟨_, outcome_pass call step reply r, ?_⟩
  rcases outcome step r.connection with ⟨e | a, c⟩
  · exact .failed [] (by cases call <;> rfl)
  · exact .one (h a) a

variable [Connection σ]

theorem follows_exec (script : Script) :
    Follows (σ := σ) (exec script) (exec script) [.exec script.render] :=
  follows_pass fun _ => rfl

theorem follows_run (q : Statement) (params : Params) :
    Follows (σ := σ) (run q params) (run q params) [.run q.render params] :=
  follows_pass fun _ => rfl

theorem follows_report (e : Event) : Follows (σ := σ) (report e) (report e) [] :=
  fun r => ⟨[], by simp [report, note], .done ()⟩

/-- The count that the rows of the count query give. -/
def countIn (sql : String) : List Row → Except Error Int64
  | [] => .error (.noRow sql)
  | r :: _ => r.getInteger "n"

theorem failure?_queryAll (sql : String) (params : Params) (rows : List Row) :
    Call.failure? (.queryAll sql params, ⟨none, 0, rows⟩) = match countIn sql rows with
      | .ok _ => none
      | .error e => some e := by
  cases rows with
  | nil => rfl
  | cons r rows =>
      unfold Call.failure? countIn Row.getInteger Row.get
      dsimp only
      cases r.get? "n" with
      | none => rfl
      | some v => cases v <;> rfl

theorem count_eq (q : Statement) :
    (querySingle q #[] >>= fun r => Action.ofExcept (r.getInteger "n") : Action σ Int64) =
      queryAll q #[] >>= fun rows => Action.ofExcept (countIn q.render rows) := by
  unfold querySingle
  rw [bind_assoc]
  refine congrArg _ (funext fun rows => ?_)
  cases rows <;> rfl

/-- The count query fails when the connection refuses it, when it gives no row, and when its first
row has no integer `n`. -/
theorem follows_count (q : Statement) :
    Follows (σ := σ) (querySingle q #[] >>= fun r => Action.ofExcept (r.getInteger "n"))
      (querySingle q #[] >>= fun r => Action.ofExcept (r.getInteger "n"))
      [.queryAll q.render #[]] := by
  rw [count_eq, count_eq]
  intro r
  rw [Action.outcome_bind, Action.outcome_bind]
  have hpass := outcome_pass (.queryAll q.render #[]) (queryAll q #[])
    (fun rows => ⟨none, 0, rows⟩) r
  change outcome (queryAll q #[]) r = _ at hpass
  rw [hpass]
  rcases outcome (queryAll q #[]) r.connection with ⟨e | rows, c⟩
  · exact ⟨_, rfl, .failed [] rfl⟩
  · refine ⟨_, rfl, ?_⟩
    have hfailure := failure?_queryAll q.render #[] rows
    change Call.Made _ _ (countIn q.render rows)
    cases hcount : countIn q.render rows with
    | error e => exact .failed [] (by rw [hfailure, hcount])
    | ok n => exact .one (by rw [hfailure, hcount]) n

end Recorded

/-! ## Staging a plan -/

namespace StagingTable

open Recorded

variable {σ : Type} [Connection σ] (t : StagingTable) (q : Query) (params : Params)

/-- The calls that create a staging table from a query. -/
def createCalls : List Call :=
  [.exec ("DROP TABLE IF EXISTS temp." ++ quoteName t.name ++ ";"),
    .run ("CREATE TEMPORARY TABLE " ++ quoteName t.name ++ " AS " ++ q.render) params,
    .queryAll ("SELECT COUNT(*) AS n FROM temp." ++ quoteName t.name) #[]]

/-- The call that adds the rows of a query to a staging table. -/
def appendCall : Call :=
  .run ("INSERT INTO temp." ++ quoteName t.name ++ " " ++ q.render) params

theorem render_dropScript :
    t.dropScript.render = "DROP TABLE IF EXISTS temp." ++ quoteName t.name ++ ";" := by
  change "DROP TABLE " ++ "IF EXISTS " ++ ("temp." ++ quoteName t.name) ++ ";" = _
  simp only [← String.append_assoc]
  rfl

theorem render_countQuery :
    t.countQuery.render = "SELECT COUNT(*) AS n FROM temp." ++ quoteName t.name := by
  refine (render_select [.expr .countAll (some (.bare "n"))] t.table none [] none).trans ?_
  change "SELECT " ++ ("COUNT(*) AS n" ++ (" FROM " ++ ("temp." ++ quoteName t.name ++
    ("" ++ ("" ++ ""))))) = _
  simp only [← String.append_assoc, String.append_empty]
  rfl

theorem render_insertQuery : (Statement.insertQuery t.table q).render =
    "INSERT INTO temp." ++ quoteName t.name ++ " " ++ q.render := by
  change "INSERT INTO " ++ ("temp." ++ quoteName t.name) ++ " " ++ q.render = _
  simp only [← String.append_assoc]
  rfl

theorem follows_discard : Follows (σ := σ) t.discard t.discard [.exec t.dropScript.render] :=
  (follows_exec t.dropScript).bind_silent fun _ => follows_report _

theorem follows_create :
    Follows (σ := σ) (t.create q params) (t.create q params) (t.createCalls q params) := by
  have hcount (k : Int64 → Action (Recorded σ) UInt64) (k' : Int64 → Action σ UInt64)
      (hk : ∀ n, Follows (k n) (k' n) []) :
      Follows (querySingle t.countQuery #[] >>= fun r => Action.ofExcept (r.getInteger "n") >>= k)
        (querySingle t.countQuery #[] >>= fun r => Action.ofExcept (r.getInteger "n") >>= k')
        [.queryAll t.countQuery.render #[]] := by
    rw [← bind_assoc, ← bind_assoc]
    exact (follows_count t.countQuery).bind_silent hk
  rw [createCalls, ← render_dropScript, ← render_countQuery]
  exact t.follows_discard.bind fun _ =>
    (follows_run (.createTemporary (.quoted t.name) q) params).bind fun _ =>
      hcount _ _ fun n => (follows_report _).bind fun _ => follows_pure _

theorem follows_append :
    Follows (σ := σ) (t.append q params) (t.append q params) [t.appendCall q params] := by
  rw [appendCall, ← render_insertQuery]
  exact (follows_run (.insertQuery t.table q) params).bind_silent fun n =>
    (follows_report _).bind_silent fun _ => follows_pure n

end StagingTable

namespace Plan

open Recorded

variable {σ : Type} [Connection σ] (p : Plan) (s : Schema) (t : StagingTable)

/-- The staging script of chunks, the first of which the table is created from. -/
def stagingCalls (first : List PlanRow) (rest : List (List PlanRow)) : List Call :=
  t.createCalls (.select (p.select s first).1) (p.select s first).2 ++
    rest.map fun c => t.appendCall (.select (p.select s c).1) (p.select s c).2

theorem follows_stage {first : List PlanRow} {rest : List (List PlanRow)}
    (h : p.chunks = first :: rest) :
    Follows (σ := σ) (p.stage s t) (p.stage s t) (p.stagingCalls s t first rest) := by
  have hnext (c : List PlanRow) : Follows (σ := σ) (p.stageNext s t c) (p.stageNext s t c)
      [t.appendCall (.select (p.select s c).1) (p.select s c).2] :=
    (t.follows_append _ _).bind_silent fun _ => follows_pure ()
  unfold stage
  rw [h]
  exact (t.follows_create _ _).bind fun _ => follows_forM hnext rest

end Plan

namespace Padded

/-- The staging table is created and filled, and the count is answered by a text. -/
def replies : List Reply :=
  [⟨none, 0, []⟩, ⟨none, 2, []⟩, ⟨none, 0, [⟨["n"], [.text "2"]⟩]⟩]

theorem chunks_plan : plan.chunks = [plan.rows] := by
  unfold Plan.chunks
  rw [chunksOf, if_neg (by decide), chunksOf, if_pos (by decide)]
  rfl

theorem stage_replies : (outcome (plan.stage schema ⟨"s"⟩) (Scripted.ofReplies replies)).1 =
    .error (.decode "n" (.notInteger (.text "2"))) := by
  unfold Plan.stage
  rw [chunks_plan]
  rfl

end Padded

end StagedStore
