import StagedStore.Connection.Scripted

/-!
# Recorded connections

Any connection beside a record of what it was asked and what it answered. Recording changes nothing
that the connection does.
-/

namespace StagedStore

structure Recorded (σ : Type) where
  connection : σ
  /-- The calls and their replies, the first in front. -/
  made : List (Call × Reply)

namespace Recorded

variable {σ α : Type}

/-- A connection that was asked nothing yet. -/
def start (c : σ) : Recorded σ :=
  ⟨c, []⟩

/-- Pass a call on to the connection and record its reply. -/
def pass (call : Call) (step : Action σ α) (reply : α → Reply) : Action (Recorded σ) α := fun r =>
  match step.run r.connection with
  | (.ok a, c) => (.ok a, ⟨c, r.made ++ [(call, reply a)]⟩)
  | (.error e, c) => (.error e, ⟨c, r.made ++ [(call, ⟨some e, 0, []⟩)]⟩)

instance [Connection σ] : Connection (Recorded σ) where
  exec script := pass (.exec script.render) (Connection.exec script) fun _ => ⟨none, 0, []⟩
  run statement params :=
    pass (.run statement.render params) (Connection.run statement params) fun n => ⟨none, n, []⟩
  queryAll statement params :=
    pass (.queryAll statement.render params) (Connection.queryAll statement params) fun rows =>
      ⟨none, 0, rows⟩
  changes r := Connection.changes r.connection
  note e r := { r with connection := Connection.note e r.connection }

end Recorded

end StagedStore
