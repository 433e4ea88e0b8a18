import StagedStore.Connection.Basic

/-!
# Scripted connections

A connection without a database. It answers each call from a list of replies and records what it
was asked.
-/

namespace StagedStore

/-- What a scripted connection answers to a call. -/
structure Reply where
  error : Option Error
  affected : Nat
  rows : List Row

/-- What a connection was asked. -/
inductive Call where
  | exec (sql : String)
  | run (sql : String) (params : Sql.Params)
  | queryAll (sql : String) (params : Sql.Params)

structure Scripted where
  replies : List Reply
  /-- The calls, the last first. -/
  calls : List Call
  changes : Nat

namespace Scripted

/-- A connection that was asked nothing yet. -/
def ofReplies (replies : List Reply) : Scripted :=
  ⟨replies, [], 0⟩

/-- Record a call and take the next reply; without one nothing happens and nothing is found. -/
def answer (c : Call) : Action Scripted Reply := fun s =>
  let r := s.replies.headD ⟨none, 0, []⟩
  let s := { s with replies := s.replies.drop 1, calls := c :: s.calls }
  match r.error with
  | some e => (.error e, s)
  | none => (.ok r, s)

instance : Connection Scripted where
  exec script := do
    let _ ← answer (.exec script.render)
  run statement params := do
    let r ← answer (.run statement.render params)
    modify fun s => { s with changes := r.affected }
    return r.affected
  queryAll statement params :=
    return (← answer (.queryAll statement.render params)).rows
  changes s := s.changes
  note _ s := s

end Scripted

end StagedStore
