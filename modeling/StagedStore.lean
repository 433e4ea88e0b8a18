import StagedStore.Connection.Scripted
import StagedStore.Json.Reader
import StagedStore.Proofs.Recovery.NoTrace
import StagedStore.Proofs.Update.OneByOne
import StagedStore.Store.Basic
import StagedStore.Proofs.Sql.Again
import StagedStore.Proofs.Sql.Clause
import StagedStore.Proofs.Pool.Accounting
import StagedStore.Proofs.Insert.Numbered
import StagedStore.Proofs.Insert.Stored
import StagedStore.Proofs.Insert.Run
import StagedStore.Proofs.Insert.Assigned
import StagedStore.Proofs.Insert.Entities
import StagedStore.Proofs.Filter.Meaning
import StagedStore.Proofs.Filter.Evaluated
import StagedStore.Proofs.Filter.Written
import StagedStore.Proofs.Sql.Selects
import StagedStore.Proofs.Identifier
import StagedStore.Proofs.Literal
import StagedStore.Proofs.Update.Layout
import StagedStore.Proofs.Update.Returned
import StagedStore.Proofs.Filter.Selected
import StagedStore.Proofs.Filter.Read
import StagedStore.Proofs.Filter.Built
import StagedStore.Proofs.Sql.Numbered
import StagedStore.Proofs.Sql.Legal
import StagedStore.Proofs.Filter.Fragments
import StagedStore.Proofs.Filter.Matched
import StagedStore.Proofs.Sql.Framed
import StagedStore.Proofs.Filter.Statements
import StagedStore.Proofs.Store.Read
import StagedStore.Proofs.Staging.ReadBack
import StagedStore.Proofs.Store.Delete
import StagedStore.Proofs.Store.Planned
import StagedStore.Proofs.Store.Patched
import StagedStore.Proofs.Keyed
import StagedStore.Proofs.Store.Reported
import StagedStore.Proofs.Staging.Succeeds
import StagedStore.Proofs.Store.Aligned
import StagedStore.Proofs.Store.Agreement
import StagedStore.Proofs.Calendar.Date
import StagedStore.Proofs.Calendar.Timestamp
import StagedStore.Proofs.Uuid
import StagedStore.Proofs.Json
import StagedStore.Proofs.Schema.Codec
import StagedStore.Proofs.Recovery.Removal
import StagedStore.Proofs.Store.OneRow
import StagedStore.Proofs.Identifier.Grammar
import StagedStore.Proofs.Entity
import StagedStore.Proofs.Recovery.WriteBacks
import StagedStore.Proofs.Recovery.Refused
import StagedStore.Proofs.Store.Removed
import StagedStore.Proofs.Staging.Leftover
import StagedStore.Proofs.Staging.NoMark
import StagedStore.Proofs.Memory.Order
import StagedStore.Proofs.Store.Ordered
import StagedStore.Proofs.Store.Scope
import StagedStore.Proofs.Sql.Marks
import StagedStore.Proofs.Sql.Shown
import StagedStore.Proofs.Update.Tuples
import StagedStore.Proofs.Chunks
import StagedStore.Proofs.Store.Chunked
import StagedStore.Proofs.Filter.Shown
import StagedStore.Proofs.Store.Placeholders
import StagedStore.Proofs.Filter.Columns
import StagedStore.Proofs.Sql.Front
import StagedStore.Proofs.Calendar.Order
import StagedStore.Proofs.Store.Chronology
import StagedStore.Proofs.Schema.Whole
import StagedStore.Proofs.Store.Told
import StagedStore.Proofs.Insert.Rows
import StagedStore.Proofs.Store.States
import StagedStore.Proofs.Store.Nearest
import StagedStore.Proofs.Update.Written
import StagedStore.Proofs.Update.RealKeys
import StagedStore.Proofs.Store.Legible
import StagedStore.Connection.Recorded
import StagedStore.Proofs.Staging.Script
import StagedStore.Proofs.Schema.Created
import StagedStore.Proofs.Schema.Declared
import StagedStore.Proofs.Store.Found
import StagedStore.Proofs.Update.Chosen
import StagedStore.Proofs.Insert.Limits
import StagedStore.Proofs.Filter.Kept
import StagedStore.Proofs.Filter.Judged
