import EventSourcing.Bench.Statement
import Mathlib.Data.List.Basic
import Mathlib.Logic.Function.Basic

/-!
# The tables of `PostgresClient`

The counters of `stream_versions` and the rows of `bench_events`, with the statements that
`PostgresClient` sends. The ids of new rows and the values that the identity column draws are
given by `Draws`.
-/

namespace EventSourcing.PostgresClient

open Bench

/-- A row of `bench_events`; `P` is the type of the bytes of a payload. -/
structure BenchEvent (P : Type) where
  eventId : String
  streamId : String
  streamVersion : Int
  globalPosition : Int
  eventType : String
  seq : Int64
  taskId : Int64
  payload : P
  deriving DecidableEq

structure Tables (P : Type) where
  /-- column `version` of the row of `stream_versions` for a stream -/
  streamVersions : String → Option Int
  benchEvents : List (BenchEvent P)

/-- The arguments of `append_batch_versioned`. -/
structure Batch (P : Type) where
  streamId : String
  eventType : String
  payloads : List P
  baseSeq : UInt64
  taskId : UInt64

/-- What is drawn for the rows of an `INSERT`, in their order. -/
structure Draws where
  eventId : ℕ → String
  globalPosition : ℕ → Int

variable {P : Type}

/-- The rows of a batch whose first version is `startVersion`. -/
def Batch.rows (batch : Batch P) (startVersion : Int) (draws : Draws) : List (BenchEvent P) :=
  batch.payloads.mapIdx fun i payload =>
    { eventId := draws.eventId i
      streamId := batch.streamId
      streamVersion := startVersion + i
      globalPosition := draws.globalPosition i
      eventType := batch.eventType
      seq := (batch.baseSeq + .ofNat i).toInt64
      taskId := batch.taskId.toInt64
      payload := payload }

namespace Tables

variable (db : Tables P)

/-- The version the next row of the stream gets from the counter. -/
def version (s : String) : Int := (db.streamVersions s).getD 0

/-- The upsert of `stream_versions` by `n`. -/
def upsertVersion (s : String) (n : Int) : Tables P :=
  { db with streamVersions := Function.update db.streamVersions s (some (db.version s + n)) }

/-- A row carries the primary key of a stored row. -/
def HasEventId (rows : List (BenchEvent P)) : Prop :=
  ∃ row ∈ rows, ∃ e ∈ db.benchEvents, e.eventId = row.eventId

/-- A row carries the stream and version of a stored row. -/
def HasVersion (rows : List (BenchEvent P)) : Prop :=
  ∃ row ∈ rows, ∃ e ∈ db.benchEvents,
    e.streamId = row.streamId ∧ e.streamVersion = row.streamVersion

instance (rows : List (BenchEvent P)) : Decidable (db.HasEventId rows) :=
  inferInstanceAs (Decidable (∃ row ∈ rows, ∃ e ∈ db.benchEvents, _))

instance (rows : List (BenchEvent P)) : Decidable (db.HasVersion rows) :=
  inferInstanceAs (Decidable (∃ row ∈ rows, ∃ e ∈ db.benchEvents, _))

/-- `INSERT INTO bench_events`; all the rows or, on a violation of a unique key, none. -/
def insert (rows : List (BenchEvent P)) : Option (Tables P) :=
  if db.HasEventId rows ∨ db.HasVersion rows ∨ ¬ (rows.map (·.eventId)).Nodup then none
  else some { db with benchEvents := db.benchEvents ++ rows }

/-! ### `append_batch_versioned` -/

/-- The parameters a statement can bind. -/
def maxBinds : ℕ := 65535

/-- The statement of the single-event path: upsert and `INSERT` in one. -/
def upsertAndInsert (batch : Batch P) (draws : Draws) : Option (Tables P) :=
  (db.upsertVersion batch.streamId 1).insert (batch.rows (db.version batch.streamId) draws)

/-- The `INSERT` of the batch path binds seven parameters for each row. -/
def insertBatch (batch : Batch P) (startVersion : Int) (draws : Draws) : Option (Tables P) :=
  if maxBinds < 7 * batch.payloads.length then none
  else db.insert (batch.rows startVersion draws)

/-- `append_batch_versioned`, with what becomes of its counter update and of its last
statement. -/
def appendBatchVersioned (batch : Batch P) (draws : Draws) (counter last : Outcome) :
    Except String Int × Tables P :=
  match batch.payloads with
  | [] => (.ok 0, db)
  | [_] =>
    match last.run (db.upsertAndInsert batch draws) db with
    | (true, db) => (.ok 1, db)
    | (false, db) =>
      (.error s!"single-event versioned insert failed for '{batch.streamId}'", db)
  | _ =>
    match counter.run (some (db.upsertVersion batch.streamId batch.payloads.length)) db with
    | (false, db) => (.error s!"version counter update failed for '{batch.streamId}'", db)
    | (true, advanced) =>
      match last.run (advanced.insertBatch batch (db.version batch.streamId) draws) advanced with
      | (true, db) => (.ok batch.payloads.length, db)
      | (false, db) => (.error "versioned batch insert failed", db)

/-! ### The other operations -/

/-- `append_with_stream_version` -/
def appendWithStreamVersion (streamId eventType : String) (payload : P) (streamVersion : Int)
    (seq taskId : UInt64) (draws : Draws) (outcome : Outcome) : Except String Unit × Tables P :=
  let row : BenchEvent P :=
    { eventId := draws.eventId 0
      streamId := streamId
      streamVersion := streamVersion
      globalPosition := draws.globalPosition 0
      eventType := eventType
      seq := seq.toInt64
      taskId := taskId.toInt64
      payload := payload }
  match outcome.run (db.insert [row]) db with
  | (true, db) => (.ok (), db)
  | (false, db') =>
    if (db.insert [row]).isNone ∧ outcome ≠ .rejected then (.error "wrong expected version", db')
    else (.error s!"explicit-version insert failed for '{streamId}'", db')

/-- `truncate_bench_table` -/
def truncateBenchTable : Tables P := { db with benchEvents := [] }

/-- `ensure_bench_table_event_store` drops the table and creates it again. -/
def ensureBenchTableEventStore : Tables P := { db with benchEvents := [] }

/-- `init_stream_versions`: a row that is there already stays. -/
def initStreamVersions (streamIds : List String) : Tables P :=
  { db with
    streamVersions := fun s =>
      if s ∈ streamIds then some (db.version s) else db.streamVersions s }

end Tables

end EventSourcing.PostgresClient
