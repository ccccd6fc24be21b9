import EventSourcing.PostgresClient.Benchmark

/-!
# The other runners that write to PostgreSQL

Each of them appends from one task, call after call, and ends at the first error. Where the
number of a batch comes from differs: `hot_cache_bench` and `memcache_bench` compute it before
the events from the same index, `projection_bench`, `search_bench` and `scale_bench` advance a
counter with each event and take the number from the counter afterwards.
-/

namespace EventSourcing.PostgresClient

open Bench Concurrency

/-! ### One append after the other -/

/-- What a runner appends: the next batch, from where the runner stands. -/
structure Writer (S : Type) where
  init : S
  next : S → Option (Batch BenchmarkEvent × S)

/-- The appends of a list. -/
def Writer.ofList (batches : List (Batch BenchmarkEvent)) :
    Writer (List (Batch BenchmarkEvent)) where
  init := batches
  next
    | [] => none
    | batch :: rest => some (batch, rest)

structure Writing (S : Type) where
  db : Tables BenchmarkEvent
  /-- where the runner stands; none after an error -/
  control : Option S

/-- What becomes of a call of `append_batch_versioned`. -/
structure CallResult where
  draws : Draws
  counter : Outcome
  last : Outcome

/-- The runs of a writer, which start on a new table. -/
def Writer.system {S : Type} (w : Writer S) : System (Writing S) CallResult where
  init σ := σ.db.benchEvents = [] ∧ σ.control = some w.init
  next σ call :=
    (σ.control.bind w.next).map fun (batch, s) =>
      match σ.db.appendBatchVersioned batch call.draws call.counter call.last with
      | (.ok _, db) => { db := db, control := some s }
      | (.error _, db) => { db := db, control := none }

/-! ### `hot_cache_bench` and `memcache_bench` -/

/-- The batch of a stream under a number, from its events. -/
def batchOf (streamId : String) (payloads : List BenchmarkEvent) (baseSeq taskId : UInt64) :
    Batch BenchmarkEvent where
  streamId := streamId
  eventType := "BenchmarkEvent"
  payloads := payloads
  baseSeq := baseSeq
  taskId := taskId

structure CacheConfig where
  streamName : String
  seedEvents : UInt64
  seedBatchSize : UInt64
  liveWrites : UInt64

namespace CacheConfig

variable (config : CacheConfig)

/-- A batch of `n` events of the seed phase from `base` on. -/
def seedBatch (base n : UInt64) : Batch BenchmarkEvent :=
  batchOf config.streamName ((List.range n.toNat).map fun i => ⟨base + .ofNat i, 0⟩) base 0

/-- The seed phase and the live writes. -/
def appends : List (Batch BenchmarkEvent) :=
  -- the division by the batch size panics
  if config.seedBatchSize = 0 then []
  else
    let batches := config.seedEvents / config.seedBatchSize
    let full := (List.range batches.toNat).map fun b =>
      config.seedBatch (.ofNat b * config.seedBatchSize) config.seedBatchSize
    let remainder := config.seedEvents % config.seedBatchSize
    let rest :=
      if 0 < remainder then [config.seedBatch (batches * config.seedBatchSize) remainder] else []
    let live := (List.range config.liveWrites.toNat).map fun i =>
      let seq := config.seedEvents + .ofNat i
      batchOf config.streamName [⟨seq, 1⟩] seq 1
    full ++ rest ++ live

end CacheConfig

/-- `hot_cache_bench::run_postgres` -/
def hotCacheBench (config : CacheConfig) : Writer (List (Batch BenchmarkEvent)) :=
  .ofList config.appends

/-- `memcache_bench::run_postgres` -/
def memcacheBench (config : CacheConfig) : Writer (List (Batch BenchmarkEvent)) :=
  .ofList config.appends

/-! ### `projection_bench` and `search_bench` -/

/-- `global_seq += 1; BenchmarkEvent::new(global_seq, 0)`, `n` times, and the counter after it. -/
def nextEvents (globalSeq : UInt64) : ℕ → List BenchmarkEvent × UInt64
  | 0 => ([], globalSeq)
  | n + 1 =>
    let (events, last) := nextEvents (globalSeq + 1) n
    (⟨globalSeq + 1, 0⟩ :: events, last)

/-- A batch of `n` events of the seed phase, and the counter after it. -/
def seedBatch (streamId : String) (n : ℕ) (globalSeq : UInt64) :
    Batch BenchmarkEvent × UInt64 :=
  let (payloads, last) := nextEvents globalSeq n
  (batchOf streamId payloads (last - .ofNat n) 0, last)

/-- A live write, and the counter after it. -/
def liveBatch (streamId : String) (globalSeq : UInt64) : Batch BenchmarkEvent × UInt64 :=
  (batchOf streamId [⟨globalSeq + 1, 0⟩] (globalSeq + 1) 0, globalSeq + 1)

/-- Passes the counter through `n` appends. -/
def repeatAppend (append : UInt64 → Batch BenchmarkEvent × UInt64) (globalSeq : UInt64) :
    ℕ → List (Batch BenchmarkEvent) × UInt64
  | 0 => ([], globalSeq)
  | n + 1 =>
    let (batch, globalSeq) := append globalSeq
    let (batches, globalSeq) := repeatAppend append globalSeq n
    (batch :: batches, globalSeq)

structure ReaderArgs where
  streamName : String
  seedEvents : UInt64
  liveEvents : UInt64

/-- The seed phase in batches of `batchSize`, its remainder and the live writes. -/
def ReaderArgs.appends (args : ReaderArgs) (batchSize : UInt64) : List (Batch BenchmarkEvent) :=
  let full := repeatAppend (seedBatch args.streamName batchSize.toNat) 0
    (args.seedEvents / batchSize).toNat
  let remainder := args.seedEvents % batchSize
  let rest := repeatAppend (seedBatch args.streamName remainder.toNat) full.2
    (if 0 < remainder then 1 else 0)
  let live := repeatAppend (liveBatch args.streamName) rest.2 args.liveEvents.toNat
  full.1 ++ rest.1 ++ live.1

/-- `projection_bench::run_postgres` -/
def projectionBench (args : ReaderArgs) : Writer (List (Batch BenchmarkEvent)) :=
  .ofList (args.appends 100)

/-- `search_bench::run_postgres` -/
def searchBench (args : ReaderArgs) : Writer (List (Batch BenchmarkEvent)) :=
  .ofList (args.appends 200)

/-! ### `scale_bench` -/

structure ScaleArgs where
  streamName : String
  scaleEvents : UInt64
  batchSize : UInt64

/-- `scale_bench::run_postgres`: the loop over the counter. -/
def scaleBench (args : ScaleArgs) : Writer UInt64 where
  init := 0
  next globalSeq :=
    if globalSeq < args.scaleEvents then
      some (seedBatch args.streamName
        (min args.batchSize (args.scaleEvents - globalSeq)).toNat globalSeq)
    else none

end EventSourcing.PostgresClient
