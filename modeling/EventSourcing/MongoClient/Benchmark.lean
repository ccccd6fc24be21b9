import EventSourcing.Bench.Runner
import EventSourcing.MongoClient.Database

/-!
# The write benchmark of MongoDB

The calls of its tasks: `append_batch_versioned` with its two counter updates and its insert in
event-store mode, one `insert_many` of plain documents otherwise.
-/

namespace EventSourcing.MongoClient

open Bench Concurrency

/-- What the tasks of a run write to. -/
structure BenchStore where
  db : Database BenchmarkEvent
  /-- the collections without versions -/
  plain : String → List Document

/-- `to_document` of an event, which fails on a `u64` that is no `i64`. -/
def serialise (event : BenchmarkEvent) : Option BenchmarkEvent :=
  (toDocument "" event).map fun _ => event

/-- The documents of a batch before the first under an `_id` in use. -/
def acceptedPlain : List Document → List Document → List Document
  | _, [] => []
  | stored, doc :: docs =>
    if doc.id ∈ stored.map (·.id) then [] else doc :: acceptedPlain (stored ++ [doc]) docs

/-- `insert_many` of plain documents; the driver refuses an empty list. -/
def BenchStore.insertPlain (store : BenchStore) (name : String) (docs : List Document)
    (outcome : InsertOutcome) : Bool × BenchStore :=
  let offered :=
    match outcome with
    | .done => docs
    | .failed stored => docs.take stored
  let stored := acceptedPlain (store.plain name) offered
  (decide (docs ≠ [] ∧ outcome = .done ∧ stored.length = docs.length),
    { store with plain := Function.update store.plain name (store.plain name ++ stored) })

/-- How far the call of a task has come. -/
inductive Write where
  /-- `append_batch` -/
  | appending (name : String) (events : List BenchmarkEvent)
  /-- `append_batch_versioned` -/
  | counting (batch : Batch BenchmarkEvent)
  | positioning (batch : Batch BenchmarkEvent) (startVersion : Int)
  | inserting (batch : Batch BenchmarkEvent) (startVersion globalStart : Int)

/-- What is drawn for an operation and what becomes of it. -/
structure WriteStep where
  ids : ℕ → String
  update : Outcome
  insert : InsertOutcome

namespace Write

def next (store : BenchStore) (step : WriteStep) : Write → BenchStore × (Write ⊕ Bool)
  | appending name events =>
    match collect (events.mapIdx fun i event => toDocument (step.ids i) event) with
    | none => (store, .inr false)
    | some docs =>
      let (ok, store) := store.insertPlain name docs step.insert
      (store, .inr ok)
  | counting batch =>
    let name := batch.collectionName
    let startVersion := store.db.version name
    match step.update.run (some (store.db.incVersion name batch.payloads.length)) store.db with
    | (true, db) => ({ store with db := db }, .inl (.positioning batch startVersion))
    | (false, db) => ({ store with db := db }, .inr false)
  | positioning batch startVersion =>
    let globalStart := store.db.sequence
    match step.update.run (some (store.db.incGlobalSeq batch.payloads.length)) store.db with
    | (true, db) => ({ store with db := db }, .inl (.inserting batch startVersion globalStart))
    | (false, db) => ({ store with db := db }, .inr false)
  | inserting batch startVersion globalStart =>
    match batch.documents startVersion globalStart step.ids with
    | none => (store, .inr false)
    | some docs =>
      let (ok, db) := store.db.insertMany batch.collectionName docs step.insert
      ({ store with db := db }, .inr ok)

end Write

/-- The calls of a run on the given database. -/
def backend (config : BenchmarkConfig) (collectionPrefix : String) (start : BenchStore) :
    Backend BenchStore Write WriteStep where
  init store := store = start
  start d :=
    let name := collectionPrefix ++ "-" ++ toString d.streamIdx
    if config.eventStoreMode then .counting ⟨name, "BenchmarkEvent", d.events.map serialise⟩
    else .appending name d.events
  next store write step := some (write.next store step)

/-- `benchmark::run` of MongoDB. -/
abbrev benchmark (config : BenchmarkConfig) (collectionPrefix : String) (start : BenchStore) :
    System (Runner BenchStore Write) (RunnerStep WriteStep) :=
  Bench.benchmark (backend config collectionPrefix start) config

end EventSourcing.MongoClient
