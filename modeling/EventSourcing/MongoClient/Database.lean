import EventSourcing.Bench.Statement
import EventSourcing.Mongo.Bootstrap

/-!
# The database of `MongoClient`

The counters of `_stream_versions` and `_global_seq` and the documents of the collections, one
collection a stream, with the operations that `MongoClient` sends. Each of them is atomic, and
an ordered `insert_many` may stop at any document.
-/

namespace EventSourcing.MongoClient

open Bench

/-- An event of a collection; `P` is the type of the document its payload gives. -/
structure BenchDocument (P : Type) where
  id : String
  eventType : String
  streamId : String
  streamVersion : Int
  globalPosition : Int
  payload : P
  deriving DecidableEq

structure Database (P : Type) extends Mongo.Schema where
  /-- field `version` of the document of `_stream_versions` with a given `_id` -/
  streamVersions : String → Option Int
  docs : String → List (BenchDocument P)

/-- The arguments of `append_batch_versioned`; a payload is what serialising it gives, if it
succeeds. -/
structure Batch (P : Type) where
  collectionName : String
  eventType : String
  payloads : List (Option P)

variable {P : Type}

/-- The documents of a batch, with the ids that are drawn for them. -/
def Batch.documents (batch : Batch P) (startVersion globalStart : Int) (ids : ℕ → String) :
    Option (List (BenchDocument P)) :=
  (collect batch.payloads).map fun payloads => payloads.mapIdx fun i payload =>
    { id := ids i
      eventType := batch.eventType
      streamId := batch.collectionName
      streamVersion := startVersion + i
      globalPosition := globalStart + i
      payload := payload }

/-- A field after `$inc` by `n` with upsert; an absent document counts as `0`. -/
def increment (field : Option Int) (n : Int) : Option Int := some (field.getD 0 + n)

/-- What becomes of an `insert_many` that meets no duplicate key: it fails after the documents
it has stored, all of them where only the acknowledgement is lost. -/
inductive InsertOutcome where
  | done
  | failed (stored : ℕ)
  deriving DecidableEq, Repr

namespace Database

variable (db : Database P) (name : String)

/-- `find_one_and_update` on `_stream_versions` -/
def incVersion (n : Int) : Database P :=
  { db with
    streamVersions :=
      Function.update db.streamVersions name (increment (db.streamVersions name) n) }

/-- `find_one_and_update` on `_global_seq` -/
def incGlobalSeq (n : Int) : Database P := { db with globalSeq := increment db.globalSeq n }

/-- What `find_one_and_update` on `_stream_versions` answers. -/
def version : Int := (db.streamVersions name).getD 0

/-- What `find_one_and_update` on `_global_seq` answers. -/
def sequence : Int := db.globalSeq.getD 0

/-- A document under the `_id`, or under the stream and version where the unique index exists. -/
def HasDuplicate (stored : List (BenchDocument P)) (doc : BenchDocument P) : Prop :=
  ∃ d ∈ stored, d.id = doc.id ∨ (Mongo.uqStreamVersion ∈ db.indexes name ∧
    d.streamId = doc.streamId ∧ d.streamVersion = doc.streamVersion)

instance (stored : List (BenchDocument P)) (doc : BenchDocument P) :
    Decidable (db.HasDuplicate name stored doc) :=
  inferInstanceAs (Decidable (∃ d ∈ stored, _))

/-- The documents before the first with a duplicate key. -/
def accepted : List (BenchDocument P) → List (BenchDocument P) → List (BenchDocument P)
  | _, [] => []
  | stored, doc :: docs =>
    if db.HasDuplicate name stored doc then [] else doc :: accepted (stored ++ [doc]) docs

/-- `insert_many`; the driver refuses an empty list. -/
def insertMany (docs : List (BenchDocument P)) (outcome : InsertOutcome) : Bool × Database P :=
  let offered :=
    match outcome with
    | .done => docs
    | .failed stored => docs.take stored
  let stored := db.accepted name (db.docs name) offered
  (decide (docs ≠ [] ∧ outcome = .done ∧ stored.length = docs.length),
    { db with docs := Function.update db.docs name (db.docs name ++ stored) })

/-- `append_batch_versioned`, with what becomes of its two counter updates and its insert. -/
def appendBatchVersioned (batch : Batch P) (ids : ℕ → String) (version sequence : Outcome)
    (insert : InsertOutcome) : Except String Unit × Database P :=
  let name := batch.collectionName
  match version.run (some (db.incVersion name batch.payloads.length)) db with
  | (false, db) => (.error s!"version counter update failed for '{name}'", db)
  | (true, counted) =>
    match sequence.run (some (counted.incGlobalSeq batch.payloads.length)) counted with
    | (false, db) => (.error "global sequence counter update failed", db)
    | (true, positioned) =>
      match batch.documents (db.version name) db.sequence ids with
      | none => (.error "failed to serialise event to BSON", positioned)
      | some docs =>
        match positioned.insertMany name docs insert with
        | (true, db) => (.ok (), db)
        | (false, db) => (.error s!"versioned batch insert to '{name}' failed", db)

/-! ### `append_with_stream_version` and `read_last_stream_version` -/

/-- `insert_one`; nothing on a duplicate key. -/
def insertOne (doc : BenchDocument P) : Option (Database P) :=
  if db.HasDuplicate name (db.docs name) doc then none
  else some { db with docs := Function.update db.docs name (db.docs name ++ [doc]) }

variable {db name} in
lemma insertOne_eq_some {db' : Database P} {doc : BenchDocument P}
    (hdb : db.insertOne name doc = some db') :
    ¬ db.HasDuplicate name (db.docs name) doc ∧
      db' = { db with docs := Function.update db.docs name (db.docs name ++ [doc]) } := by
  simp only [insertOne] at hdb
  split_ifs at hdb with hdup
  exact ⟨hdup, (Option.some.inj hdb).symm⟩

/-- The versions of the stream that the collection is for. -/
def versions : List Int :=
  ((db.docs name).filter fun d => d.streamId = name).map (·.streamVersion)

variable {db name} in
lemma versions_update {doc : BenchDocument P} (hstream : doc.streamId = name) :
    ({ db with docs := Function.update db.docs name (db.docs name ++ [doc]) } : Database P).versions
      name = db.versions name ++ [doc.streamVersion] := by
  simp [versions, hstream]

/-- `read_last_stream_version` -/
def readLastStreamVersion : Option Int := (db.versions name).max?

end Database

/-- The document of `append_with_stream_version`. -/
def explicitDocument (name eventType id : String) (payload : P)
    (streamVersion globalPosition : Int) : BenchDocument P where
  id := id
  eventType := eventType
  streamId := name
  streamVersion := streamVersion
  globalPosition := globalPosition
  payload := payload

end EventSourcing.MongoClient
