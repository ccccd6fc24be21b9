import EventSourcing.Concurrency.Transactions
import EventSourcing.Store.Envelope

/-!
# The MongoDB database of the event store

The collections `MongoEventStore` works on, the bootstrap that creates them, and the writes
its operations make. A write carries the image of the document after it, as the session
computed it; the storage engine tells writes apart by the documents and unique index keys
they touch (`DocKey`).
-/

namespace EventSourcing.Mongo

open Concurrency

/-- The envelope with the `u32` schema version of the MongoDB store. -/
abbrev EventEnvelope (P : Type) := EventSourcing.EventEnvelope UInt32 P

abbrev AppendRequest (P : Type) := EventSourcing.AppendRequest UInt32 P

variable {P : Type}

structure Database (P : Type) where
  collections : List String
  /-- the indexes of `events`, by name -/
  indexes : List String
  /-- field `version` of the document of `_stream_versions` with a given `_id` -/
  streamVersions : String → Option Int
  /-- field `seq` of the document `counter` of `_global_seq` -/
  globalSeq : Option Int
  events : List (EventEnvelope P)
  outbox : List (OutboxEntry P)

/-! ### Bootstrap -/

namespace Database

/-- A database nothing has been created in. -/
def empty : Database P where
  collections := []
  indexes := []
  streamVersions _ := none
  globalSeq := none
  events := []
  outbox := []

/-- `create_collection`; code 48 (NamespaceExists) leaves the database as it is. -/
def createCollection (name : String) (db : Database P) : Database P :=
  if name ∈ db.collections then db else { db with collections := db.collections ++ [name] }

/-- Creates `events` with its validator and indexes. Where the collection exists the function
returns before the indexes are created. -/
def ensureEventsCollection (db : Database P) : Database P :=
  if "events" ∈ db.collections then db
  else
    { db.createCollection "events" with
      indexes := ["uq_stream_version", "idx_global_position", "idx_stream_read"] }

/-- Creates the auxiliary collections and seeds the global sequence if it is absent. -/
def ensureAuxCollections (db : Database P) : Database P :=
  let db := ["_global_seq", "_stream_versions", "_checkpoints", "_integration_outbox",
    "_competing_consumers"].foldl (fun db name => db.createCollection name) db
  { db with globalSeq := some (db.globalSeq.getD 0) }

def bootstrap (db : Database P) : Database P :=
  db.ensureEventsCollection.ensureAuxCollections

/-- A freshly bootstrapped empty database. -/
def fresh : Database P := empty.bootstrap

@[simp] lemma fresh_streamVersions (s : String) :
    (fresh : Database P).streamVersions s = none := rfl

@[simp] lemma fresh_globalSeq : (fresh : Database P).globalSeq = some 0 := rfl

@[simp] lemma fresh_events : (fresh : Database P).events = [] := rfl

@[simp] lemma fresh_outbox : (fresh : Database P).outbox = [] := rfl

/-- A committed event has the `_id` of `envelope`, or its stream and version where the unique
index exists: `insert_one` answers with code 11000. -/
def HasDuplicate (db : Database P) (envelope : EventEnvelope P) : Prop :=
  ∃ e ∈ db.events, e.eventId = envelope.eventId ∨
    ("uq_stream_version" ∈ db.indexes ∧ e.streamId = envelope.streamId ∧
      e.streamVersion = envelope.streamVersion)

instance (db : Database P) (envelope : EventEnvelope P) : Decidable (db.HasDuplicate envelope) :=
  inferInstanceAs (Decidable (∃ e ∈ db.events, _))

end Database

/-! ### Documents and writes -/

/-- What two writes may collide on: a document, or a key of the unique index. -/
inductive DocKey where
  | streamVersion (streamId : String)
  | globalSeq
  | event (eventId : String)
  | eventVersion (streamId : String) (streamVersion : Int)
  | outbox (eventId : String)
  deriving DecidableEq

inductive Write (P : Type) where
  | setStreamVersion (streamId : String) (version : Int)
  | setGlobalSeq (seq : Int)
  | insertEvent (envelope : EventEnvelope P)
  | insertOutbox (entry : OutboxEntry P)
  | setDispatched (eventId now : String)

def Write.targets : Write P → List DocKey
  | .setStreamVersion s _ => [.streamVersion s]
  | .setGlobalSeq _ => [.globalSeq]
  | .insertEvent e => [.event e.eventId, .eventVersion e.streamId e.streamVersion]
  | .insertOutbox o => [.outbox o.eventId]
  | .setDispatched id _ => [.outbox id]

namespace Database

def apply (db : Database P) : Write P → Database P
  | .setStreamVersion s v =>
    { db with streamVersions := Function.update db.streamVersions s (some v) }
  | .setGlobalSeq n => { db with globalSeq := some n }
  | .insertEvent e => { db with events := db.events ++ [e] }
  | .insertOutbox o => { db with outbox := db.outbox ++ [o] }
  | .setDispatched id now => { db with outbox := db.outbox.map (OutboxEntry.setDispatched id now) }

/-- What a document or an index key contains. -/
def Content (P : Type) : DocKey → Type
  | .streamVersion _ => Option Int
  | .globalSeq => Option Int
  | .event _ => List (EventEnvelope P)
  | .eventVersion _ _ => List (EventEnvelope P)
  | .outbox _ => List (OutboxEntry P)

def read (db : Database P) : (k : DocKey) → Content P k
  | .streamVersion s => db.streamVersions s
  | .globalSeq => db.globalSeq
  | .event id => db.events.filter (·.eventId = id)
  | .eventVersion s v => db.events.filter fun e => e.streamId = s ∧ e.streamVersion = v
  | .outbox id => db.outbox.filter (·.eventId = id)

lemma read_apply (db : Database P) (w : Write P) (k : DocKey) (h : k ∉ w.targets) :
    (db.apply w).read k = db.read k := by
  cases w with
  | setStreamVersion s v =>
    cases k with
    | streamVersion s' =>
      have hs : s' ≠ s := by simpa [Write.targets] using h
      exact Function.update_of_ne hs _ _
    | _ => rfl
  | setGlobalSeq n =>
    cases k with
    | globalSeq => simp [Write.targets] at h
    | _ => rfl
  | insertEvent e =>
    cases k with
    | event id =>
      have hid : e.eventId ≠ id := by simpa [Write.targets, eq_comm] using h
      exact filter_append_singleton_of_not (by simpa using hid)
    | eventVersion s v =>
      have hsv : e.streamId = s → e.streamVersion ≠ v := by
        simpa [Write.targets, eq_comm] using h
      exact filter_append_singleton_of_not (by simpa using hsv)
    | _ => rfl
  | insertOutbox o =>
    cases k with
    | outbox id =>
      have hid : o.eventId ≠ id := by simpa [Write.targets, eq_comm] using h
      exact filter_append_singleton_of_not (by simpa using hid)
    | _ => rfl
  | setDispatched id now =>
    cases k with
    | outbox id' =>
      have hid : id' ≠ id := by simpa [Write.targets] using h
      exact OutboxEntry.filter_map_setDispatched db.outbox now hid
    | _ => rfl

instance : Items (Database P) DocKey (Write P) where
  Content := Content P
  read := read
  apply := apply
  targets := Write.targets
  read_apply := read_apply

end Database

end EventSourcing.Mongo
