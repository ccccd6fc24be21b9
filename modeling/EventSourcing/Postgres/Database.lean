import EventSourcing.Concurrency.Transactions
import EventSourcing.Store.Envelope

/-!
# The PostgreSQL database of the event store

The tables `PgEventStore` works on and the writes its statements make. A write carries the
row after it. Two statements wait for each other when they touch the same row or the same key
of a unique index (`RowKey`).
-/

namespace EventSourcing.Postgres

open Concurrency

/-- The envelope with the `i32` schema version of the PostgreSQL store. -/
abbrev EventEnvelope (P : Type) := EventSourcing.EventEnvelope Int32 P

abbrev AppendRequest (P : Type) := EventSourcing.AppendRequest Int32 P

variable {P : Type}

structure Database (P : Type) where
  /-- column `version` of the row of `stream_versions` for a stream -/
  streamVersions : String → Option Int
  events : List (EventEnvelope P)
  outbox : List (OutboxEntry P)
  /-- the notifications sent on `events_channel`, in the order of the commits -/
  channel : List Int

/-- Two statements collide on a row, or on a key of a unique index. -/
inductive RowKey where
  | streamVersion (streamId : String)
  | event (eventId : String)
  | eventVersion (streamId : String) (streamVersion : Int)
  | outbox (eventId : String)
  deriving DecidableEq

inductive Write (P : Type) where
  | setStreamVersion (streamId : String) (version : Int)
  | insertEvent (envelope : EventEnvelope P)
  | insertOutbox (entry : OutboxEntry P)
  | setDispatched (eventId now : String)

def Write.targets : Write P → List RowKey
  | .setStreamVersion s _ => [.streamVersion s]
  | .insertEvent e => [.event e.eventId, .eventVersion e.streamId e.streamVersion]
  | .insertOutbox o => [.outbox o.eventId]
  | .setDispatched id _ => [.outbox id]

namespace Database

/-- The tables as the bootstrap creates them. -/
def fresh : Database P where
  streamVersions _ := none
  events := []
  outbox := []
  channel := []

/-- `UNIQUE (stream_id, stream_version)` or the primary key would be violated (code 23505). -/
def HasDuplicate (db : Database P) (envelope : EventEnvelope P) : Prop :=
  ∃ e ∈ db.events, e.eventId = envelope.eventId ∨
    (e.streamId = envelope.streamId ∧ e.streamVersion = envelope.streamVersion)

instance (db : Database P) (envelope : EventEnvelope P) : Decidable (db.HasDuplicate envelope) :=
  inferInstanceAs (Decidable (∃ e ∈ db.events, _))

/-- What the trigger `events_notify_insert` sends for an inserted row. -/
def eventsNotifyInsert (envelope : EventEnvelope P) : Int := envelope.globalPosition

def apply (db : Database P) : Write P → Database P
  | .setStreamVersion s v =>
    { db with streamVersions := Function.update db.streamVersions s (some v) }
  | .insertEvent e =>
    { db with
      events := db.events ++ [e]
      channel := db.channel ++ [eventsNotifyInsert e] }
  | .insertOutbox o => { db with outbox := db.outbox ++ [o] }
  | .setDispatched id now => { db with outbox := db.outbox.map (OutboxEntry.setDispatched id now) }

/-- What a row or an index key contains. -/
def Content (P : Type) : RowKey → Type
  | .streamVersion _ => Option Int
  | .event _ => List (EventEnvelope P)
  | .eventVersion _ _ => List (EventEnvelope P)
  | .outbox _ => List (OutboxEntry P)

def read (db : Database P) : (k : RowKey) → Content P k
  | .streamVersion s => db.streamVersions s
  | .event id => db.events.filter (·.eventId = id)
  | .eventVersion s v => db.events.filter fun e => e.streamId = s ∧ e.streamVersion = v
  | .outbox id => db.outbox.filter (·.eventId = id)

lemma read_apply (db : Database P) (w : Write P) (k : RowKey) (h : k ∉ w.targets) :
    (db.apply w).read k = db.read k := by
  cases w with
  | setStreamVersion s v =>
    cases k with
    | streamVersion s' =>
      have hs : s' ≠ s := by simpa [Write.targets] using h
      exact Function.update_of_ne hs _ _
    | _ => rfl
  | insertEvent e =>
    cases k with
    | event id =>
      have hid : e.eventId ≠ id := by simpa [Write.targets, eq_comm] using h
      exact filter_append_singleton_of_not (by simpa using hid)
    | eventVersion s v =>
      have hsv : e.streamId = s → e.streamVersion ≠ v := by
        simpa [Write.targets, eq_comm] using h
      exact filter_append_singleton_of_not (by simpa using hsv)
    | _ => rfl
  | insertOutbox o =>
    cases k with
    | outbox id =>
      have hid : o.eventId ≠ id := by simpa [Write.targets, eq_comm] using h
      exact filter_append_singleton_of_not (by simpa using hid)
    | _ => rfl
  | setDispatched id now =>
    cases k with
    | outbox id' =>
      have hid : id' ≠ id := by simpa [Write.targets] using h
      exact OutboxEntry.filter_map_setDispatched db.outbox now hid
    | _ => rfl

instance : Items (Database P) RowKey (Write P) where
  Content := Content P
  read := read
  apply := apply
  targets := Write.targets
  read_apply := read_apply

end Database

end EventSourcing.Postgres
