import EventSourcing.Concurrency.Snapshot
import EventSourcing.Concurrency.System
import EventSourcing.Mongo.Database
import EventSourcing.Store.Calls

/-!
# `MongoEventStore` as a transition system

Any number of append calls and relay calls run against one database. A label names a call
and what happens next to it: one operation of the function the call is in, together with the
answer of the environment (the ids and times it draws, whether a publish succeeds, where an
operation fails). A call may also fail at every operation, and the server may abort its
transaction at any moment, before or after the call has returned.

An operation on a document that is in conflict with another transaction is refused by the
storage engine (`Snapshots.write`); the call then returns the error of that operation.
-/

namespace EventSourcing.Mongo

open Concurrency

variable {P : Type}

abbrev Engine (P : Type) := Snapshots Owner (Database P) DocKey (Write P)

/-! ### Calls of `append` and `append_with_outbox` -/

abbrev Call (P : Type) := EventSourcing.Call UInt32 P

inductive CallStep (P : Type) where
  | invoke (req : AppendRequest P)
  | advanceVersion
  | advanceSeq
  | insertEvent (eventId occurredAt : String)
  | insertOutbox
  | commit (acknowledged : Bool)
  | fail (context : String)
  | abort

/-- The contexts under which the next operation of a call can fail. -/
def errors : Call P → List String
  | .idle => ["failed to start session", "failed to start transaction"]
  | .started req => [s!"version counter update failed for '{req.streamId}'"]
  | .versioned _ _ => ["global sequence counter update failed"]
  | .positioned _ _ _ =>
    ["failed to serialise payload", "failed to serialise envelope", "event insert failed"]
  | .inserted .append _ => ["failed to commit transaction"]
  | .inserted .appendWithOutbox _ => ["failed to write integration-event outbox entry"]
  | .outboxWritten _ => ["failed to commit transaction"]
  | .aborted contexts => contexts
  | .returned _ => []

/-! ### Calls of `relay_next_integration_event` -/

inductive Relay (P : Type) where
  | idle
  | found (entry : OutboxEntry P)
  | published (entry : OutboxEntry P)
  | returned (result : Except String Bool)

inductive RelayStep where
  /-- `find_one` answers with the entry of this id, or with nothing -/
  | find (eventId : Option String)
  | publish (succeeds : Bool)
  | mark (now : String) (acknowledged : Bool)
  | fail

/-! ### State -/

structure State (P : Type) where
  engine : Engine P
  calls : ℕ → Call P
  relays : ℕ → Relay P
  /-- the event ids that have entered the database, committed or not -/
  drawn : List String
  /-- history: the commits of append calls -/
  commits : List (Commit UInt32 P)
  /-- history: the successful publishes -/
  published : List (OutboxEntry P)

namespace State

def db (σ : State P) : Database P := σ.engine.db

def initial : State P where
  engine := Snapshots.idle Database.fresh
  calls _ := .idle
  relays _ := .idle
  drawn := []
  commits := []
  published := []

lemma initial_db : (initial : State P).db = Database.fresh := rfl

/-- Move call `c` on, over the engine its operation has left. -/
def putCall (σ : State P) (c : ℕ) (engine : Engine P) (call : Call P) : State P :=
  { σ with engine := engine, calls := Function.update σ.calls c call }

def putRelay (σ : State P) (r : ℕ) (relay : Relay P) : State P :=
  { σ with relays := Function.update σ.relays r relay }

section

variable (σ : State P) (c r : ℕ) (engine : Engine P) (call : Call P) (relay : Relay P)

@[simp] lemma putCall_engine : (σ.putCall c engine call).engine = engine := rfl

@[simp] lemma putCall_db : (σ.putCall c engine call).db = engine.db := rfl

@[simp] lemma putCall_calls_self : (σ.putCall c engine call).calls c = call := by
  simp [putCall]

@[simp] lemma putCall_relays : (σ.putCall c engine call).relays = σ.relays := rfl

@[simp] lemma putCall_drawn : (σ.putCall c engine call).drawn = σ.drawn := rfl

@[simp] lemma putRelay_engine : (σ.putRelay r relay).engine = σ.engine := rfl

@[simp] lemma putRelay_db : (σ.putRelay r relay).db = σ.db := rfl

@[simp] lemma putRelay_calls : (σ.putRelay r relay).calls = σ.calls := rfl

@[simp] lemma putRelay_relays_self : (σ.putRelay r relay).relays r = relay := by
  simp [putRelay]

end

/-- The call returns the error of the operation it was in; its transaction stays open until
the server aborts it. -/
def failCall (σ : State P) (c : ℕ) (context : String) : State P :=
  σ.putCall c σ.engine (.returned (.error (.io context)))

/-! ### The operations of `append_in_session` and its two callers -/

/-- `find_one_and_update` on `_stream_versions`: `$inc` by one, upsert, document before. -/
def advanceVersion (σ : State P) (c : ℕ) (req : AppendRequest P) : State P :=
  let before := (σ.engine.view (.call c)).streamVersions req.streamId
  match σ.engine.write (.call c) (.setStreamVersion req.streamId (before.getD 0 + 1)) with
  | none => σ.failCall c s!"version counter update failed for '{req.streamId}'"
  | some engine => σ.putCall c engine (.versioned req (before.getD 0))

/-- `find_one_and_update` on `_global_seq`: `$inc` by one, upsert, document before. -/
def advanceSeq (σ : State P) (c : ℕ) (req : AppendRequest P) (streamVersion : Int) : State P :=
  let before := (σ.engine.view (.call c)).globalSeq
  match σ.engine.write (.call c) (.setGlobalSeq (before.getD 0 + 1)) with
  | none => σ.failCall c "global sequence counter update failed"
  | some engine => σ.putCall c engine (.positioned req streamVersion (before.getD 0))

/-- Builds the envelope and inserts it; a duplicate key is a concurrency conflict. The id is
one no earlier insert has used. -/
def insertEvent (σ : State P) (c : ℕ) (req : AppendRequest P) (streamVersion globalPosition : Int)
    (eventId occurredAt : String) : Option (State P) :=
  match req.payload with
  | none => some (σ.failCall c "failed to serialise payload")
  | some payload =>
    let envelope := req.envelope payload streamVersion globalPosition eventId occurredAt
    if eventId ∈ σ.drawn then none
    else if σ.db.HasDuplicate envelope then
      some (σ.putCall c σ.engine
        (.returned (.error (.concurrencyConflict req.streamId streamVersion))))
    else match σ.engine.write (.call c) (.insertEvent envelope) with
      | none => some (σ.failCall c "event insert failed")
      | some engine =>
        some { σ.putCall c engine (.inserted req.kind envelope) with drawn := eventId :: σ.drawn }

def insertOutbox (σ : State P) (c : ℕ) (envelope : EventEnvelope P) : State P :=
  if ∃ o ∈ σ.db.outbox, o.eventId = envelope.eventId then
    σ.failCall c "failed to write integration-event outbox entry"
  else match σ.engine.write (.call c) (.insertOutbox (.ofEnvelope envelope)) with
  | none => σ.failCall c "failed to write integration-event outbox entry"
  | some engine => σ.putCall c engine (.outboxWritten envelope)

/-- `commit_transaction` takes effect; without the acknowledgement the call still fails. -/
def commit (σ : State P) (c : ℕ) (kind : AppendKind) (envelope : EventEnvelope P)
    (acknowledged : Bool) : State P :=
  { σ.putCall c (σ.engine.commit (.call c))
      (.returned (if acknowledged then .ok envelope
        else .error (.io "failed to commit transaction")))
    with commits := σ.commits ++ [⟨c, kind, envelope⟩] }

/-- The server aborts the transaction of call `c`. -/
def abort (σ : State P) (c : ℕ) : Option (State P) :=
  match σ.calls c with
  | .idle => none
  | .returned result => some (σ.putCall c (σ.engine.rollback (.call c)) (.returned result))
  | call => some (σ.putCall c (σ.engine.rollback (.call c)) (.aborted (errors call)))

def callNext (σ : State P) (c : ℕ) : CallStep P → Option (State P)
  | .invoke req =>
    match σ.calls c with
    | .idle => some (σ.putCall c (σ.engine.start (.call c)) (.started req))
    | _ => none
  | .advanceVersion =>
    match σ.calls c with
    | .started req => some (σ.advanceVersion c req)
    | _ => none
  | .advanceSeq =>
    match σ.calls c with
    | .versioned req streamVersion => some (σ.advanceSeq c req streamVersion)
    | _ => none
  | .insertEvent eventId occurredAt =>
    match σ.calls c with
    | .positioned req streamVersion globalPosition =>
      σ.insertEvent c req streamVersion globalPosition eventId occurredAt
    | _ => none
  | .insertOutbox =>
    match σ.calls c with
    | .inserted .appendWithOutbox envelope => some (σ.insertOutbox c envelope)
    | _ => none
  | .commit acknowledged =>
    match σ.calls c with
    | .inserted .append envelope => some (σ.commit c .append envelope acknowledged)
    | .outboxWritten envelope => some (σ.commit c .appendWithOutbox envelope acknowledged)
    | _ => none
  | .fail context => if context ∈ errors (σ.calls c) then some (σ.failCall c context) else none
  | .abort => σ.abort c

/-! ### The operations of the relay -/

/-- `update_one` on an outbox entry, a transaction of its own. -/
def markDispatched (σ : State P) (r : ℕ) (eventId now : String) : Option (Engine P) :=
  ((σ.engine.start (.relay r)).write (.relay r) (.setDispatched eventId now)).map
    fun engine => engine.commit (.relay r)

def relayNext (σ : State P) (r : ℕ) : RelayStep → Option (State P)
  | .find eventId =>
    match σ.relays r with
    | .idle =>
      match eventId with
      | none =>
        if ∀ o ∈ σ.db.outbox, o.dispatched then some (σ.putRelay r (.returned (.ok false)))
        else none
      | some id =>
        (σ.db.outbox.find? fun o => o.eventId = id && !o.dispatched).map
          fun o => σ.putRelay r (.found o)
    | _ => none
  | .publish succeeds =>
    match σ.relays r with
    | .found o =>
      if succeeds then
        some { σ.putRelay r (.published o) with published := σ.published ++ [o] }
      else some (σ.putRelay r (.returned (.error "publish failed")))
    | _ => none
  | .mark now acknowledged =>
    match σ.relays r with
    | .published o =>
      (σ.markDispatched r o.eventId now).map fun engine =>
        { σ.putRelay r (.returned (if acknowledged then .ok true
            else .error "failed to mark integration event dispatched")) with engine := engine }
    | _ => none
  | .fail =>
    match σ.relays r with
    | .idle => some (σ.putRelay r (.returned (.error "failed to query integration outbox")))
    | .published _ =>
      some (σ.putRelay r (.returned (.error "failed to mark integration event dispatched")))
    | _ => none

end State

/-! ### The system -/

inductive Action (P : Type) where
  | call (c : ℕ) (step : CallStep P)
  | relay (r : ℕ) (step : RelayStep)

def State.next (σ : State P) : Action P → Option (State P)
  | .call c step => σ.callNext c step
  | .relay r step => σ.relayNext r step

variable (P) in
/-- Every run of the store from a freshly bootstrapped empty database. -/
def system : System (State P) (Action P) where
  init σ := σ = .initial
  next := State.next

lemma init_initial : (system P).init .initial := rfl

end EventSourcing.Mongo
