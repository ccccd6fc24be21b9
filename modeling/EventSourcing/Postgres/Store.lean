import EventSourcing.Concurrency.System
import EventSourcing.Postgres.Database
import EventSourcing.Store.Calls
import Mathlib.Data.List.Sort

/-!
# `PgEventStore` as a transition system

Any number of append calls and relay calls run against one database under READ COMMITTED. A
statement that meets a row or key locked by another transaction waits, so its label is not
enabled; a call may fail at every statement, and a relay may crash. The server may roll back
the transaction of an append call at any moment, that of a relay after it has ended.

The identity sequence of `events.global_position` lies outside the transactions. A value is
drawn when the `INSERT` begins, before its keys are checked; it is larger than every value
drawn before and is not given back by a rollback.
-/

namespace EventSourcing.Postgres

open Concurrency

variable {P : Type}

abbrev Engine (P : Type) := Txns Owner (Database P) RowKey (Write P)

/-! ### Calls of `append` and `append_with_outbox` -/

abbrev Call (P : Type) := EventSourcing.Call Int32 P

inductive CallStep (P : Type) where
  | invoke (req : AppendRequest P)
  | advanceVersion
  | drawPosition (globalPosition : Int)
  | insertEvent (eventId occurredAt : String)
  | insertOutbox
  | commit (acknowledged : Bool)
  | fail (context : String)
  | abort

/-- The context under which a commit fails. -/
def commitContext : AppendKind → String
  | .append => "failed to commit"
  | .appendWithOutbox => "failed to commit transaction"

/-- The contexts under which the next operation of a call can fail. -/
def errors : Call P → List String
  | .idle => ["failed to begin transaction"]
  | .started req => [s!"version counter update failed for '{req.streamId}'"]
  | .versioned _ _ => ["failed to serialise payload", "event insert failed"]
  | .positioned _ _ _ => ["event insert failed"]
  | .inserted .append _ => [commitContext .append]
  | .inserted .appendWithOutbox _ => ["failed to write integration-event outbox entry"]
  | .outboxWritten _ => [commitContext .appendWithOutbox]
  | .aborted contexts => contexts
  | .returned _ => []

/-! ### Calls of `relay_next_integration_event` -/

inductive Relay (P : Type) where
  | idle
  | started
  | selected (entry : OutboxEntry P)
  | published (entry : OutboxEntry P)
  | marked (entry : OutboxEntry P)
  | crashed
  | returned (result : Except String Bool)

inductive RelayStep where
  | start
  | select
  | publish (succeeds : Bool)
  | mark (now : String)
  | commit (acknowledged : Bool)
  | fail (context : String)
  | crash
  | rollback

/-- The contexts under which the next statement of a relay call can fail. -/
def relayErrors : Relay P → List String
  | .idle => ["failed to begin relay transaction"]
  | .started => ["failed to query integration outbox"]
  | .selected _ => []
  | .published _ => ["failed to mark integration event dispatched"]
  | .marked _ => ["failed to commit relay transaction"]
  | .crashed => []
  | .returned _ => []

/-- The entry a relay call has published and not committed yet. -/
def Relay.delivered : Relay P → Option (OutboxEntry P)
  | .published entry => some entry
  | .marked entry => some entry
  | _ => none

/-! ### State -/

structure State (P : Type) where
  engine : Engine P
  /-- the last value of the identity sequence -/
  identity : Int
  calls : ℕ → Call P
  relays : ℕ → Relay P
  /-- the event ids that have entered the database, committed or not -/
  drawn : List String
  /-- history: the commits of append calls -/
  commits : List (Commit Int32 P)
  /-- history: the ids of the entries published successfully -/
  published : List String
  /-- history: the ids of the entries whose relay stopped after publishing and before
  committing -/
  stopped : List String

namespace State

def db (σ : State P) : Database P := σ.engine.db

def initial : State P where
  engine := Txns.idle Database.fresh
  identity := 0
  calls _ := .idle
  relays _ := .idle
  drawn := []
  commits := []
  published := []
  stopped := []

/-- Move call `c` on, over the engine its statement has left. -/
def putCall (σ : State P) (c : ℕ) (engine : Engine P) (call : Call P) : State P :=
  { σ with engine := engine, calls := Function.update σ.calls c call }

def putRelay (σ : State P) (r : ℕ) (engine : Engine P) (relay : Relay P) : State P :=
  { σ with engine := engine, relays := Function.update σ.relays r relay }

section

variable (σ : State P) (c r : ℕ) (engine : Engine P) (call : Call P) (relay : Relay P)

@[simp] lemma putCall_engine : (σ.putCall c engine call).engine = engine := rfl

@[simp] lemma putCall_db : (σ.putCall c engine call).db = engine.db := rfl

@[simp] lemma putCall_identity : (σ.putCall c engine call).identity = σ.identity := rfl

@[simp] lemma putCall_calls_self : (σ.putCall c engine call).calls c = call := by
  simp [putCall]

@[simp] lemma putCall_relays : (σ.putCall c engine call).relays = σ.relays := rfl

@[simp] lemma putCall_drawn : (σ.putCall c engine call).drawn = σ.drawn := rfl

@[simp] lemma putRelay_engine : (σ.putRelay r engine relay).engine = engine := rfl

@[simp] lemma putRelay_db : (σ.putRelay r engine relay).db = engine.db := rfl

@[simp] lemma putRelay_identity : (σ.putRelay r engine relay).identity = σ.identity := rfl

@[simp] lemma putRelay_calls : (σ.putRelay r engine relay).calls = σ.calls := rfl

@[simp] lemma putRelay_relays_self : (σ.putRelay r engine relay).relays r = relay := by
  simp [putRelay]

@[simp] lemma putRelay_drawn : (σ.putRelay r engine relay).drawn = σ.drawn := rfl

end

/-- The call returns an error; its transaction stays open until the server rolls it back. -/
def failCall (σ : State P) (c : ℕ) (error : EventStoreError) : State P :=
  σ.putCall c σ.engine (.returned (.error error))

/-! ### The statements of `append_in_tx` and its two callers -/

/-- The upsert of `stream_versions`; the version returned is the one before it. -/
def advanceVersion (σ : State P) (c : ℕ) (req : AppendRequest P) : Option (State P) :=
  let version : Int :=
    match (σ.engine.view (.call c)).streamVersions req.streamId with
    | none => 1
    | some version => version + 1
  (σ.engine.write (.call c) (.setStreamVersion req.streamId version)).map
    fun engine => σ.putCall c engine (.versioned req (version - 1))

/-- The `INSERT` into `events` begins and draws its identity value. -/
def drawPosition (σ : State P) (c : ℕ) (req : AppendRequest P)
    (streamVersion globalPosition : Int) : Option (State P) :=
  match req.payload with
  | none => some (σ.failCall c (.io "failed to serialise payload"))
  | some _ =>
    if σ.identity < globalPosition then
      some { σ.putCall c σ.engine (.positioned req streamVersion globalPosition) with
        identity := globalPosition }
    else none

/-- The `INSERT` checks its keys and adds the row; a duplicate key is a concurrency conflict.
The id is one no earlier insert has used. -/
def insertEvent (σ : State P) (c : ℕ) (req : AppendRequest P) (streamVersion globalPosition : Int)
    (eventId occurredAt : String) : Option (State P) :=
  match req.payload with
  | none => none
  | some payload =>
    let envelope := req.envelope payload streamVersion globalPosition eventId occurredAt
    if eventId ∈ σ.drawn then none
    else if σ.db.HasDuplicate envelope then
      some (σ.failCall c (.concurrencyConflict req.streamId streamVersion))
    else (σ.engine.write (.call c) (.insertEvent envelope)).map fun engine =>
      { σ.putCall c engine (.inserted req.kind envelope) with drawn := eventId :: σ.drawn }

def insertOutbox (σ : State P) (c : ℕ) (envelope : EventEnvelope P) : Option (State P) :=
  if ∃ o ∈ σ.db.outbox, o.eventId = envelope.eventId then
    some (σ.failCall c (.io "failed to write integration-event outbox entry"))
  else (σ.engine.write (.call c) (.insertOutbox (.ofEnvelope envelope))).map fun engine =>
    σ.putCall c engine (.outboxWritten envelope)

/-- The commit takes effect; without the acknowledgement the call still fails. -/
def commit (σ : State P) (c : ℕ) (kind : AppendKind) (envelope : EventEnvelope P)
    (acknowledged : Bool) : State P :=
  { σ.putCall c (σ.engine.commit (.call c))
      (.returned (if acknowledged then .ok envelope else .error (.io (commitContext kind))))
    with commits := σ.commits ++ [⟨c, kind, envelope⟩] }

/-- The server rolls the transaction of call `c` back. -/
def abort (σ : State P) (c : ℕ) : Option (State P) :=
  match σ.calls c with
  | .idle => none
  | .returned result => some (σ.putCall c (σ.engine.rollback (.call c)) (.returned result))
  | call => some (σ.putCall c (σ.engine.rollback (.call c)) (.aborted (errors call)))

def callNext (σ : State P) (c : ℕ) : CallStep P → Option (State P)
  | .invoke req =>
    match σ.calls c with
    | .idle => some (σ.putCall c σ.engine (.started req))
    | _ => none
  | .advanceVersion =>
    match σ.calls c with
    | .started req => σ.advanceVersion c req
    | _ => none
  | .drawPosition globalPosition =>
    match σ.calls c with
    | .versioned req streamVersion => σ.drawPosition c req streamVersion globalPosition
    | _ => none
  | .insertEvent eventId occurredAt =>
    match σ.calls c with
    | .positioned req streamVersion globalPosition =>
      σ.insertEvent c req streamVersion globalPosition eventId occurredAt
    | _ => none
  | .insertOutbox =>
    match σ.calls c with
    | .inserted .appendWithOutbox envelope => σ.insertOutbox c envelope
    | _ => none
  | .commit acknowledged =>
    match σ.calls c with
    | .inserted .append envelope => some (σ.commit c .append envelope acknowledged)
    | .outboxWritten envelope => some (σ.commit c .appendWithOutbox envelope acknowledged)
    | _ => none
  | .fail context =>
    if context ∈ errors (σ.calls c) then some (σ.failCall c (.io context)) else none
  | .abort => σ.abort c

/-! ### The statements of the relay -/

/-- `SELECT … WHERE dispatched = FALSE ORDER BY global_position LIMIT 1 FOR UPDATE SKIP LOCKED` -/
def nextPending (σ : State P) (r : ℕ) : Option (OutboxEntry P) :=
  ((σ.db.outbox.filter fun o =>
      !o.dispatched && decide (σ.engine.FreeFor (.relay r) (.outbox o.eventId))).insertionSort
    fun o o' => o.globalPosition ≤ o'.globalPosition).head?

/-- The relay call ends without a commit: an entry it has published counts as stopped. Its
transaction stays open until the server rolls it back. -/
def stopRelay (σ : State P) (r : ℕ) (relay : Relay P) : State P :=
  { σ.putRelay r σ.engine relay with
    stopped := σ.stopped ++ ((σ.relays r).delivered.map (·.eventId)).toList }

def relayNext (σ : State P) (r : ℕ) : RelayStep → Option (State P)
  | .start =>
    match σ.relays r with
    | .idle => some (σ.putRelay r σ.engine .started)
    | _ => none
  | .select =>
    match σ.relays r with
    | .started =>
      match σ.nextPending r with
      | none => some (σ.putRelay r (σ.engine.rollback (.relay r)) (.returned (.ok false)))
      | some entry => (σ.engine.lock (.relay r) [.outbox entry.eventId]).map
          fun engine => σ.putRelay r engine (.selected entry)
    | _ => none
  | .publish succeeds =>
    match σ.relays r with
    | .selected entry =>
      if succeeds then
        some { σ.putRelay r σ.engine (.published entry) with
          published := σ.published ++ [entry.eventId] }
      else some (σ.putRelay r σ.engine (.returned (.error "publish failed")))
    | _ => none
  | .mark now =>
    match σ.relays r with
    | .published entry => (σ.engine.write (.relay r) (.setDispatched entry.eventId now)).map
        fun engine => σ.putRelay r engine (.marked entry)
    | _ => none
  | .commit acknowledged =>
    match σ.relays r with
    | .marked _ => some (σ.putRelay r (σ.engine.commit (.relay r))
        (.returned (if acknowledged then .ok true
          else .error "failed to commit relay transaction")))
    | _ => none
  | .fail context =>
    if context ∈ relayErrors (σ.relays r) then
      some (σ.stopRelay r (.returned (.error context)))
    else none
  | .crash =>
    match σ.relays r with
    | .crashed => none
    | .returned _ => none
    | _ => some (σ.stopRelay r .crashed)
  | .rollback =>
    match σ.relays r with
    | .crashed => some (σ.putRelay r (σ.engine.rollback (.relay r)) .crashed)
    | .returned result =>
      some (σ.putRelay r (σ.engine.rollback (.relay r)) (.returned result))
    | _ => none

end State

/-! ### The system -/

inductive Action (P : Type) where
  | call (c : ℕ) (step : CallStep P)
  | relay (r : ℕ) (step : RelayStep)

def State.next (σ : State P) : Action P → Option (State P)
  | .call c step => σ.callNext c step
  | .relay r step => σ.relayNext r step

variable (P) in
/-- Every run of the store from freshly bootstrapped empty tables. -/
def system : System (State P) (Action P) where
  init σ := σ = .initial
  next := State.next

lemma init_initial : (system P).init .initial := rfl

end EventSourcing.Postgres
