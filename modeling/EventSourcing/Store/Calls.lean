import EventSourcing.Store.Envelope

/-!
# Append calls

The stations of `append` and `append_with_outbox` are the same in both stores: the stream
counter, the global position, the event, the outbox entry, the commit. What each station does
to the database is the matter of the store.
-/

namespace EventSourcing

variable {V P : Type}

/-- What a transaction belongs to: an append call or a relay call. -/
inductive Owner where
  | call (c : Nat)
  | relay (r : Nat)
  deriving DecidableEq

/-- How far an append call has come. -/
inductive Call (V P : Type) where
  | idle
  /-- the transaction is open -/
  | started (req : AppendRequest V P)
  | versioned (req : AppendRequest V P) (streamVersion : Int)
  | positioned (req : AppendRequest V P) (streamVersion globalPosition : Int)
  /-- `append_in_session` or `append_in_tx` has returned -/
  | inserted (kind : AppendKind) (envelope : EventEnvelope V P)
  | outboxWritten (envelope : EventEnvelope V P)
  /-- the server has aborted the transaction; the next operation fails -/
  | aborted (contexts : List String)
  | returned (result : Except EventStoreError (EventEnvelope V P))

/-- The call is about to commit `envelope`. -/
def Call.ReadyToCommit (call : Call V P) (kind : AppendKind) (envelope : EventEnvelope V P) :
    Prop :=
  (call = .inserted .append envelope ∧ kind = .append) ∨
    (call = .outboxWritten envelope ∧ kind = .appendWithOutbox)

/-- What the commit of a call would commit. -/
def Call.ready : Call V P → Option (AppendKind × EventEnvelope V P)
  | .inserted .append envelope => some (.append, envelope)
  | .outboxWritten envelope => some (.appendWithOutbox, envelope)
  | _ => none

lemma Call.ready_of_readyToCommit {call : Call V P} {kind : AppendKind}
    {envelope : EventEnvelope V P} (h : call.ReadyToCommit kind envelope) :
    call.ready = some (kind, envelope) := by
  rcases h with ⟨rfl, rfl⟩ | ⟨rfl, rfl⟩ <;> rfl

/-- A commit: which call made it, through which of the two functions, and its event. -/
structure Commit (V P : Type) where
  call : Nat
  kind : AppendKind
  envelope : EventEnvelope V P

/-- The envelope of an event from the request and the numbers it has drawn. -/
def AppendRequest.envelope (req : AppendRequest V P) (payload : P)
    (streamVersion globalPosition : Int) (eventId occurredAt : String) : EventEnvelope V P where
  eventId := eventId
  streamId := req.streamId
  streamVersion := streamVersion
  globalPosition := globalPosition
  eventType := req.eventType
  schemaVersion := req.schemaVersion
  payload := payload
  occurredAt := occurredAt

/-- The event is the one the request asks for. -/
structure AppendRequest.Gives (req : AppendRequest V P) (e : EventEnvelope V P) : Prop where
  streamId : e.streamId = req.streamId
  eventType : e.eventType = req.eventType
  schemaVersion : e.schemaVersion = req.schemaVersion
  payload : req.payload = some e.payload

lemma AppendRequest.gives_envelope {req : AppendRequest V P} {payload : P}
    (h : req.payload = some payload) (streamVersion globalPosition : Int)
    (eventId occurredAt : String) :
    req.Gives (req.envelope payload streamVersion globalPosition eventId occurredAt) :=
  ⟨rfl, rfl, rfl, h⟩

end EventSourcing
