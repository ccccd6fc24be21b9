import Mathlib.Tactic.Common

/-!
# What both event stores exchange

The envelope of a persisted event, the entry of the integration outbox, the arguments of the
append calls and the errors they surface. `V` is the type of a schema version (`u32` in
MongoDB, `i32` in PostgreSQL) and `P` that of a stored payload.
-/

namespace EventSourcing

inductive EventStoreError where
  /-- An event already carries this version of the stream. -/
  | concurrencyConflict (stream : String) (expected : Int)
  /-- A serialisation or driver failure, under the context of the operation that met it. -/
  | io (context : String)
  deriving DecidableEq, Repr

structure EventEnvelope (V P : Type) where
  eventId : String
  streamId : String
  streamVersion : Int
  globalPosition : Int
  eventType : String
  schemaVersion : V
  payload : P
  occurredAt : String
  deriving DecidableEq, Repr

/-- A document of `_integration_outbox`, a row of `integration_outbox`. -/
structure OutboxEntry (P : Type) where
  eventId : String
  streamId : String
  globalPosition : Int
  eventType : String
  payload : P
  dispatched : Bool
  dispatchedAt : Option String
  deriving DecidableEq, Repr

variable {V P : Type}

/-- The entry `append_with_outbox` writes next to the event. -/
def OutboxEntry.ofEnvelope (envelope : EventEnvelope V P) : OutboxEntry P where
  eventId := envelope.eventId
  streamId := envelope.streamId
  globalPosition := envelope.globalPosition
  eventType := envelope.eventType
  payload := envelope.payload
  dispatched := false
  dispatchedAt := none

/-- What the relay changes in the entry of `eventId`. -/
def OutboxEntry.setDispatched (eventId now : String) (entry : OutboxEntry P) : OutboxEntry P :=
  if entry.eventId = eventId then { entry with dispatched := true, dispatchedAt := some now }
  else entry

/-- The fields of an entry that the relay leaves alone. -/
def OutboxEntry.content (entry : OutboxEntry P) : String × String × Int × String × P :=
  (entry.eventId, entry.streamId, entry.globalPosition, entry.eventType, entry.payload)

@[simp] lemma OutboxEntry.content_setDispatched (eventId now : String) (entry : OutboxEntry P) :
    (entry.setDispatched eventId now).content = entry.content := by
  simp only [OutboxEntry.setDispatched]
  split <;> rfl

@[simp] lemma OutboxEntry.eventId_setDispatched (eventId now : String)
    (entry : OutboxEntry P) : (entry.setDispatched eventId now).eventId = entry.eventId := by
  simp only [OutboxEntry.setDispatched]
  split <;> rfl

lemma OutboxEntry.eq_of_content {entry entry' : OutboxEntry P}
    (h : entry.content = entry'.content) : entry.eventId = entry'.eventId ∧
      entry.streamId = entry'.streamId ∧ entry.globalPosition = entry'.globalPosition := by
  simp only [OutboxEntry.content, Prod.mk.injEq] at h
  exact ⟨h.1, h.2.1, h.2.2.1⟩

/-- An element that fails the test does not join the filtered list. -/
lemma filter_append_singleton_of_not {α : Type} {p : α → Bool} {l : List α} {a : α}
    (h : ¬ p a = true) : (l ++ [a]).filter p = l.filter p := by
  simp [h]

/-- Dispatching one entry leaves the entries under other ids alone. -/
lemma OutboxEntry.filter_map_setDispatched (outbox : List (OutboxEntry P)) {id id' : String}
    (now : String) (h : id' ≠ id) :
    (outbox.map (OutboxEntry.setDispatched id now)).filter (·.eventId = id')
      = outbox.filter (·.eventId = id') := by
  induction outbox with
  | nil => rfl
  | cons o outbox ih =>
    simp only [List.map_cons, List.filter_cons, OutboxEntry.eventId_setDispatched, ih]
    split_ifs with ho
    · have : o.eventId ≠ id := by
        intro hid
        exact h (by rw [← hid, of_decide_eq_true ho])
      simp [OutboxEntry.setDispatched, this]
    · rfl

/-- Which of the two public calls appends the event. -/
inductive AppendKind where
  | append
  | appendWithOutbox
  deriving DecidableEq, Repr

/-- The arguments of an append call; `payload` is what serialising it gives, if it succeeds. -/
structure AppendRequest (V P : Type) where
  kind : AppendKind
  streamId : String
  eventType : String
  schemaVersion : V
  payload : Option P
  deriving DecidableEq, Repr

end EventSourcing
