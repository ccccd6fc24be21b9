import EventSourcing.Text.Json
import Mathlib.Algebra.Group.Nat.Defs
import Mathlib.Data.List.Basic
import Mathlib.Data.List.TakeDrop

/-!
# Streams of KurrentDB

A stream numbers its events by contiguous revisions from `0`. An append is atomic and answers
with the revision of its last event.
-/

namespace EventSourcing.KurrentDB

open Text

structure RecordedEvent where
  eventType : String
  revision : UInt64
  data : Json

/-- What the reads give of an event. -/
def RecordedEvent.read (e : RecordedEvent) : String × UInt64 × Json :=
  (e.eventType, e.revision, e.data)

structure Stream where
  events : List RecordedEvent
  contiguous : events.map (·.revision) = (List.range events.length).map UInt64.ofNat

namespace Stream

def empty : Stream := ⟨[], rfl⟩

variable (stream : Stream)

/-- The events of an append, recorded under the next revisions. -/
def record (events : List (String × Json)) : List RecordedEvent :=
  events.mapIdx fun i e => ⟨e.1, UInt64.ofNat (stream.events.length + i), e.2⟩

/-- `append_to_stream` with `StreamState::Any`. -/
def append (events : List (String × Json)) : Stream where
  events := stream.events ++ stream.record events
  contiguous := by
    rw [List.map_append, stream.contiguous, List.length_append, List.range_add, List.map_append]
    congr 1
    apply List.ext_getElem <;> simp [record]

/-- `next_expected_version` of the answer to an append: the revision of the last event. -/
def nextExpectedVersion : UInt64 := UInt64.ofNat (stream.events.length - 1)

/-- The revision of the last event; a stream without events has none. -/
def lastRevision : Option UInt64 := stream.events.getLast?.map (·.revision)

/-- `append_to_stream` with `StreamState::StreamRevision`; nothing on a wrong revision. -/
def appendAt (expectedRevision : UInt64) (events : List (String × Json)) : Option Stream :=
  if stream.lastRevision = some expectedRevision then some (stream.append events) else none

/-- Every event, as a read gives it. -/
def reads : List (String × UInt64 × Json) := stream.events.map RecordedEvent.read

/-! ### Reads -/

/-- How the client reports a stream that does not exist: by an error of the call that opens the
read, or of the first `next`. -/
inductive Missing where
  | atOpening (msg : String)
  | atNext (msg : String)

/-- The test for a missing stream on the text of an error. -/
def SaysNotFound (msg : String) : Prop :=
  "StreamNotFound".toList <:+: msg.toList ∨ "stream not found".toList <:+: msg.toList ∨
    "not found".toList <:+: msg.toList

instance (msg : String) : Decidable (SaysNotFound msg) :=
  inferInstanceAs (Decidable (_ ∨ _ ∨ _))

/-- A read of the selected events; `failed` and `broken` are the texts of its errors. -/
def readWith (missing : Missing) (failed broken : String → String)
    (select : List RecordedEvent → List RecordedEvent) :
    Except String (List (String × UInt64 × Json)) :=
  if stream.events = [] then
    match missing with
    | .atOpening msg => if SaysNotFound msg then .ok [] else .error (failed msg)
    | .atNext msg => .error (broken msg)
  else .ok ((select stream.events).map RecordedEvent.read)

def readStreamEvents (missing : Missing) (streamName : String) :
    Except String (List (String × UInt64 × Json)) :=
  stream.readWith missing (fun msg => "read_stream '" ++ streamName ++ "' failed: " ++ msg)
    (fun e => "error reading '" ++ streamName ++ "': " ++ e) fun events => events

def readStreamFromRevision (missing : Missing) (streamName : String) (fromRevision : UInt64) :
    Except String (List (String × UInt64 × Json)) :=
  let place := "'" ++ streamName ++ "'@" ++ toString fromRevision
  stream.readWith missing (fun msg => "read_stream_from_revision " ++ place ++ " failed: " ++ msg)
    (fun e => "error reading " ++ place ++ ": " ++ e)
    fun events => events.filter fun e => fromRevision ≤ e.revision

def readLastEvent (missing : Missing) (streamName : String) :
    Except String (Option (String × UInt64 × Json)) :=
  (stream.readWith missing (fun msg => "read_last_event '" ++ streamName ++ "' failed: " ++ msg)
    (fun e => "error reading last event '" ++ streamName ++ "': " ++ e)
    fun events => events.getLast?.toList).map List.head?

/-! ### What the reads give -/

/-- The client reports a missing stream as one that was not found, when the read is opened. -/
def Missing.NotFound : Missing → Prop
  | atOpening msg => SaysNotFound msg
  | atNext _ => False

variable {stream} {events : List (String × Json)} {n : ℕ}

@[simp] lemma length_append :
    (stream.append events).events.length = stream.events.length + events.length := by
  simp [append, record]

lemma revision_getElem (h : n < stream.events.length) :
    (stream.events[n]).revision = UInt64.ofNat n := by
  have hget := congrArg (·[n]?) stream.contiguous
  simpa [h] using hget

lemma ofNat_le_ofNat {m : ℕ} (hm : m < 2 ^ 64) (hn : n < 2 ^ 64) :
    UInt64.ofNat m ≤ UInt64.ofNat n ↔ m ≤ n := by
  rw [UInt64.le_iff_toNat_le, UInt64.toNat_ofNat_of_lt' hm, UInt64.toNat_ofNat_of_lt' hn]

@[simp] lemma lastRevision_empty : empty.lastRevision = none := rfl

lemma appendAt_isSome {expectedRevision : UInt64} :
    (stream.appendAt expectedRevision events).isSome ↔
      stream.lastRevision = some expectedRevision := by
  simp [appendAt]

@[simp] lemma reads_append :
    (stream.append events).reads
      = stream.reads ++ (stream.record events).map RecordedEvent.read := by
  rw [reads, reads, append, List.map_append]

@[simp] lemma length_reads : stream.reads.length = stream.events.length := List.length_map _

lemma getLast?_append (e : String × Json) : (stream.append [e]).events.getLast?
    = some ⟨e.1, UInt64.ofNat stream.events.length, e.2⟩ := by
  simp [append, record]

variable {missing : Missing} {streamName : String}

/-- The stream exists, or the client reports that it does not as the reads expect it. -/
def Readable (stream : Stream) (missing : Missing) : Prop :=
  stream.events ≠ [] ∨ missing.NotFound

/-- A read of a missing stream that is not reported as one fails. -/
lemma readWith_error {failed broken : String → String}
    {select : List RecordedEvent → List RecordedEvent} (h : ¬ stream.Readable missing) :
    ∃ msg, stream.readWith missing failed broken select = .error msg := by
  obtain ⟨hevents, hmissing⟩ := not_or.mp h
  unfold readWith
  rw [if_pos (not_not.mp hevents)]
  cases missing with
  | atOpening msg => exact ⟨_, if_neg hmissing⟩
  | atNext msg => exact ⟨_, rfl⟩

section

variable (h : stream.Readable missing)
include h

/-- A read gives the selected events; none of a missing stream. -/
lemma readWith_eq {failed broken : String → String}
    {select : List RecordedEvent → List RecordedEvent} (hselect : select [] = []) :
    stream.readWith missing failed broken select
      = .ok ((select stream.events).map RecordedEvent.read) := by
  unfold readWith
  split_ifs with hevents
  · have hmissing := h.resolve_left (not_not.mpr hevents)
    rw [hevents, hselect]
    cases missing with
    | atOpening msg => exact if_pos hmissing
    | atNext msg => exact hmissing.elim
  · rfl

lemma readStreamEvents_eq : stream.readStreamEvents missing streamName = .ok stream.reads := by
  rw [readStreamEvents, readWith_eq h]
  · rfl
  · rfl

lemma readLastEvent_eq : stream.readLastEvent missing streamName
    = .ok (stream.events.getLast?.map RecordedEvent.read) := by
  rw [readLastEvent, readWith_eq h]
  · cases stream.events.getLast? <;> rfl
  · rfl

/-- Reading from revision `n` gives all but the first `n` events. -/
lemma readStreamFromRevision_eq (hlength : stream.events.length < 2 ^ 64)
    (hn : n ≤ stream.events.length) :
    stream.readStreamFromRevision missing streamName (UInt64.ofNat n)
      = .ok (stream.reads.drop n) := by
  have hsplit : (stream.events.filter fun e => UInt64.ofNat n ≤ e.revision)
      = stream.events.drop n := by
    nth_rewrite 1 [← List.take_append_drop n stream.events]
    rw [List.filter_append]
    have hbefore : (stream.events.take n).filter (fun e => UInt64.ofNat n ≤ e.revision) = [] := by
      rw [List.filter_eq_nil_iff]
      intro e he
      obtain ⟨i, hi, rfl⟩ := List.mem_take_iff_getElem.mp he
      rw [decide_eq_true_eq, revision_getElem, ofNat_le_ofNat] <;> omega
    have hafter : (stream.events.drop n).filter (fun e => UInt64.ofNat n ≤ e.revision)
        = stream.events.drop n := by
      rw [List.filter_eq_self]
      intro e he
      obtain ⟨i, hi, rfl⟩ := List.mem_drop_iff_getElem.mp he
      rw [decide_eq_true_eq, revision_getElem, ofNat_le_ofNat] <;> omega
    rw [hbefore, hafter, List.nil_append]
  rw [readStreamFromRevision, readWith_eq h]
  · rw [hsplit, reads, List.map_drop]
  · rfl

end

lemma readLastEvent_error (h : ¬ stream.Readable missing) :
    ∃ msg, stream.readLastEvent missing streamName = .error msg := by
  obtain ⟨msg, hmsg⟩ := readWith_error h
  exact ⟨msg, by rw [readLastEvent, hmsg]; rfl⟩

end Stream

end EventSourcing.KurrentDB
