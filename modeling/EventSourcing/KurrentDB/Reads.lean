import EventSourcing.HotTail.Runner
import EventSourcing.KurrentDB.Stream

/-!
# Reads of `KurrentClient`, over whatever the client yields

A read is opened, which may fail, and then yields events until it ends or fails. The functions
take an error of the opening for a missing stream where its text has certain words, and no error
of a later `next`; so what they tell of a missing stream is right where the words fit the error
and no `next` reports a missing stream (`reads_empty_iff`).
-/

namespace EventSourcing.KurrentDB.Reads

open Text
open KurrentDB.Stream (SaysNotFound)
open Events (BenchmarkEvent)
open Bench (Failure)
open HotTail (eventSize withCapacity)

/-- An error of the client: its text, and whether it says that the stream does not exist. -/
structure ClientError where
  text : String
  missing : Bool
  deriving DecidableEq

structure RecordedEvent where
  eventType : String
  revision : UInt64
  data : List UInt8
  deriving DecidableEq

/-- What the client yields to a read. -/
inductive Session where
  /-- `read_stream` fails -/
  | failed (e : ClientError)
  /-- `next` gives the events, then `None` or an error -/
  | opened (events : List RecordedEvent) (ending : Option ClientError)
  deriving DecidableEq

section Functions

variable (fromSlice : List UInt8 → Option Json)
  (benchEvent : List UInt8 → Option BenchmarkEvent) (streamName : String)

/-- An event as the reads return it; a payload that is no JSON is null. -/
def RecordedEvent.read (recorded : RecordedEvent) : String × UInt64 × Json :=
  (recorded.eventType, recorded.revision, (fromSlice recorded.data).getD .null)

/-- The loop over `next`: events that `parse` does not take are skipped. -/
def readAll {A : Type} (parse : RecordedEvent → Option A) (broken : String → String)
    (ending : Option ClientError) : List RecordedEvent → List A → Except Failure (List A)
  | [], events =>
    match ending with
    | none => .ok events
    | some e => .error (.failed (broken e.text))
  | recorded :: rest, events => readAll parse broken ending rest (events ++ (parse recorded).toList)

/-- A read that is opened and drained. -/
def readWith {A : Type} (parse : RecordedEvent → Option A) (failed broken : String → String) :
    Session → Except Failure (List A)
  | .failed e => if SaysNotFound e.text then .ok [] else .error (.failed (failed e.text))
  | .opened events ending => readAll parse broken ending events []

def readStreamEvents : Session → Except Failure (List (String × UInt64 × Json)) :=
  readWith (fun recorded => some (recorded.read fromSlice))
    (fun msg => "read_stream '" ++ streamName ++ "' failed: " ++ msg)
    (fun e => "error reading '" ++ streamName ++ "': " ++ e)

def readStreamFromRevision (fromRevision : UInt64) :
    Session → Except Failure (List (String × UInt64 × Json)) :=
  let place := "'" ++ streamName ++ "'@" ++ toString fromRevision
  readWith (fun recorded => some (recorded.read fromSlice))
    (fun msg => "read_stream_from_revision " ++ place ++ " failed: " ++ msg)
    (fun e => "error reading " ++ place ++ ": " ++ e)

/-- Only the first `next` is called. -/
def readLastEvent : Session → Except Failure (Option (String × UInt64 × Json))
  | .failed e =>
    if SaysNotFound e.text then .ok none
    else .error (.failed ("read_last_event '" ++ streamName ++ "' failed: " ++ e.text))
  | .opened (recorded :: _) _ => .ok (some (recorded.read fromSlice))
  | .opened [] none => .ok none
  | .opened [] (some e) =>
    .error (.failed ("error reading last event '" ++ streamName ++ "': " ++ e.text))

/-- The last `n` benchmark events, oldest first. -/
def readLastNBenchEvents (n : UInt64) : Session → Except Failure (List BenchmarkEvent)
  | .failed e =>
    if SaysNotFound e.text then .ok []
    else .error (.failed ("read_last_n '" ++ streamName ++ "' failed: " ++ e.text))
  | .opened events ending => do
    withCapacity n
    let events ← readAll (fun recorded => benchEvent recorded.data)
      (fun e => "error reading '" ++ streamName ++ "': " ++ e) ending events []
    return events.reverse

end Functions

/-! ### What a session tells of the stream -/

namespace Session

variable (session : Session)

/-- The error of the session. -/
def error? : Session → Option ClientError
  | failed e => some e
  | opened _ ending => ending

def events : Session → List RecordedEvent
  | failed _ => []
  | opened events _ => events

/-- What the first `next` shows of the session. -/
def first : Session → Session
  | opened (recorded :: _) _ => opened [recorded] none
  | session => session

/-- The stream does not exist. -/
def Missing : Prop := ∃ e ∈ session.error?, e.missing = true

/-- A read that gives no event of those that count, and no error. -/
def Empty (counts : RecordedEvent → Bool) : Prop :=
  session.error? = none ∧ ∀ recorded ∈ session.events, counts recorded = false

/-- The words of an error of the opening fit it, and no `next` says that the stream does not
exist. -/
def WordsFit : Session → Prop
  | failed e => SaysNotFound e.text ↔ e.missing = true
  | opened _ ending => ∀ e ∈ ending, e.missing = false

/-- The read can be opened. -/
def Opens : Session → Prop
  | failed _ => False
  | opened _ _ => True

end Session

/-- A read of a session returns: empty exactly when the stream does not exist or has no event that
counts in the range, and with an error on any other failure. -/
structure Truthful {A : Type} (session : Session) (counts : RecordedEvent → Bool) (empty : A)
    (result : Except Failure A) : Prop where
  returns : ∀ msg, result ≠ .error (.panicked msg)
  empty_iff : result = .ok empty ↔ session.Missing ∨ session.Empty counts
  failure : ∀ e ∈ session.error?, e.missing = false → ∃ msg, result = .error (.failed msg)

variable {fromSlice : List UInt8 → Option Json}
  {benchEvent : List UInt8 → Option BenchmarkEvent} {A : Type}
  {parse : RecordedEvent → Option A} {failed broken : String → String} {session : Session}

/-- What the loop gives. -/
lemma readAll_eq (ending : Option ClientError) (events : List RecordedEvent) (read : List A) :
    readAll parse broken ending events read =
      match ending with
      | none => .ok (read ++ events.filterMap parse)
      | some e => .error (.failed (broken e.text)) := by
  induction events generalizing read with
  | nil =>
    cases ending with
    | none => simp [readAll]
    | some e => rfl
  | cons recorded rest ih =>
    rw [readAll, ih]
    cases ending with
    | none =>
      cases hparse : parse recorded with
      | none => simp [hparse]
      | some a => simp [hparse]
    | some e => rfl

/-! ### One session -/

variable {counts : RecordedEvent → Bool} {empty : A} {msg : String} {e : ClientError}
  {events : List RecordedEvent}

/-- An error of the opening. -/
lemma truthful_failed :
    Truthful (.failed e) counts empty
        (if SaysNotFound e.text then .ok empty else .error (.failed msg))
      ↔ (Session.failed e).WordsFit := by
  have hnotEmpty : ¬ (Session.failed e).Empty counts := fun h => by cases h.1
  have hmissing : (Session.failed e).Missing ↔ e.missing = true := by
    simp [Session.Missing, Session.error?]
  have hresult : (if SaysNotFound e.text then .ok empty else .error (.failed msg)
      : Except Failure A) = .ok empty ↔ SaysNotFound e.text := by
    by_cases hwords : SaysNotFound e.text
    · simp [hwords]
    · simp [hwords]
  constructor
  · intro h
    have hiff := h.empty_iff
    rwa [hresult, or_iff_left hnotEmpty, hmissing] at hiff
  · intro hfit
    have hwords : SaysNotFound e.text ↔ e.missing = true := hfit
    constructor
    · intro panic
      split_ifs <;> simp
    · rw [hresult, or_iff_left hnotEmpty, hmissing, hwords]
    · rintro e' he' hother
      obtain rfl := Option.some.inj he'
      refine ⟨msg, if_neg fun hsays => ?_⟩
      rw [hwords.mp hsays] at hother
      cases hother

/-- An error of a later `next`. -/
lemma truthful_broken :
    Truthful (.opened events (some e)) counts empty (.error (.failed msg))
      ↔ e.missing = false := by
  have hnotEmpty : ¬ (Session.opened events (some e)).Empty counts := fun h => by cases h.1
  have hmissing : (Session.opened events (some e)).Missing ↔ e.missing = true := by
    simp [Session.Missing, Session.error?]
  constructor
  · intro h
    have hiff := h.empty_iff
    rw [or_iff_left hnotEmpty, hmissing] at hiff
    simpa using hiff
  · intro hother
    constructor
    · simp
    · rw [or_iff_left hnotEmpty, hmissing]
      simp [hother]
    · exact fun _ _ _ => ⟨msg, rfl⟩

/-- A session without an error. -/
lemma truthful_ended {read : A} : Truthful (.opened events none) counts empty (.ok read)
    ↔ (read = empty ↔ ∀ recorded ∈ events, counts recorded = false) := by
  have hmissing : ¬ (Session.opened events none).Missing := by
    rintro ⟨e, he, -⟩
    cases he
  constructor
  · intro h
    have hiff := h.empty_iff
    rw [or_iff_right hmissing] at hiff
    simpa [Session.Empty, Session.error?, Session.events] using hiff
  · intro h
    constructor
    · simp
    · rw [or_iff_right hmissing]
      simpa [Session.Empty, Session.error?, Session.events] using h
    · intro e he
      cases he

/-- The loop over `next` skips what `parse` does not take, so only the rest counts. -/
lemma readWith_truthful_iff :
    Truthful session (fun recorded => (parse recorded).isSome) []
        (readWith parse failed broken session)
      ↔ session.WordsFit := by
  cases session with
  | failed e => exact truthful_failed
  | opened events ending =>
    rw [readWith, readAll_eq]
    cases ending with
    | none => simp [truthful_ended, Session.WordsFit, List.filterMap_eq_nil_iff]
    | some e => simp [truthful_broken, Session.WordsFit]

lemma readLastEvent_truthful_iff (streamName : String) :
    Truthful session.first (fun _ => true) none (readLastEvent fromSlice streamName session)
      ↔ session.first.WordsFit := by
  cases session with
  | failed e => exact truthful_failed
  | opened events ending =>
    cases events with
    | nil =>
      cases ending with
      | none => simp [readLastEvent, Session.first, truthful_ended, Session.WordsFit]
      | some e => simp [readLastEvent, Session.first, truthful_broken, Session.WordsFit]
    | cons recorded rest =>
      simp [readLastEvent, Session.first, truthful_ended, Session.WordsFit]

/-- The capacity is allocated before the first `next`. -/
lemma readLastNBenchEvents_opened (streamName : String) (n : UInt64)
    (ending : Option ClientError) :
    readLastNBenchEvents benchEvent streamName n (.opened events ending)
      = if n.toNat * eventSize < 2 ^ 63 then
          match ending with
          | none => .ok (events.filterMap fun recorded => benchEvent recorded.data).reverse
          | some e => .error (.failed ("error reading '" ++ streamName ++ "': " ++ e.text))
        else .error (.panicked "capacity overflow") := by
  simp only [readLastNBenchEvents, readAll_eq, withCapacity]
  by_cases hcapacity : n.toNat * eventSize < 2 ^ 63
  · rw [if_pos hcapacity, if_pos hcapacity]
    cases ending with
    | none => rfl
    | some e => rfl
  · rw [if_neg hcapacity, if_neg hcapacity]
    rfl

lemma readLastNBenchEvents_truthful_iff (streamName : String) (n : UInt64) :
    Truthful session (fun recorded => (benchEvent recorded.data).isSome) []
        (readLastNBenchEvents benchEvent streamName n session)
      ↔ session.WordsFit ∧ (session.Opens → n.toNat * eventSize < 2 ^ 63) := by
  cases session with
  | failed e => rw [readLastNBenchEvents, truthful_failed, and_iff_left fun h => h.elim]
  | opened events ending =>
    rw [readLastNBenchEvents_opened]
    by_cases hcapacity : n.toNat * eventSize < 2 ^ 63
    · rw [if_pos hcapacity, and_iff_left fun _ => hcapacity]
      cases ending with
      | none => simp [truthful_ended, Session.WordsFit, List.filterMap_eq_nil_iff]
      | some e => simp [truthful_broken, Session.WordsFit]
    · rw [if_neg hcapacity]
      constructor
      · exact fun h => absurd rfl (h.returns _)
      · exact fun h => absurd (h.2 trivial) hcapacity

/-! ### The four reads -/

/-- The reads are empty exactly where they should be, and fail where they should, if and only if the
words of an error of the opening fit it and no `next` says that the stream does not exist; the
read of the last `n` needs a capacity that a vector can have. -/
theorem reads_empty_iff (fromSlice : List UInt8 → Option Json)
    (benchEvent : List UInt8 → Option BenchmarkEvent) (streamName : String)
    (fromRevision n : UInt64) (session : Session) :
    (Truthful session (fun _ => true) [] (readStreamEvents fromSlice streamName session)
        ↔ session.WordsFit)
      ∧ (Truthful session (fun _ => true) []
          (readStreamFromRevision fromSlice streamName fromRevision session)
        ↔ session.WordsFit)
      ∧ (Truthful session.first (fun _ => true) none (readLastEvent fromSlice streamName session)
        ↔ session.first.WordsFit)
      ∧ (Truthful session (fun recorded => (benchEvent recorded.data).isSome) []
          (readLastNBenchEvents benchEvent streamName n session)
        ↔ session.WordsFit ∧ (session.Opens → n.toNat * eventSize < 2 ^ 63)) := by
  refine ⟨?_, ?_, readLastEvent_truthful_iff streamName,
    readLastNBenchEvents_truthful_iff streamName n⟩
  · exact @readWith_truthful_iff _ (fun recorded => some (recorded.read fromSlice)) _ _ session
  · exact @readWith_truthful_iff _ (fun recorded => some (recorded.read fromSlice)) _ _ session

lemma readStreamEvents_failed (fromSlice : List UInt8 → Option Json) (streamName : String)
    (h : SaysNotFound e.text) : readStreamEvents fromSlice streamName (.failed e) = .ok [] := by
  rw [readStreamEvents, readWith, if_pos h]

lemma saysNotFound_append (s : String) : SaysNotFound (s ++ "not found") := by
  refine .inr (.inr ⟨s.toList, [], ?_⟩)
  rw [List.append_nil, String.toList_append]

/-- A name that could not be resolved. -/
def dnsFailure : ClientError where
  text := "gRPC connection error: dns error: host " ++ "not found"
  missing := false

def streamMissing : ClientError where
  text := "The resource you asked for doesn't exist"
  missing := true

/-- A failure of the connection reads as a stream without events, and a missing stream that `next`
reports as a failure. -/
theorem reads_empty_fails :
    (¬ ∀ (fromSlice : List UInt8 → Option Json) (streamName : String) (session : Session),
      Truthful session (fun _ => true) [] (readStreamEvents fromSlice streamName session))
    ∧ readStreamEvents (fun _ => none) "inventory" (.failed dnsFailure) = .ok []
    ∧ ∃ msg, readStreamEvents (fun _ => none) "inventory" (.opened [] (some streamMissing))
      = .error (.failed msg) := by
  have hwords := saysNotFound_append "gRPC connection error: dns error: host "
  have hempty : readStreamEvents (fun _ => none) "inventory" (.failed dnsFailure) = .ok [] :=
    readStreamEvents_failed _ _ hwords
  refine ⟨?_, hempty, ?_⟩
  · intro h
    obtain ⟨msg, hmsg⟩ := (h (fun _ => none) "inventory" (.failed dnsFailure)).failure _ rfl rfl
    rw [hempty] at hmsg
    cases hmsg
  · rw [readStreamEvents, readWith, readAll]
    exact ⟨_, rfl⟩

end EventSourcing.KurrentDB.Reads
