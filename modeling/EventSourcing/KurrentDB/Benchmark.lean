import EventSourcing.Bench.Runner
import EventSourcing.Bench.Statement
import EventSourcing.KurrentDB.Stream

/-!
# The write benchmark of KurrentDB

In event-store mode a task reads the tracked revision of its stream, appends with it and, on
success, stores the revision of the answer; the lock of the map is not held in between. The map
starts with revision `0` for every stream, which a stream without events does not have: no
append of a run on fresh streams is ever accepted (`never_accepted`).
-/

namespace EventSourcing.KurrentDB

open Bench Concurrency Text

/-- `EventData::json` of an event. -/
def eventData (event : BenchmarkEvent) : String × Json :=
  ("BenchmarkEvent", .object [("seq", .posInt event.seq), ("task_id", .posInt event.taskId)])

/-- What the tasks of a run share. -/
structure Shared where
  /-- the streams by their index -/
  streams : UInt64 → Stream
  streamVersions : UInt64 → Option UInt64

namespace Shared

variable (shared : Shared)

/-- `versions.get(&stream_idx).copied().unwrap_or(0)` -/
def expectedVersion (streamIdx : UInt64) : UInt64 := (shared.streamVersions streamIdx).getD 0

/-- The append of a task, with the revision it expects if it expects one. -/
def append (d : Dispatch) (expected : Option UInt64) : Option Shared :=
  let events := d.events.map eventData
  let stream := shared.streams d.streamIdx
  let appended :=
    match expected with
    | some revision => stream.appendAt revision events
    | none => some (stream.append events)
  appended.map fun stream =>
    { shared with streams := Function.update shared.streams d.streamIdx stream }

end Shared

/-- How far the call of a task has come. -/
inductive Append where
  /-- before the tracked revision is read -/
  | opening (d : Dispatch)
  | appending (d : Dispatch) (expected : Option UInt64)
  /-- the answer is not stored yet -/
  | appended (d : Dispatch) (nextVersion : UInt64)
  deriving DecidableEq

inductive AppendStep where
  /-- the lock of `stream_versions`, to read or to store a revision -/
  | lock
  | append (outcome : Outcome)
  deriving DecidableEq

namespace Append

def next (shared : Shared) : Append → AppendStep → Option (Shared × (Append ⊕ Bool))
  | .opening d, .lock =>
    some (shared, .inl (.appending d (some (shared.expectedVersion d.streamIdx))))
  | .appending d (some expected), .append outcome =>
    match outcome.run (shared.append d (some expected)) shared with
    | (true, shared) =>
      some (shared, .inl (.appended d (shared.streams d.streamIdx).nextExpectedVersion))
    | (false, shared) => some (shared, .inr false)
  | .appending d none, .append outcome =>
    let (ok, shared) := outcome.run (shared.append d none) shared
    some (shared, .inr ok)
  | .appended d nextVersion, .lock =>
    some ({ shared with
      streamVersions := Function.update shared.streamVersions d.streamIdx (some nextVersion) },
      .inr true)
  | _, _ => none

end Append

/-- The calls of a run that starts with the given streams. -/
def backend (config : BenchmarkConfig) (streams : UInt64 → Stream) :
    Backend Shared Append AppendStep where
  init shared := shared =
    { streams := streams
      streamVersions := fun i =>
        if config.eventStoreMode ∧ i < config.concurrency then some 0 else none }
  start d := if config.eventStoreMode then .opening d else .appending d none
  next := Append.next

/-- `benchmark::run` of KurrentDB. -/
abbrev benchmark (config : BenchmarkConfig) (streams : UInt64 → Stream) :
    System (Runner Shared Append) (RunnerStep AppendStep) :=
  Bench.benchmark (backend config streams) config

/-! ### Idle streams -/

/-- The task has sent an append on the stream, and its revision is not stored yet. -/
def InFlight (streamIdx : UInt64) : WriteTask Append → Prop
  | .writing (.appending d _) => d.streamIdx = streamIdx
  | .writing (.appended d _) => d.streamIdx = streamIdx
  | _ => False

instance (streamIdx : UInt64) : (t : WriteTask Append) → Decidable (InFlight streamIdx t)
  | .writing (.appending d _) => inferInstanceAs (Decidable (d.streamIdx = streamIdx))
  | .writing (.appended d _) => inferInstanceAs (Decidable (d.streamIdx = streamIdx))
  | .writing (.opening _) => isFalse id
  | .returned _ | .recorded | .counted | .ended _ => isFalse id

/-- No append on the stream is in flight. -/
def Idle (σ : Runner Shared Append) (streamIdx : UInt64) : Prop :=
  ∀ t ∈ σ.permits.tasks, ¬ InFlight streamIdx t

instance (σ : Runner Shared Append) (streamIdx : UInt64) : Decidable (Idle σ streamIdx) :=
  inferInstanceAs (Decidable (∀ t ∈ σ.permits.tasks, ¬ InFlight streamIdx t))

/-- The server accepts the tracked revision of the stream. -/
def Accepted (shared : Shared) (streamIdx : UInt64) : Prop :=
  (shared.streams streamIdx).lastRevision = some (shared.expectedVersion streamIdx)

/-- A run whose streams do not exist at the start. -/
abbrev freshRun (config : BenchmarkConfig) :
    System (Runner Shared Append) (RunnerStep AppendStep) :=
  benchmark config fun _ => .empty

/-- Whenever an append is issued on an idle stream, it succeeds. -/
def IssuesSucceed (config : BenchmarkConfig) : Prop :=
  ∀ σ, (freshRun config).Reachable σ → ∀ d, .writing (.opening d) ∈ σ.permits.tasks →
    Idle σ d.streamIdx →
    (σ.shared.append d (some (σ.shared.expectedVersion d.streamIdx))).isSome

/-- The server accepts the tracked revision of every idle stream. -/
def RevisionsTracked (config : BenchmarkConfig) : Prop :=
  ∀ σ, (freshRun config).Reachable σ → ∀ i < config.concurrency, Idle σ i → Accepted σ.shared i

variable {config : BenchmarkConfig} {σ : Runner Shared Append} {shared : Shared}

lemma append_isSome {d : Dispatch} {revision : UInt64} :
    (shared.append d (some revision)).isSome ↔
      (shared.streams d.streamIdx).lastRevision = some revision := by
  simp only [Shared.append, Option.isSome_map, Stream.appendAt_isSome]

/-! ### Runs on fresh streams -/

/-- No stream has an event. -/
def Shared.Fresh (shared : Shared) : Prop := ∀ i, shared.streams i = .empty

/-- The call has not been accepted: it expects a revision, and it has no answer. -/
def Append.Refused : Append → Prop
  | opening _ => True
  | appending _ expected => expected ≠ none
  | appended _ _ => False

lemma Shared.Fresh.append_eq_none (h : shared.Fresh) (d : Dispatch) (revision : UInt64) :
    shared.append d (some revision) = none := by
  rw [← Option.not_isSome_iff_eq_none, append_isSome, h d.streamIdx]
  simp

lemma outcome_refused (outcome : Outcome) (shared : Shared) :
    outcome.run none shared = (false, shared) := by
  cases outcome <;> rfl

/-- In event-store mode no call on fresh streams is accepted, and the streams stay fresh. -/
lemma keeps_fresh (hmode : config.eventStoreMode = true) :
    (backend config fun _ => .empty).Keeps Shared.Fresh Append.Refused (· = false) where
  init := by
    rintro _ rfl i
    rfl
  start d := by simp [backend, hmode, Append.Refused]
  call shared w a shared' w' hfresh hw hs := by
    cases w with
    | opening d =>
      cases a with
      | lock =>
        obtain ⟨rfl, hw'⟩ := Prod.mk.inj (Option.some.inj hs)
        obtain rfl := Sum.inl.inj hw'
        exact ⟨hfresh, nofun⟩
      | append => cases hs
    | appending d expected =>
      cases expected with
      | none => exact absurd rfl hw
      | some revision =>
        cases a with
        | lock => cases hs
        | append outcome =>
          simp only [backend, Append.next, hfresh.append_eq_none, outcome_refused] at hs
          cases hs
    | appended => exact hw.elim
  result shared w a shared' ok hfresh hw hs := by
    cases w with
    | opening d => cases a <;> cases hs
    | appending d expected =>
      cases expected with
      | none => exact absurd rfl hw
      | some revision =>
        cases a with
        | lock => cases hs
        | append outcome =>
          simp only [backend, Append.next, hfresh.append_eq_none, outcome_refused] at hs
          obtain ⟨rfl, hok⟩ := Prod.mk.inj (Option.some.inj hs)
          exact ⟨hfresh, (Sum.inr.inj hok).symm⟩
    | appended => exact hw.elim

/-- The state in which a run on fresh streams starts. -/
def initialRun (config : BenchmarkConfig) : Runner Shared Append where
  shared :=
    { streams := fun _ => .empty
      streamVersions := fun i =>
        if config.eventStoreMode ∧ i < config.concurrency then some 0 else none }
  permits := { free := config.maxInFlight, tasks := [] }
  seq := 0
  hist := []
  totalEvents := 0
  phase := .dispatching

lemma init_initialRun (config : BenchmarkConfig) : (freshRun config).init (initialRun config) :=
  ⟨rfl, rfl⟩

/-- With a permit, the first tick dispatches a write on the first stream. -/
lemma first_tick (hmode : config.eventStoreMode = true) (hpos : config.concurrency ≠ 0) :
    ∃ σ d, (freshRun config).Reachable σ ∧ σ.permits.tasks = [.writing (.opening d)] := by
  have hfree : config.maxInFlight ≠ 0 := by
    have hne : config.concurrency.toNat ≠ 0 := by
      simpa [← UInt64.toNat_inj] using hpos
    simp only [BenchmarkConfig.maxInFlight]
    omega
  refine ⟨{ initialRun config with
    permits := ⟨config.maxInFlight - 1, [.writing (.opening ⟨0, 0, config.batch⟩)]⟩, seq := 1 },
    _, System.Reachable.next (a := .tick) (.init (init_initialRun config)) ?_, rfl⟩
  simp [Bench.benchmark, Runner.next, initialRun, checkedRem, hpos, hfree, Permits.spawn, backend,
    hmode]

/-- In event-store mode and on fresh streams no tracked revision is ever one that the server
accepts: every append of every run fails, and the streams never come to exist. Only a run that
issues no append, because it has no concurrency, keeps what the counters are for. -/
theorem never_accepted (config : BenchmarkConfig) (hmode : config.eventStoreMode = true) :
    (IssuesSucceed config ↔ config.concurrency = 0) ∧
    (RevisionsTracked config ↔ config.concurrency = 0) ∧
    ∀ σ, (freshRun config).Reachable σ →
      (∀ i, σ.shared.streams i = .empty ∧ ¬ Accepted σ.shared i) ∧
      (∀ t ∈ σ.permits.tasks, t.isOk = false) := by
  have hnever : ∀ σ, (freshRun config).Reachable σ →
      (∀ i, σ.shared.streams i = .empty ∧ ¬ Accepted σ.shared i) ∧
      (∀ t ∈ σ.permits.tasks, t.isOk = false) := by
    intro σ h
    obtain ⟨hfresh, htasks⟩ := (keeps_fresh hmode).reachable h
    refine ⟨fun i => ⟨hfresh i, ?_⟩, fun t ht => ?_⟩
    · simp [Accepted, hfresh i]
    · have hmeets := htasks t ht
      cases t with
      | writing => rfl
      | returned ok => exact hmeets
      | recorded => cases hmeets
      | counted => cases hmeets
      | ended ok => exact hmeets
  refine ⟨⟨fun hissues => ?_, fun hzero => ?_⟩, ⟨fun htracked => ?_, fun hzero => ?_⟩, hnever⟩
  · by_contra hpos
    obtain ⟨σ, d, h, htasks⟩ := first_tick hmode hpos
    have haccepted := hissues σ h d (by simp [htasks]) (by simp [Idle, htasks, InFlight])
    exact ((hnever σ h).1 d.streamIdx).2 (append_isSome.mp haccepted)
  · intro σ h d hd
    rw [(no_tasks hzero h).2] at hd
    cases hd
  · by_contra hpos
    have hlt : 0 < config.concurrency := UInt64.pos_iff_ne_zero.mpr hpos
    have h := System.ReachBy.init (C := fun _ _ => True) (init_initialRun config)
    have hidle : Idle (initialRun config) 0 := fun t ht => absurd ht List.not_mem_nil
    exact ((hnever _ h).1 0).2 (htracked _ h 0 hlt hidle)
  · intro σ _ i hi
    rw [hzero] at hi
    exact absurd hi (by simp)

theorem never_accepted_one : ¬ IssuesSucceed ⟨1, 10, true⟩ := by
  intro hissues
  exact absurd ((never_accepted ⟨1, 10, true⟩ rfl).1.mp hissues) (by decide)

/-- A single task on a single stream: its first append is issued on an idle stream and fails. -/
theorem issues_succeed_fails :
    ¬ ∀ config : BenchmarkConfig, config.eventStoreMode = true → IssuesSucceed config := by
  intro hclaim
  have hreach : (freshRun ⟨1, 10, true⟩).Reachable
      ((freshRun ⟨1, 10, true⟩).after [.tick] (initialRun ⟨1, 10, true⟩)) :=
    System.reachable_after [.tick] (init_initialRun _) (by decide)
  have hissue := hclaim ⟨1, 10, true⟩ rfl _ hreach ⟨0, 0, 10⟩ (by decide)
    (by decide)
  exact absurd hissue (by decide)

end EventSourcing.KurrentDB
