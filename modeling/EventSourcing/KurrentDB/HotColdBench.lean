import EventSourcing.HotTail.Databases
import EventSourcing.KurrentDB.ReaderBench

/-!
# The hot/cold view bench

`hot_cold_view_bench::run` writes the same events to a cold stream and to a hot one, of which
KurrentDB keeps the last `hot_window` events, reads both, and replays the cold one. A request of
the main task ends the bench or does one of a few things (`request_cases`).
-/

namespace EventSourcing.KurrentDB.HotCold

open Bench (Outcome collect)
open Concurrency HotTail Text

/-- `HotColdViewConfig`. A `$maxCount` is positive. -/
structure Config where
  seedEvents : ℕ
  hotWindow : ℕ
  seedBatch : ℕ
  positive : 0 < hotWindow

/-- `batch_len` -/
def Config.batchLen (config : Config) (offset : ℕ) : ℕ :=
  min config.seedBatch (config.seedEvents - offset)

/-- What a read gives of an event. -/
abbrev ReadEvent := String × UInt64 × Json

/-! ### Streams with a window -/

/-- All events of a stream, and which of them the server gives. -/
structure View where
  stream : Stream
  /-- `$maxCount` of the metadata -/
  maxCount : Option ℕ
  /-- the first revision that has not been scavenged -/
  first : ℕ

namespace View

variable (view : View)

/-- The first revision of a read. -/
def start : ℕ :=
  match view.maxCount with
  | none => view.first
  | some n => max view.first (view.stream.events.length - n)

def visible : List RecordedEvent := view.stream.events.drop view.start

def append (eventType : String) (data : List Json) : View :=
  { view with stream := view.stream.append (data.map fun d => (eventType, d)) }

/-- `KurrentClient::read_stream_events` -/
def readStreamEvents (missing : Stream.Missing) (streamName : String) :
    Except String (List ReadEvent) :=
  view.stream.readWith missing (fun msg => "read_stream '" ++ streamName ++ "' failed: " ++ msg)
    (fun e => "error reading '" ++ streamName ++ "': " ++ e) fun events => events.drop view.start

/-- What a read gives if it succeeds. -/
def reads : List ReadEvent := view.visible.map RecordedEvent.read

variable {view}

lemma readStreamEvents_ok {missing : Stream.Missing} {streamName : String}
    {events : List ReadEvent} (h : view.readStreamEvents missing streamName = .ok events) :
    events = view.reads := by
  unfold readStreamEvents Stream.readWith at h
  split_ifs at h with hempty
  · rw [reads, visible, hempty, List.drop_nil]
    cases missing with
    | atOpening msg =>
      simp only at h
      split_ifs at h
      exact (Except.ok.inj h).symm
    | atNext msg => cases h
  · exact (Except.ok.inj h).symm

/-- However much has been scavenged of what is before the window, the window is all there is. -/
lemma visible_eq {n k : ℕ} (hmax : view.maxCount = some n) (hk : k ≤ view.first)
    (hfirst : view.first ≤ max k (view.stream.events.length - n)) :
    view.visible = (view.stream.events.drop k).rtake n := by
  rw [visible, start, hmax, Fold.rtake_drop]
  congr 1
  simp only
  omega

end View

/-! ### The bench -/

inductive Phase where
  /-- sets the window -/
  | metadata
  /-- at the head of the seed loop -/
  | seeding (offset : ℕ)
  /-- the batch at the offset is on the cold stream -/
  | seedingHot (offset : ℕ)
  | readingCold
  | readingHot
  /-- the reads of section B that follow the next one -/
  | rereading (left : ℕ)
  | writing (i : ℕ)
  | readingBack (i : ℕ)
  /-- waits for the projector of the cold stream -/
  | replaying
  | replayed
  | failed
  deriving DecidableEq

structure State where
  cold : View
  hot : View
  seq : ℕ
  phase : Phase
  coldEvents : List ReadEvent
  hotEvents : List ReadEvent
  /-- history: what the last read of section B has given -/
  lastRead : List ReadEvent
  /-- the subscription of the projector, which ends with it -/
  sub : Subscription
  count : ℕ

inductive Step where
  /-- the next request of the main task, by the instants of its events -/
  | request (now : ℕ → DateTime) (outcome : Outcome)
  /-- the server scavenges the hot stream up to a revision -/
  | scavenge (revision : ℕ)
  | deliver
  /-- the subscription ends with an error -/
  | fail

section Code

variable (config : Config) (json : Codec Events.BenchmarkEvent Json) (missing : Stream.Missing)
  (streamPrefix : String)

/-- The data of the next `n` events after `seq`. -/
def batch (seq n : ℕ) (now : ℕ → DateTime) : Option (List Json) :=
  collect ((List.range n).map fun i => json.encode (.new (.ofNat (seq + i + 1)) 0 (now i)))

namespace State

variable (σ : State)

/-- A request that writes to the hot stream. -/
def writeHot (eventType : String) (data : Option (List Json)) (outcome : Outcome)
    (phase : Phase) : State :=
  match data.map fun data => outcome.run (some (σ.hot.append eventType data)) σ.hot with
  | some (true, hot) => { σ with hot := hot, phase := phase }
  | some (false, hot) => { σ with hot := hot, phase := .failed }
  | none => { σ with phase := .failed }

/-- A request that reads a stream; `next` is what comes of the events. -/
def read (view : View) (streamName : String) (outcome : Outcome)
    (next : List ReadEvent → State) : State :=
  match outcome, view.readStreamEvents missing streamName with
  | .done, .ok events => next events
  | _, _ => { σ with phase := .failed }

def request (now : ℕ → DateTime) (outcome : Outcome) : Option State :=
  let coldStream := streamPrefix ++ "-cold"
  let hotStream := streamPrefix ++ "-hot"
  match σ.phase with
  | .metadata =>
    let (ok, hot) := outcome.run (some { σ.hot with maxCount := some config.hotWindow }) σ.hot
    some { σ with hot := hot, phase := if ok then .seeding 0 else .failed }
  | .seeding offset =>
    if offset < config.seedEvents then
      let n := config.batchLen offset
      match batch json σ.seq n now with
      | none => some { σ with phase := .failed }
      | some data =>
        let (ok, cold) := outcome.run (some (σ.cold.append "BenchmarkEvent" data)) σ.cold
        some { σ with
          cold := cold
          seq := σ.seq + n
          phase := if ok then .seedingHot offset else .failed }
    else some { σ with phase := .readingCold }
  | .seedingHot offset =>
    let n := config.batchLen offset
    let seqHot := σ.seq - n
    some (σ.writeHot "BenchmarkEvent" (batch json seqHot n now) outcome (.seeding (offset + n)))
  | .readingCold => some (σ.read missing σ.cold coldStream outcome fun events =>
      { σ with coldEvents := events, phase := .readingHot })
  | .readingHot => some (σ.read missing σ.hot hotStream outcome fun events =>
      { σ with hotEvents := events, phase := .rereading 999 })
  | .rereading left => some (σ.read missing σ.hot hotStream outcome fun events =>
      { σ with
        lastRead := events
        phase := match left with
          | 0 => .writing 0
          | left + 1 => .rereading left })
  | .writing i =>
    let data := (json.encode (.new (.ofNat (config.seedEvents + i)) 0 (now 0))).map ([·])
    some (σ.writeHot "HotWriteEvent" data outcome (.readingBack i))
  | .readingBack i => some (σ.read missing σ.hot hotStream outcome fun events =>
      if i + 1 < 100 then { σ with lastRead := events, phase := .writing (i + 1) }
      else
        { σ with
          lastRead := events
          phase := .replaying
          sub := ⟨σ.cold.start, false⟩
          count := 0 })
  | .replaying =>
    if config.seedEvents ≤ σ.count then some { σ with phase := .replayed }
    else if σ.sub.ended then some { σ with phase := .failed }
    else none
  | .replayed => none
  | .failed => none

/-- What the projector reads of the cold stream. -/
def decoded : List Decoded := σ.cold.stream.events.map fun e => json.decode e.data

def next (σ : State) : Step → Option State
  | .request now outcome => σ.request config json missing streamPrefix now outcome
  | .scavenge revision =>
    if σ.phase ≠ .metadata ∧ σ.hot.first ≤ revision ∧ revision ≤ σ.hot.start then
      some { σ with hot := { σ.hot with first := revision } }
    else none
  | .deliver =>
    if σ.phase = .replaying then
      (σ.sub.deliver (σ.decoded json)).map fun (event, sub) =>
        if event.isSome then
          { σ with
            sub := { sub with ended := config.seedEvents ≤ σ.count + 1 }
            count := σ.count + 1 }
        else { σ with sub := sub }
    else none
  | .fail =>
    if σ.phase = .replaying then some { σ with sub := { σ.sub with ended := true } } else none

/-- A bench that finds the streams as they are. -/
def start (cold hot : View) : State where
  cold := cold
  hot := hot
  seq := 0
  phase := .metadata
  coldEvents := []
  hotEvents := []
  lastRead := []
  sub := .start
  count := 0

end State

/-- Nothing limits the cold stream. What has been scavenged before the window is set belongs to
what the bench finds. -/
def system (cold hot : View) : System State Step where
  init σ := σ = .start cold hot
  next := State.next config json missing streamPrefix

end Code

/-! ### What has been written -/

/-- The type and the number of an event. -/
abbrev Label := String × Option UInt64

/-- The events of the seed. -/
def seedLabels (n : ℕ) : List Label :=
  (List.range n).map fun i => ("BenchmarkEvent", some (.ofNat (i + 1)))

/-- The writes of section B. -/
def hotLabels (config : Config) (n : ℕ) : List Label :=
  (List.range n).map fun i => ("HotWriteEvent", some (.ofNat (config.seedEvents + i)))

def label (json : Codec Events.BenchmarkEvent Json) (e : RecordedEvent) : Label :=
  (e.eventType, (json.decode e.data).map (·.seq))

def readLabel (json : Codec Events.BenchmarkEvent Json) (e : ReadEvent) : Label :=
  (e.1, (json.decode e.2.2).map (·.seq))

namespace Phase

variable (config : Config)

/-- The seed events on the cold stream. -/
def coldCount : Phase → ℕ
  | metadata => 0
  | seeding offset => offset
  | seedingHot offset => offset + config.batchLen offset
  | _ => config.seedEvents

/-- The seed events on the hot stream. -/
def hotCount : Phase → ℕ
  | metadata => 0
  | seeding offset => offset
  | seedingHot offset => offset
  | _ => config.seedEvents

/-- The writes of section B so far. -/
def hotWrites : Phase → ℕ
  | writing i => i
  | readingBack i => i + 1
  | replaying => 100
  | replayed => 100
  | _ => 0

/-- What the loops keep of their counters. -/
def Bounded : Phase → Prop
  | seeding offset => offset ≤ config.seedEvents
  | seedingHot offset => offset < config.seedEvents
  | writing i => i < 100
  | readingBack i => i < 100
  | _ => True

/-- The cold stream has been read. -/
def ColdRead : Phase → Prop
  | readingHot | rereading _ | writing _ | readingBack _ | replaying | replayed => True
  | _ => False

/-- Section A is over. -/
def SectionA : Phase → Prop
  | rereading _ | writing _ | readingBack _ | replaying | replayed => True
  | _ => False

/-- A write of section B has been read back. -/
def ReadBack : Phase → Prop
  | writing i => 0 < i
  | replaying | replayed => True
  | _ => False

end Phase

variable {config : Config} {json : Codec Events.BenchmarkEvent Json} {missing : Stream.Missing}
  {streamPrefix : String} {σ σ' : State}

lemma map_readLabel_reads (view : View) :
    view.reads.map (readLabel json) = view.visible.map (label json) := by
  rw [View.reads, List.map_map]
  rfl

lemma map_label_append (view : View) (eventType : String) (data : List Json) :
    (view.append eventType data).stream.events.map (label json)
      = view.stream.events.map (label json)
        ++ data.map fun d => (eventType, (json.decode d).map (·.seq)) := by
  show (view.stream.append _).events.map _ = _
  rw [Stream.append, List.map_append]
  congr 1
  apply List.ext_getElem <;> simp [Stream.record, label]

lemma seedLabels_add (m n : ℕ) : seedLabels (m + n) = seedLabels m
    ++ (List.range n).map fun i => ("BenchmarkEvent", some (.ofNat (m + i + 1))) := by
  rw [seedLabels, List.range_add, List.map_append, List.map_map]
  rfl

lemma hotLabels_succ (n : ℕ) : hotLabels config (n + 1)
    = hotLabels config n ++ [("HotWriteEvent", some (.ofNat (config.seedEvents + n)))] := by
  rw [hotLabels, List.range_succ, List.map_append]
  rfl

lemma length_seedLabels (n : ℕ) : (seedLabels n).length = n := by simp [seedLabels]

/-- What is read of the data of a batch. -/
lemma batch_labels {seq n : ℕ} {now : ℕ → DateTime} {data : List Json}
    (h : batch json seq n now = some data) (eventType : String) :
    data.map (fun d => (eventType, (json.decode d).map (·.seq)))
      = (List.range n).map fun i => (eventType, some (.ofNat (seq + i + 1))) := by
  have hcollect : collect (((List.range n).map fun i =>
      Events.BenchmarkEvent.new (.ofNat (seq + i + 1)) 0 (now i)).map json.encode) = some data := by
    rw [List.map_map]
    exact h
  have hlabels := congrArg (List.map fun d : Decoded => (eventType, d.map (·.seq)))
    (Codec.decode_of_collect hcollect)
  rw [List.map_map, List.map_map, List.map_map] at hlabels
  exact hlabels

/-! ### The requests -/

/-- What a request does that does not end the bench. -/
inductive Advance (config : Config) (json : Codec Events.BenchmarkEvent Json) (σ : State) :
    State → Prop where
  | metadata (hphase : σ.phase = .metadata) : Advance config json σ
      { σ with hot := { σ.hot with maxCount := some config.hotWindow }, phase := .seeding 0 }
  | cold {offset : ℕ} {now : ℕ → DateTime} {data : List Json} (hphase : σ.phase = .seeding offset)
      (hlt : offset < config.seedEvents)
      (hdata : batch json σ.seq (config.batchLen offset) now = some data) :
      Advance config json σ
        { σ with
          cold := σ.cold.append "BenchmarkEvent" data
          seq := σ.seq + config.batchLen offset
          phase := .seedingHot offset }
  | seeded {offset : ℕ} (hphase : σ.phase = .seeding offset) (hge : config.seedEvents ≤ offset) :
      Advance config json σ { σ with phase := .readingCold }
  | hot {offset : ℕ} {now : ℕ → DateTime} {data : List Json}
      (hphase : σ.phase = .seedingHot offset)
      (hdata : batch json (σ.seq - config.batchLen offset) (config.batchLen offset) now
        = some data) :
      Advance config json σ
        { σ with
          hot := σ.hot.append "BenchmarkEvent" data
          phase := .seeding (offset + config.batchLen offset) }
  | readCold (hphase : σ.phase = .readingCold) :
      Advance config json σ { σ with coldEvents := σ.cold.reads, phase := .readingHot }
  | readHot (hphase : σ.phase = .readingHot) :
      Advance config json σ { σ with hotEvents := σ.hot.reads, phase := .rereading 999 }
  | reread {left : ℕ} (hphase : σ.phase = .rereading (left + 1)) :
      Advance config json σ { σ with lastRead := σ.hot.reads, phase := .rereading left }
  | lastReread (hphase : σ.phase = .rereading 0) :
      Advance config json σ { σ with lastRead := σ.hot.reads, phase := .writing 0 }
  | write {i : ℕ} {now : ℕ → DateTime} {d : Json} (hphase : σ.phase = .writing i)
      (hdata : json.encode (.new (.ofNat (config.seedEvents + i)) 0 (now 0)) = some d) :
      Advance config json σ
        { σ with hot := σ.hot.append "HotWriteEvent" [d], phase := .readingBack i }
  | readBack {i : ℕ} (hphase : σ.phase = .readingBack i) (hlt : i + 1 < 100) :
      Advance config json σ { σ with lastRead := σ.hot.reads, phase := .writing (i + 1) }
  | spawn {i : ℕ} (hphase : σ.phase = .readingBack i) (hge : 100 ≤ i + 1) :
      Advance config json σ
        { σ with
          lastRead := σ.hot.reads
          phase := .replaying
          sub := ⟨σ.cold.start, false⟩
          count := 0 }
  | replayed (hphase : σ.phase = .replaying) (hcount : config.seedEvents ≤ σ.count) :
      Advance config json σ { σ with phase := .replayed }

lemma writeHot_cases {eventType : String} {data : Option (List Json)} {outcome : Outcome}
    {phase : Phase} : (σ.writeHot eventType data outcome phase).phase = .failed ∨
      ∃ d, data = some d ∧ σ.writeHot eventType data outcome phase
        = { σ with hot := σ.hot.append eventType d, phase := phase } := by
  cases data with
  | none => exact .inl rfl
  | some d =>
    cases outcome with
    | done => exact .inr ⟨d, rfl, rfl⟩
    | rejected => exact .inl rfl
    | unacknowledged => exact .inl rfl

lemma read_cases {view : View} {streamName : String} {outcome : Outcome}
    {next : List ReadEvent → State} :
    (σ.read missing view streamName outcome next).phase = .failed ∨
      σ.read missing view streamName outcome next = next view.reads := by
  unfold State.read
  split
  · rename_i events hread
    exact .inr (congrArg next (View.readStreamEvents_ok hread))
  · exact .inl rfl

/-- A request ends the bench or is one of these. -/
lemma request_cases {now : ℕ → DateTime} {outcome : Outcome}
    (hs : σ.request config json missing streamPrefix now outcome = some σ') :
    σ'.phase = .failed ∨ Advance config json σ σ' := by
  unfold State.request at hs
  cases hphase : σ.phase with
  | metadata =>
    simp only [hphase] at hs
    obtain rfl := Option.some.inj hs
    cases outcome with
    | done => exact .inr (.metadata hphase)
    | rejected => exact .inl rfl
    | unacknowledged => exact .inl rfl
  | seeding offset =>
    simp only [hphase] at hs
    split_ifs at hs with hlt
    · split at hs
      · obtain rfl := Option.some.inj hs
        exact .inl rfl
      · rename_i data hdata
        obtain rfl := Option.some.inj hs
        cases outcome with
        | done => exact .inr (.cold hphase hlt hdata)
        | rejected => exact .inl rfl
        | unacknowledged => exact .inl rfl
    · obtain rfl := Option.some.inj hs
      exact .inr (.seeded hphase (not_lt.mp hlt))
  | seedingHot offset =>
    simp only [hphase] at hs
    obtain rfl := Option.some.inj hs
    rcases writeHot_cases (σ := σ) with hfailed | ⟨data, hdata, heq⟩
    · exact .inl hfailed
    · rw [heq]
      exact .inr (.hot hphase hdata)
  | readingCold =>
    simp only [hphase] at hs
    obtain rfl := Option.some.inj hs
    rcases read_cases (σ := σ) with hfailed | heq
    · exact .inl hfailed
    · rw [heq]
      exact .inr (.readCold hphase)
  | readingHot =>
    simp only [hphase] at hs
    obtain rfl := Option.some.inj hs
    rcases read_cases (σ := σ) with hfailed | heq
    · exact .inl hfailed
    · rw [heq]
      exact .inr (.readHot hphase)
  | rereading left =>
    simp only [hphase] at hs
    obtain rfl := Option.some.inj hs
    rcases read_cases (σ := σ) with hfailed | heq
    · exact .inl hfailed
    · rw [heq]
      cases left with
      | zero => exact .inr (.lastReread hphase)
      | succ left => exact .inr (.reread hphase)
  | writing i =>
    simp only [hphase] at hs
    obtain rfl := Option.some.inj hs
    rcases writeHot_cases (σ := σ) with hfailed | ⟨data, hdata, heq⟩
    · exact .inl hfailed
    · rw [heq]
      obtain ⟨d, hd, rfl⟩ := Option.map_eq_some_iff.mp hdata
      exact .inr (.write hphase hd)
  | readingBack i =>
    simp only [hphase] at hs
    obtain rfl := Option.some.inj hs
    rcases read_cases (σ := σ) with hfailed | heq
    · exact .inl hfailed
    · rw [heq]
      split_ifs with hlt
      · exact .inr (.readBack hphase hlt)
      · exact .inr (.spawn hphase (not_lt.mp hlt))
  | replaying =>
    simp only [hphase] at hs
    split_ifs at hs with hcount hended
    · obtain rfl := Option.some.inj hs
      exact .inr (.replayed hphase hcount)
    · obtain rfl := Option.some.inj hs
      exact .inl rfl
  | replayed => simp [hphase] at hs
  | failed => simp [hphase] at hs

end EventSourcing.KurrentDB.HotCold
