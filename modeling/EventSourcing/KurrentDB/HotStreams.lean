import EventSourcing.Bench.ConflictErrors
import EventSourcing.Bench.HotStores
import EventSourcing.Bench.Statement
import EventSourcing.KurrentDB.Stream

/-!
# The contention bench on KurrentDB

`hot_stream_contention_bench::run` writes one event to every hot stream and keeps the revision of
the answer, writes a baseline to other streams, and then the events of the contention phase. The
server accepts an append only under the last revision of the stream, and every answer and every
read gives a revision that the stream has; so `hot_revisions` is never ahead of a hot stream,
whatever the streams held before the run and however the writes of its tasks interleave
(`hot_streams_tracked`).
-/

namespace EventSourcing.KurrentDB

open Bench Bench.Contention Bench.ConflictErrors Concurrency Text

/-- The events of all streams, with the names of their streams, in the order of the appends. -/
abbrev Server := List (String × String × Json)

namespace Server

variable (server : Server) (name : String)

/-- The events of a stream. -/
def stream : Stream :=
  Stream.empty.append ((server.filter fun e => e.1 = name).map Prod.snd)

def append (events : List (String × Json)) : Server := server ++ events.map fun e => (name, e)

def appendAt (expectedRevision : UInt64) (events : List (String × Json)) : Option Server :=
  if (server.stream name).lastRevision = some expectedRevision then some (server.append name events)
  else none

end Server

namespace HotStreams

/-- What the server does not decide of a call: the data of its event, and how it ends. -/
structure Call where
  seqNow : UInt64
  data : Json
  outcome : Outcome
  /-- the texts of the client library's error, if there is one, and of its causes -/
  chain : List String
  missing : Stream.Missing

section Code

variable (lowercase : Lowercase) (streamPrefix : String) (config : Config) (server : Server)

def hotName (hotIdx : ℕ) : String := streamPrefix ++ "-hot-" ++ toString hotIdx

def coldName (coldIdx : ℕ) : String := streamPrefix ++ "-cold-" ++ toString coldIdx

def baselineName (i : UInt64) : String := streamPrefix ++ "-baseline-" ++ toString i

def event (c : Call) : String × Json := ("BenchmarkEvent", c.data)

/-- `is_conflict` looks for these in the text of an error. -/
def kurrentPhrases : List String :=
  ["wrongexpectedversion", "wrong expected version", "wrong expected", "expected revision",
    "expected version"]

/-- The append of a hot write, with `StreamState::StreamRevision(expected)`. -/
def appendHot (hotIdx : ℕ) (expected : UInt64) (c : Call) : Server × Attempt × UInt64 :=
  let name := hotName streamPrefix hotIdx
  match c.outcome.run (server.appendAt name expected [event c]) server with
  | (true, server) => (server, .success, (server.stream name).nextExpectedVersion)
  | (false, server) =>
    let text := "append to stream '" ++ name ++ "' failed"
    (server, if isConflict lowercase kurrentPhrases (text :: c.chain) then .conflict
      else .otherError, 0)

/-- `append`: an append to any revision, and whether it returns `Ok`. -/
def appendAny (name : String) (c : Call) : Server × Bool :=
  let (ok, server) := c.outcome.run (some (server.append name [event c])) server
  (server, ok)

def store : HotStore Server Call where
  append server hotIdx expected c := appendHot lowercase streamPrefix server hotIdx expected c
  reread server hotIdx c :=
    let name := hotName streamPrefix hotIdx
    match c.outcome, (server.stream name).readLastEvent c.missing name with
    | .done, .ok last => some (last.map fun current => current.2.1)
    | _, _ => none
  appendCold server coldIdx c := appendAny server (coldName streamPrefix coldIdx) c
  size server := server.length

/-- The first events of the hot streams, and the revisions kept of them; `data` are their
payloads. An append that fails ends the run. -/
def seed (data : ℕ → Json) (server : Server) : ℕ → Server × (ℕ → UInt64)
  | 0 => (server, fun _ => 0)
  | streamId + 1 =>
    let (server, hotRevisions) := seed data server streamId
    let name := hotName streamPrefix streamId
    let server := server.append name [("BenchmarkEvent", data streamId)]
    (server, Function.update hotRevisions streamId (server.stream name).nextExpectedVersion)

/-- `hot_streams` -/
def hotStreams : ℕ := (max config.hotStreams 1).toNat

end Code

/-! ### The baseline -/

structure Baseline where
  server : Server
  totalEvents : ℕ
  /-- history: how many events were stored by writes that did not return `Ok` -/
  lost : ℕ

/-- The write of a task of the baseline. -/
def Baseline.next (streamPrefix : String) (config : Config) (σ : Baseline) (c : Call) :
    Option Baseline :=
  let name := baselineName streamPrefix (c.seqNow % max config.coldStreams 1)
  match appendAny σ.server name c with
  | (server, true) => some { σ with server := server, totalEvents := σ.totalEvents + 1 }
  | (server, false) =>
    some { σ with server := server, lost := σ.lost + (server.length - σ.server.length) }

/-- The writes of the baseline in the order in which the server runs them. -/
def baseline (streamPrefix : String) (config : Config) (seeded : Server) :
    System Baseline Call where
  init σ := σ = ⟨seeded, 0, 0⟩
  next := Baseline.next streamPrefix config

/-! ### How long the streams are -/

section Lengths

variable {server server' : Server} {name name' streamPrefix : String} {stream : Stream}

lemma length_stream_append (events : List (String × Json)) :
    ((server.append name events).stream name').events.length
      = (server.stream name').events.length + if name = name' then events.length else 0 := by
  simp only [Server.stream, Stream.length_append, Server.append, List.filter_append,
    List.map_append, List.length_append]
  by_cases hname : name = name'
  · simp [hname, List.filter_map, Function.comp_def, Nat.add_assoc]
  · simp [hname, List.filter_map, Function.comp_def]

/-- The last revision is the number of the events before the last one. -/
lemma lastRevision_eq : stream.lastRevision
    = if stream.events = [] then none else some stream.nextExpectedVersion := by
  split_ifs with hempty
  · rw [Stream.lastRevision, hempty]
    rfl
  · have hpos : 0 < stream.events.length := List.length_pos_iff.mpr hempty
    have hlast : stream.events.length - 1 < stream.events.length := Nat.sub_lt hpos Nat.one_pos
    rw [Stream.lastRevision, List.getLast?_eq_getElem?, List.getElem?_eq_getElem hlast,
      Option.map_some, Stream.revision_getElem hlast, Stream.nextExpectedVersion]

/-- A read of the last event that succeeds gives the last revision. -/
lemma readLastEvent_ok {missing : Stream.Missing} {last : Option (String × UInt64 × Json)}
    (h : stream.readLastEvent missing name = .ok last) :
    last.map (fun current => current.2.1) = stream.lastRevision := by
  simp only [Stream.readLastEvent, Stream.readWith] at h
  split_ifs at h with hempty
  · have hnone : last = none := by
      split at h
      · split_ifs at h
        · exact (Except.ok.inj h).symm
        · cases h
      · cases h
    rw [hnone, lastRevision_eq, if_pos hempty]
    rfl
  · obtain rfl := Except.ok.inj h
    rw [Stream.lastRevision]
    cases stream.events.getLast? <;> rfl

/-- The revision that an answer gives is one of the stream. -/
lemma nextExpectedVersion_le : stream.nextExpectedVersion.toNat ≤ stream.events.length - 1 := by
  rw [Stream.nextExpectedVersion, UInt64.toNat_ofNat']
  exact Nat.mod_le _ _

/-- The last revision of a hot stream. -/
def bound (streamPrefix : String) (server : Server) (i : ℕ) : ℕ :=
  (server.stream (hotName streamPrefix i)).events.length - 1

/-- Every hot stream has an event. -/
def Seeded (streamPrefix : String) (n : ℕ) (server : Server) : Prop :=
  ∀ i < n, 0 < (server.stream (hotName streamPrefix i)).events.length

lemma bound_le_append (events : List (String × Json)) (j : ℕ) :
    bound streamPrefix server j ≤ bound streamPrefix (server.append name events) j := by
  rw [bound, bound, length_stream_append]
  omega

lemma Seeded.append {n : ℕ} (h : Seeded streamPrefix n server) (events : List (String × Json)) :
    Seeded streamPrefix n (server.append name events) := by
  intro i hi
  rw [length_stream_append]
  exact Nat.add_pos_left (h i hi) _

/-- The revisions kept of the first events are not ahead of the hot streams. -/
lemma seed_spec (streamPrefix : String) (server : Server) (data : ℕ → Json) (n : ℕ) :
    Seeded streamPrefix n (seed streamPrefix data server n).1 ∧
      (∀ i, ((seed streamPrefix data server n).2 i).toNat
        ≤ bound streamPrefix (seed streamPrefix data server n).1 i) ∧
      (seed streamPrefix data server n).1.length = server.length + n := by
  induction n with
  | zero => exact ⟨fun _ hi => absurd hi (Nat.not_lt_zero _), fun _ => Nat.zero_le _, rfl⟩
  | succ n ih =>
    obtain ⟨hseeded, hrevisions, hlength⟩ := ih
    simp only [seed]
    refine ⟨fun i hi => ?_, fun i => ?_, ?_⟩
    · rcases Nat.lt_succ_iff_lt_or_eq.mp hi with hi | rfl
      · exact hseeded.append _ i hi
      · rw [length_stream_append, if_pos rfl]
        exact Nat.succ_pos _
    · rw [Function.update_apply]
      split_ifs with hi
      · rw [hi]
        exact nextExpectedVersion_le
      · exact (hrevisions i).trans (bound_le_append _ i)
    · simp [Server.append, hlength, Nat.add_assoc]

end Lengths

/-! ### The phase on the server -/

section Run

variable {lowercase : Lowercase} {streamPrefix name : String} {config : Config}
  {server server' : Server} {c : Call} {hotIdx : ℕ} {expected answer : UInt64} {outcome : Attempt}
  {ok : Bool}

/-- An attempt of a hot write stores nothing and fails, or it stores the event at the end of the
stream. -/
lemma appendHot_spec
    (h : appendHot lowercase streamPrefix server hotIdx expected c = (server', outcome, answer)) :
    (server' = server ∧ outcome ≠ .success) ∨
      (server' = server.append (hotName streamPrefix hotIdx) [event c] ∧ (outcome = .success →
        answer = (server'.stream (hotName streamPrefix hotIdx)).nextExpectedVersion)) := by
  have hstored {new : Server}
      (hnew : server.appendAt (hotName streamPrefix hotIdx) expected [event c] = some new) :
      new = server.append (hotName streamPrefix hotIdx) [event c] := by
    simp only [Server.appendAt] at hnew
    split_ifs at hnew
    exact (Option.some.inj hnew).symm
  simp only [appendHot] at h
  split at h
  · rename_i new hrun
    obtain ⟨rfl, -, rfl⟩ := by simpa only [Prod.mk.injEq] using h
    exact .inr ⟨hstored (Outcome.run_eq_true.mp hrun).2, fun _ => rfl⟩
  · rename_i new hrun
    obtain ⟨rfl, houtcome, -⟩ := by simpa only [Prod.mk.injEq] using h
    have hfailed : outcome ≠ .success := by
      rw [← houtcome]
      split_ifs <;> simp
    rcases Outcome.run_eq_false.mp hrun with ⟨-, hnew⟩ | ⟨-, rfl⟩
    · exact .inr ⟨hstored hnew, fun hok => absurd hok hfailed⟩
    · exact .inl ⟨rfl, hfailed⟩

lemma appendAny_spec (h : appendAny server name c = (server', ok)) :
    (server' = server ∧ ok = false) ∨ server' = server.append name [event c] := by
  simp only [appendAny] at h
  generalize hrun : c.outcome.run (some (server.append name [event c])) server = ran at h
  obtain ⟨acknowledged, new⟩ := ran
  obtain ⟨rfl, rfl⟩ := Prod.mk.inj h
  cases acknowledged with
  | true => exact .inr (Option.some.inj (Outcome.run_eq_true.mp hrun).2).symm
  | false =>
    rcases Outcome.run_eq_false.mp hrun with ⟨-, hnew⟩ | ⟨-, rfl⟩
    · exact .inr (Option.some.inj hnew).symm
    · exact .inl ⟨rfl, rfl⟩

/-- The server keeps what the tasks count on. -/
theorem laws (lowercase : Lowercase) (streamPrefix : String) (n : ℕ) :
    (store lowercase streamPrefix).Laws kurrentdb (Seeded streamPrefix n) (bound streamPrefix) where
  append_le {d i expected e d' outcome answer} h := by
    rcases appendHot_spec h with ⟨rfl, -⟩ | ⟨rfl, -⟩
    · exact le_refl _
    · simp [store, Server.append]
  appendCold_le {d j e d' ok} h := by
    rcases appendAny_spec h with ⟨rfl, -⟩ | rfl
    · exact le_refl _
    · simp [store, Server.append]
  append {d i expected e d' outcome answer} hinv _ _ h := by
    rcases appendHot_spec h with ⟨rfl, hfailed⟩ | ⟨rfl, hanswer⟩
    · exact ⟨hinv, fun _ => le_refl _, .inl ⟨rfl, hfailed⟩⟩
    · refine ⟨hinv.append _, bound_le_append _, .inr ⟨by simp [store, Server.append], ?_⟩⟩
      intro hok
      rw [hanswer hok]
      exact nextExpectedVersion_le
  reread {d i e revision} _ _ h := by
    have hzero : (0 : UInt64).toNat ≤ bound streamPrefix d i := Nat.zero_le _
    simp only [store] at h
    split at h
    · rename_i last _ hread
      rw [readLastEvent_ok hread, lastRevision_eq] at h
      split_ifs at h
      · obtain rfl := Option.some.inj h
        exact hzero
      · obtain rfl := Option.some.inj h
        exact nextExpectedVersion_le
    · obtain rfl := Option.some.inj h
      exact hzero
  appendCold {d j e d' ok} hinv h := by
    rcases appendAny_spec h with ⟨rfl, hfailed⟩ | rfl
    · exact ⟨hinv, fun _ => le_refl _, .inr ⟨rfl, hfailed⟩⟩
    · exact ⟨hinv.append _, bound_le_append _, .inl (by simp [store, Server.append])⟩

/-- The writes of the baseline take no hot stream back, and the server has the events that were
counted and those of writes that did not return `Ok`. -/
lemma baseline_sound {n : ℕ} {σ : Baseline} (hseeded : Seeded streamPrefix n server)
    (h : (baseline streamPrefix config server).Reachable σ) :
    Seeded streamPrefix n σ.server ∧
      (∀ i, bound streamPrefix server i ≤ bound streamPrefix σ.server i) ∧
      σ.server.length = server.length + σ.totalEvents + σ.lost := by
  refine System.ReachBy.invariant (P := fun σ : Baseline => Seeded streamPrefix n σ.server ∧
    (∀ i, bound streamPrefix server i ≤ bound streamPrefix σ.server i) ∧
    σ.server.length = server.length + σ.totalEvents + σ.lost) ?_ ?_ h
  · rintro σ rfl
    exact ⟨hseeded, fun _ => le_refl _, rfl⟩
  · rintro σ c σ' - ⟨hseeded, hbound, hlength⟩ - hs
    simp only [baseline, Baseline.next] at hs
    split at hs
    · rename_i new hcall
      obtain rfl := Option.some.inj hs
      rcases appendAny_spec hcall with ⟨-, hfailed⟩ | rfl
      · cases hfailed
      · refine ⟨hseeded.append _, fun i => (hbound i).trans (bound_le_append _ i), ?_⟩
        simp only [Server.append, List.length_append, List.length_map, List.length_singleton]
        omega
    · rename_i new hcall
      obtain rfl := Option.some.inj hs
      rcases appendAny_spec hcall with ⟨rfl, -⟩ | rfl
      · refine ⟨hseeded, hbound, ?_⟩
        simp only [Nat.sub_self, Nat.add_zero]
        exact hlength
      · refine ⟨hseeded.append _, fun i => (hbound i).trans (bound_le_append _ i), ?_⟩
        simp only [Server.append, List.length_append, List.length_map, List.length_singleton]
        omega

/-- In every state of the bench, whatever the streams held before it: `hot_revisions` has a
revision of an event of each hot stream, and when all tasks have ended the server has gained the
first events of the hot streams, the events that the two phases have counted and those of writes
that did not return `Ok`. -/
theorem hot_streams_tracked {data : ℕ → Json} {β : Baseline} {σ : Stored Server}
    (hbaseline : (baseline streamPrefix config
      (seed streamPrefix data server (hotStreams config)).1).Reachable β)
    (h : (contentionOn (store lowercase streamPrefix) kurrentdb config β.server
      (seed streamPrefix data server (hotStreams config)).2).Reachable σ)
    (hsmall : σ.data.length < 2 ^ 63) :
    (∀ i < hotStreams config, (σ.bench.hotRevisions i).toNat
      < (σ.data.stream (hotName streamPrefix i)).events.length) ∧
    ((∀ t ∈ σ.bench.permits.tasks, t.running = false) →
      σ.data.length = server.length + hotStreams config + (β.totalEvents + β.lost)
        + σ.bench.counters .totalEvents + σ.lost) := by
  obtain ⟨hseeded, hrevisions, hlength⟩ :=
    seed_spec streamPrefix server data (hotStreams config)
  obtain ⟨hseeded, hbound, hcount⟩ := baseline_sound hseeded hbaseline
  have hlaws := laws lowercase streamPrefix (hotStreams config)
  have hstart : ∀ i, ((seed streamPrefix data server (hotStreams config)).2 i).toNat
      ≤ bound streamPrefix β.server i := fun i => (hrevisions i).trans (hbound i)
  have hsound := hlaws.sound hseeded hstart h hsmall
  refine ⟨fun i hi => ?_, fun hended => ?_⟩
  · have hle := hsound.behind.revisions i
    have hpos := hsound.inv i hi
    rw [bound] at hle
    omega
  · have hstored : σ.data.length = β.server.length + _ + _ :=
      stored_eq hlaws hseeded hstart h hsmall hended
    omega

end Run

/-! ### Two tasks on a stream -/

def benchConfig : Config := ⟨2, 1, 1, 2⟩

def callOf (seqNow : UInt64) : Call := ⟨seqNow, .null, .done, [], .atOpening "not found"⟩

def seeded : Server × (ℕ → UInt64) := seed "bench" (fun _ => .null) [] 1

def baselineEnd : Baseline :=
  (baseline "bench" benchConfig seeded.1).after [callOf 0] ⟨seeded.1, 0, 0⟩

def phaseStart : Stored Server :=
  ⟨{ start benchConfig with hotRevisions := seeded.2 }, baselineEnd.server, 0⟩

/-- Both tasks load revision `0`; the second one writes under it, the first one retries. -/
def conflictRun : List (StoreAction Call) :=
  [.bench .tick, .bench .tick, .bench (.step 0 (.pick true 0 0)), .bench (.add 0),
    .bench (.step 1 (.pick true 0 0)), .bench (.add 1), .bench (.step 0 .load),
    .bench (.step 1 .load), .append 1 (callOf 1),
    .append 0 ⟨0, .null, .done, ["WrongExpectedVersion"], .atOpening "not found"⟩,
    .bench (.add 0), .bench (.add 0), .reread 0 (callOf 0), .bench (.step 0 .store),
    .bench (.step 0 .load), .append 0 (callOf 0)]

theorem hot_streams_tracked_conflict :
    let σ := (contentionOn (store default "bench") kurrentdb benchConfig baselineEnd.server
      seeded.2).after conflictRun phaseStart
    σ.data.length = 4 ∧ ∀ i < hotStreams benchConfig,
      (σ.bench.hotRevisions i).toNat < (σ.data.stream (hotName "bench" i)).events.length := by
  have hbaseline := (baseline "bench" benchConfig seeded.1).reachable_after [callOf 0]
    (s := ⟨seeded.1, 0, 0⟩) rfl (by decide)
  have hphase := (contentionOn (store default "bench") kurrentdb benchConfig baselineEnd.server
    seeded.2).reachable_after conflictRun (s := phaseStart) ⟨⟨fun _ => rfl, rfl⟩, rfl, rfl, rfl⟩
    (by decide)
  have htracked := hot_streams_tracked hbaseline hphase (by decide)
  exact ⟨by decide, htracked.1⟩

end HotStreams

end EventSourcing.KurrentDB
