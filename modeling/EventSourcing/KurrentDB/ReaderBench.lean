import EventSourcing.Bench.Statement
import EventSourcing.Concurrency.Observer
import EventSourcing.Events
import Mathlib.Algebra.BigOperators.Group.List.Basic

/-!
# The benches that read a stream of KurrentDB

`projection_bench` and `search_bench` write to a stream and follow it by a catch-up subscription
from its start. The main task seeds the stream, starts the reader and waits; then it writes one
live event at a time and waits after each. It waits for a number only: the progress that the
reader reports. Numbers of events are natural numbers; no stream has `2 ^ 64` events.
-/

namespace EventSourcing

/-- `BenchmarkEvent::new` -/
def Events.BenchmarkEvent.new (seq taskId : UInt64) (now : DateTime) : Events.BenchmarkEvent where
  seq := seq
  taskId := taskId
  payload := List.replicate 256 0xAB
  createdAt := now

namespace KurrentDB

open Bench Concurrency

/-- What `serde_json::from_slice::<BenchmarkEvent>` reads of an event of the stream. -/
abbrev Decoded := Option Events.BenchmarkEvent

/-- The arguments of a bench. -/
structure ReaderArgs where
  seedEvents : ℕ
  liveEvents : ℕ

/-- The batches of the seed phase. -/
def ReaderArgs.batches (args : ReaderArgs) (batchSize : ℕ) : List ℕ :=
  let remainder := args.seedEvents % batchSize
  List.replicate (args.seedEvents / batchSize) batchSize ++
    if 0 < remainder then [remainder] else []

/-! ### The subscription -/

/-- A catch-up subscription from the start of the stream. -/
structure Subscription where
  /-- the place of the event it delivers next -/
  next : ℕ
  /-- it has ended with an error -/
  ended : Bool
  deriving DecidableEq

def Subscription.start : Subscription := ⟨0, false⟩

/-- The next event, if there is one. -/
def Subscription.deliver (stream : List Decoded) (sub : Subscription) :
    Option (Decoded × Subscription) :=
  if sub.ended then none
  else stream[sub.next]?.map fun e => (e, { sub with next := sub.next + 1 })

lemma Subscription.deliver_eq_some {stream : List Decoded} {sub sub' : Subscription} {e : Decoded}
    (h : sub.deliver stream = some (e, sub')) :
    stream[sub.next]? = some e ∧ sub'.next = sub.next + 1 ∧ sub'.next ≤ stream.length ∧
      stream.take sub'.next = stream.take sub.next ++ [e] := by
  simp only [Subscription.deliver] at h
  split_ifs at h
  obtain ⟨e', he', heq⟩ := Option.map_eq_some_iff.mp h
  cases heq
  refine ⟨he', rfl, (List.getElem?_eq_some_iff.mp he').1, ?_⟩
  show stream.take (sub.next + 1) = _
  rw [List.take_add_one, he']
  rfl

/-! ### The main task -/

inductive Phase where
  /-- the batches that are still to be appended -/
  | seeding (batches : List ℕ)
  /-- waits for the progress `expected`; `live` events are still to be written after that -/
  | waiting (expected live : ℕ)
  /-- about to write a live event -/
  | writing (expected live : ℕ)
  | done
  | failed
  deriving DecidableEq

/-- The reader has been spawned and not been aborted. -/
def Phase.Reading : Phase → Prop
  | waiting _ _ => True
  | writing _ _ => True
  | _ => False

instance : (phase : Phase) → Decidable phase.Reading
  | .waiting _ _ => isTrue trivial
  | .writing _ _ => isTrue trivial
  | .seeding _ => isFalse id
  | .done => isFalse id
  | .failed => isFalse id

/-- A bench with a reader in `T`. -/
structure ReaderBench (T : Type) where
  stream : List Decoded
  globalSeq : ℕ
  phase : Phase
  reader : T
  /-- history: the places of the events that the wait is about -/
  awaited : List ℕ

inductive MainStep where
  /-- the next append, with the instants of its events -/
  | append (now : ℕ → DateTime) (outcome : Outcome)
  /-- the reader is started -/
  | spawn
  /-- the wait ends -/
  | pass

namespace ReaderBench

variable {T B : Type} (σ : ReaderBench T)

/-- The next `n` events. -/
def events (n : ℕ) (now : ℕ → DateTime) : List Events.BenchmarkEvent :=
  (List.range n).map fun i => .new (.ofNat (σ.globalSeq + i + 1)) 0 (now i)

/-- `append_to_stream` with the next `n` events; an error ends the bench. -/
def append (n : ℕ) (now : ℕ → DateTime) (outcome : Outcome) (phase : Phase) : ReaderBench T :=
  let (appended, stream) :=
    outcome.run (some (σ.stream ++ (σ.events n now).map some)) σ.stream
  { σ with
    stream := stream
    globalSeq := σ.globalSeq + n
    phase := if appended then phase else .failed
    awaited := σ.awaited ++ List.range' σ.stream.length n }

/-- The main task; `progress` is what the reader has sent last. -/
def mainNext (args : ReaderArgs) (progress : T → ℕ) : MainStep → Option (ReaderBench T)
  | .append now outcome =>
    match σ.phase with
    | .seeding (n :: batches) => some (σ.append n now outcome (.seeding batches))
    | .writing expected live =>
      some ({ σ with awaited := [] }.append 1 now outcome (.waiting (expected + 1) live))
    | _ => none
  | .spawn =>
    match σ.phase with
    | .seeding [] => some { σ with phase := .waiting args.seedEvents args.liveEvents }
    | _ => none
  | .pass =>
    match σ.phase with
    | .waiting expected live =>
      if expected ≤ progress σ.reader then
        match live with
        | 0 => some { σ with phase := .done }
        | live + 1 => some { σ with phase := .writing expected live }
      else none
    | _ => none

/-- A bench on a stream that holds `old`. -/
def start (args : ReaderArgs) (batchSize : ℕ) (reader : T) (old : List Decoded) :
    ReaderBench T where
  stream := old
  globalSeq := 0
  phase := .seeding (args.batches batchSize)
  reader := reader
  awaited := []

end ReaderBench

/-- A bench and its reader, interleaved. -/
def readerRun {T B : Type} (args : ReaderArgs) (batchSize : ℕ)
    (reader : Observer (List Decoded) T B) (progress : T → ℕ) (old : List Decoded) :
    System (ReaderBench T) (MainStep ⊕ B) where
  init σ := reader.init σ.reader ∧ σ = .start args batchSize σ.reader old
  next σ
    | .inl a => σ.mainNext args progress a
    | .inr b =>
      if σ.phase.Reading then
        (reader.next σ.stream σ.reader b).map fun reader => { σ with reader := reader }
      else none

/-! ### What the main task has written -/

namespace ReaderBench

variable {T B : Type} {args : ReaderArgs} {batchSize : ℕ} {reader : Observer (List Decoded) T B}
  {progress : T → ℕ} {old : List Decoded} {σ σ' : ReaderBench T}

/-- The phases that the bench can be in after so many events of its own. -/
def PhaseAt (args : ReaderArgs) (written : ℕ) : Phase → Prop
  | .seeding batches => written + batches.sum = args.seedEvents
  | .waiting expected live => expected = written ∧ args.seedEvents ≤ written ∧
      written + live = args.seedEvents + args.liveEvents
  | .writing expected live => expected = written ∧ args.seedEvents ≤ written ∧
      written + live + 1 = args.seedEvents + args.liveEvents
  | .done => True
  | .failed => True

/-- The events of the bench follow the old ones, and the waits are about them. -/
structure Inv (args : ReaderArgs) (old : List Decoded) (σ : ReaderBench T) : Prop where
  stream : ∃ written : List Events.BenchmarkEvent, σ.stream = old ++ written.map some ∧
    PhaseAt args written.length σ.phase
  awaited : σ.phase ≠ .failed → ∀ i ∈ σ.awaited, old.length ≤ i ∧ i < σ.stream.length

@[simp] lemma length_events (n : ℕ) (now : ℕ → DateTime) : (σ.events n now).length = n := by
  simp [events]

/-- The batches of the seed phase are its events. -/
lemma sum_batches : (args.batches batchSize).sum = args.seedEvents := by
  have hdiv := Nat.div_add_mod' args.seedEvents batchSize
  rw [ReaderArgs.batches, List.sum_append, List.sum_replicate_nat]
  split_ifs with hremainder
  · simpa using hdiv
  · simp only [List.sum_nil]
    omega

lemma append_phase {n : ℕ} {now : ℕ → DateTime} {outcome : Outcome} {phase : Phase} :
    (σ.append n now outcome phase).phase = if outcome = .done then phase else .failed := by
  cases outcome <;> rfl

lemma append_stream {n : ℕ} {now : ℕ → DateTime} {outcome : Outcome} {phase : Phase} :
    (σ.append n now outcome phase).stream = σ.stream ++
      if outcome = .rejected then [] else (σ.events n now).map some := by
  cases outcome
  case rejected => exact (List.append_nil _).symm
  all_goals rfl

/-- An append keeps the invariant if the phase after it fits. -/
lemma Inv.append (h : σ.Inv args old) {n : ℕ} {now : ℕ → DateTime} {outcome : Outcome}
    {phase : Phase} (hphase : ∀ written, PhaseAt args written σ.phase →
      PhaseAt args (written + n) phase) (hrunning : σ.phase ≠ .failed) :
    (σ.append n now outcome phase).Inv args old := by
  obtain ⟨written, hstream, hat⟩ := h.stream
  have hwritten : (σ.append n now outcome phase).stream = old ++ (written ++
      if outcome = .rejected then [] else σ.events n now).map some := by
    rw [append_stream, hstream]
    split_ifs <;> simp
  refine ⟨⟨_, hwritten, ?_⟩, ?_⟩
  · rw [append_phase]
    by_cases hdone : outcome = .done
    · subst hdone
      rw [if_pos rfl, if_neg (by decide), List.length_append, length_events]
      exact hphase _ hat
    · rw [if_neg hdone]
      trivial
  · intro hne i hi
    rw [append_phase] at hne
    split_ifs at hne with hdone
    · subst hdone
      have hle : old.length ≤ σ.stream.length := by simp [hstream]
      rw [append_stream, if_neg (by decide), List.length_append, List.length_map, length_events]
      rcases List.mem_append.mp hi with hi | hi
      · obtain ⟨hold, hlt⟩ := h.awaited hrunning i hi
        exact ⟨hold, by omega⟩
      · rw [List.mem_range'_1] at hi
        omega
    · exact absurd rfl hne

lemma Inv.main {a : MainStep} (h : σ.Inv args old)
    (hs : σ.mainNext args progress a = some σ') : σ'.Inv args old := by
  obtain ⟨written, hstream, hat⟩ := h.stream
  cases a with
  | append now outcome =>
    simp only [mainNext] at hs
    split at hs
    · rename_i n batches hphase
      obtain rfl := Option.some.inj hs
      refine h.append ?_ (by simp [hphase])
      intro written hat
      simp only [hphase, PhaseAt, List.sum_cons] at hat ⊢
      omega
    · rename_i expected live hphase
      obtain rfl := Option.some.inj hs
      have hempty : Inv args old { σ with awaited := [] } :=
        ⟨⟨written, hstream, hat⟩, fun _ i hi => absurd hi List.not_mem_nil⟩
      refine hempty.append ?_ (by simp [hphase])
      intro written hat
      simp only [hphase, PhaseAt] at hat ⊢
      omega
    · cases hs
  | spawn =>
    simp only [mainNext] at hs
    split at hs
    · rename_i hphase
      obtain rfl := Option.some.inj hs
      simp only [hphase, PhaseAt, List.sum_nil, Nat.add_zero] at hat
      refine ⟨⟨written, hstream, ?_⟩, fun _ => h.awaited (by simp [hphase])⟩
      simp [PhaseAt, hat]
    · cases hs
  | pass =>
    simp only [mainNext] at hs
    split at hs
    · rename_i expected live hphase
      rw [hphase] at hat
      have hawaited := h.awaited (by simp [hphase])
      split_ifs at hs
      split at hs
      · obtain rfl := Option.some.inj hs
        exact ⟨⟨written, hstream, trivial⟩, fun _ => hawaited⟩
      · obtain rfl := Option.some.inj hs
        refine ⟨⟨written, hstream, ?_⟩, fun _ => hawaited⟩
        simp only [PhaseAt] at hat ⊢
        omega
    · cases hs

/-- A step of the reader leaves the main task as it is. -/
lemma readerRun_inr {b : B}
    (hs : (readerRun args batchSize reader progress old).next σ (.inr b) = some σ') :
    σ.phase.Reading ∧ ∃ t, reader.next σ.stream σ.reader b = some t ∧
      { σ with reader := t } = σ' := by
  simp only [readerRun] at hs
  split_ifs at hs with hreading
  exact ⟨hreading, Option.map_eq_some_iff.mp hs⟩

lemma inv_of_reachable (h : (readerRun args batchSize reader progress old).Reachable σ) :
    σ.Inv args old := by
  refine System.ReachBy.invariant (P := Inv args old) ?_ ?_ h
  · rintro σ ⟨-, hstart⟩
    rw [hstart]
    refine ⟨⟨[], (List.append_nil _).symm, ?_⟩, fun _ i hi => absurd hi List.not_mem_nil⟩
    simpa [PhaseAt, start] using sum_batches
  · intro σ a σ' _ hinv _ hs
    cases a with
    | inl a => exact hinv.main hs
    | inr b =>
      obtain ⟨-, t, -, rfl⟩ := readerRun_inr hs
      exact ⟨hinv.stream, hinv.awaited⟩

/-- While the reader is at work, all that a bench without live events has written is the seed. -/
lemma written_of_no_live {written : ℕ} {phase : Phase} (h : PhaseAt args written phase)
    (hreading : phase.Reading) (hlive : args.liveEvents = 0) : written = args.seedEvents := by
  cases phase with
  | waiting expected live =>
    obtain ⟨-, hseed, htotal⟩ := h
    omega
  | writing expected live =>
    obtain ⟨-, hseed, htotal⟩ := h
    omega
  | _ => exact hreading.elim

/-! ### What the reader knows -/

/-- The main task only adds to the stream. -/
lemma stream_main {a : MainStep} (hs : σ.mainNext args progress a = some σ') :
    σ'.reader = σ.reader ∧ ∃ more, σ'.stream = σ.stream ++ more := by
  cases a with
  | append now outcome =>
    simp only [mainNext] at hs
    split at hs
    · obtain rfl := Option.some.inj hs
      exact ⟨rfl, _, append_stream⟩
    · obtain rfl := Option.some.inj hs
      exact ⟨rfl, _, append_stream⟩
    · cases hs
  | spawn =>
    simp only [mainNext] at hs
    split at hs
    · obtain rfl := Option.some.inj hs
      exact ⟨rfl, [], (List.append_nil _).symm⟩
    · cases hs
  | pass =>
    simp only [mainNext] at hs
    split at hs
    · split_ifs at hs
      split at hs <;> obtain rfl := Option.some.inj hs <;>
        exact ⟨rfl, [], (List.append_nil _).symm⟩
    · cases hs

/-- What the reader knows of the stream, from its own steps. -/
theorem reader_invariant {C : ReaderBench T → MainStep ⊕ B → Prop} {P : List Decoded → T → Prop}
    (hinit : ∀ t, reader.init t → P old t)
    (happend : ∀ stream more t, P stream t → P (stream ++ more) t)
    (hreader : ∀ σ b t, P σ.stream σ.reader → C σ (.inr b) →
      reader.next σ.stream σ.reader b = some t → P σ.stream t)
    (h : (readerRun args batchSize reader progress old).ReachBy C σ) : P σ.stream σ.reader := by
  refine System.ReachBy.invariant (P := fun σ => P σ.stream σ.reader) ?_ ?_ h
  · rintro σ ⟨hreader, hstart⟩
    rw [hstart]
    exact hinit _ hreader
  · intro σ a σ' _ hP hC hs
    cases a with
    | inl a =>
      obtain ⟨hreader, more, hstream⟩ := stream_main hs
      rw [hreader, hstream]
      exact happend _ _ _ hP
    | inr b =>
      obtain ⟨-, t, ht, rfl⟩ := readerRun_inr hs
      exact hreader σ b t hP hC ht

/-- How many `BenchmarkEvent`s the stream holds. -/
lemma countP_stream {written : List Events.BenchmarkEvent} :
    (old ++ written.map some).countP (·.isSome) = old.countP (·.isSome) + written.length := by
  have hall : written.countP ((·.isSome) ∘ some) = written.length :=
    List.countP_eq_length.mpr fun _ _ => rfl
  rw [List.countP_append, List.countP_map, hall]

/-! ### Appends that succeed -/

section Succeed

variable {C : ReaderBench T → MainStep ⊕ B → Prop} (hC : ∀ σ a, C σ (.inl a))

include hC

/-- The appends of the seed phase lead to the first wait. -/
lemma seeded (h : (readerRun args batchSize reader progress old).ReachBy C σ)
    (now : ℕ → DateTime) {batches : List ℕ} (hphase : σ.phase = .seeding batches) :
    ∃ σ', (readerRun args batchSize reader progress old).ReachBy C σ' ∧
      σ'.phase = .waiting args.seedEvents args.liveEvents ∧ σ'.reader = σ.reader ∧
      (∃ written : List Events.BenchmarkEvent, σ'.stream = σ.stream ++ written.map some ∧
        written.length = batches.sum) ∧
      σ'.awaited = σ.awaited ++ List.range' σ.stream.length batches.sum := by
  induction batches generalizing σ with
  | nil =>
    have hspawn : σ.mainNext args progress .spawn
        = some { σ with phase := .waiting args.seedEvents args.liveEvents } := by
      simp [mainNext, hphase]
    exact ⟨_, h.step (hC σ .spawn) hspawn, rfl, rfl, ⟨[], by simp, rfl⟩, by simp⟩
  | cons n batches ih =>
    have happend : σ.mainNext args progress (.append now .done)
        = some (σ.append n now .done (.seeding batches)) := by simp [mainNext, hphase]
    obtain ⟨σ', hreach, hwaiting, hreader, ⟨written, hstream, hlength⟩, hawaited⟩ :=
      ih (h.step (hC σ (.append now .done)) happend) rfl
    rw [append_stream, if_neg (by decide)] at hstream hawaited
    refine ⟨σ', hreach, hwaiting, hreader, ⟨σ.events n now ++ written, ?_, ?_⟩, ?_⟩
    · rw [hstream, List.map_append, List.append_assoc]
    · simp [hlength]
    · rw [hawaited, List.length_append, List.length_map, length_events, List.sum_cons,
        List.range'_append_1.symm, ← List.append_assoc]
      rfl

/-- The end of a wait and the next live event lead to the wait for that event. -/
lemma lived (h : (readerRun args batchSize reader progress old).ReachBy C σ)
    (now : ℕ → DateTime) {expected live : ℕ} (hphase : σ.phase = .waiting expected (live + 1))
    (hprogress : expected ≤ progress σ.reader) :
    ∃ σ', (readerRun args batchSize reader progress old).ReachBy C σ' ∧
      σ'.phase = .waiting (expected + 1) live ∧ σ'.reader = σ.reader ∧
      (∃ event : Events.BenchmarkEvent, σ'.stream = σ.stream ++ [some event]) ∧
      σ'.awaited = [σ.stream.length] := by
  let σ₁ : ReaderBench T := { σ with phase := .writing expected live }
  have hpass : σ.mainNext args progress .pass = some σ₁ := by simp [σ₁, mainNext, hphase, hprogress]
  have happend : σ₁.mainNext args progress (.append now .done) = some
      ({ σ₁ with awaited := [] }.append 1 now .done (.waiting (expected + 1) live)) := rfl
  have hreach := (h.step (hC σ .pass) hpass).step (hC σ₁ (.append now .done)) happend
  refine ⟨_, hreach, rfl, rfl, ⟨.new (.ofNat (σ.globalSeq + 0 + 1)) 0 (now 0), ?_⟩, rfl⟩
  rw [append_stream, if_neg (by decide)]
  rfl

end Succeed

end ReaderBench

end KurrentDB

end EventSourcing
