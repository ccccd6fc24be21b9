import EventSourcing.Bench.Consumers
import EventSourcing.KurrentDB.ReaderBench

/-!
# The projector of KurrentDB

The projector of `projection_bench::run_kurrentdb` counts every `BenchmarkEvent` it is given,
those that the stream held before the run among them. The main task takes the count for its own
events, so on a stream with old `BenchmarkEvent`s a wait ends before its events have been pushed
to the view.
-/

namespace EventSourcing.KurrentDB

open Bench Concurrency

structure Projector where
  sub : Subscription
  view : List UInt64
  /-- also the progress it has sent -/
  processed : ℕ
  /-- history: the places of the events pushed to the view -/
  pushed : List ℕ

inductive ProjectorStep where
  | deliver
  /-- the subscription ends with an error -/
  | fail
  deriving DecidableEq

namespace Projector

def initial : Projector where
  sub := .start
  view := []
  processed := 0
  pushed := []

def push (viewSize : ℕ) (event : Events.BenchmarkEvent) (t : Projector) : Projector :=
  { t with
    view := pushToView t.view event.seq viewSize
    processed := t.processed + 1
    pushed := t.pushed ++ [t.sub.next] }

def next (viewSize : ℕ) (stream : List Decoded) (t : Projector) :
    ProjectorStep → Option Projector
  | .deliver => (t.sub.deliver stream).map fun (event, sub) =>
      { event.elim t (push viewSize · t) with sub := sub }
  | .fail => some { t with sub := { t.sub with ended := true } }

end Projector

def projector (viewSize : ℕ) : Observer (List Decoded) Projector ProjectorStep where
  init t := t = .initial
  next := Projector.next viewSize

/-- The runs of `projection_bench::run_kurrentdb` on a stream that holds `old`. -/
abbrev projectionRun (args : ReaderArgs) (viewSize : ℕ) (old : List Decoded) :
    System (ReaderBench Projector) (MainStep ⊕ ProjectorStep) :=
  readerRun args 100 (projector viewSize) Projector.processed old

namespace Projector

variable {args : ReaderArgs} {viewSize : ℕ} {old stream : List Decoded} {t t' : Projector}
  {σ σ' : ReaderBench Projector}

/-- The projector has counted and pushed what the subscription has delivered. -/
structure Inv (stream : List Decoded) (t : Projector) : Prop where
  next : t.sub.next ≤ stream.length
  processed : t.processed = (stream.take t.sub.next).countP (·.isSome)
  pushed : ∀ i, i ∈ t.pushed ↔ i < t.sub.next ∧ ∃ event, stream[i]? = some (some event)

lemma Inv.append (h : t.Inv stream) (more : List Decoded) : t.Inv (stream ++ more) where
  next := h.next.trans (by simp)
  processed := by rw [List.take_append_of_le_length h.next, h.processed]
  pushed i := by
    rw [h.pushed i]
    have hle := h.next
    constructor <;> rintro ⟨hlt, hget⟩ <;> refine ⟨hlt, ?_⟩
    · rwa [List.getElem?_append_left (by omega)]
    · rwa [List.getElem?_append_left (by omega)] at hget

lemma Inv.deliver (h : t.Inv stream) (hs : t.next viewSize stream .deliver = some t') :
    t'.Inv stream := by
  obtain ⟨⟨e, sub⟩, hdeliver, rfl⟩ := Option.map_eq_some_iff.mp hs
  obtain ⟨hget, hnext, hle, htake⟩ := Subscription.deliver_eq_some hdeliver
  cases e with
  | none =>
    refine ⟨hle, ?_, fun i => ?_⟩
    · show t.processed = (stream.take sub.next).countP (·.isSome)
      rw [htake, List.countP_append, h.processed]
      rfl
    · show i ∈ t.pushed ↔ i < sub.next ∧ _
      rw [h.pushed i, hnext]
      constructor
      · rintro ⟨hi, hevent⟩
        exact ⟨by omega, hevent⟩
      · rintro ⟨hi, event, hevent⟩
        rcases Nat.lt_succ_iff_lt_or_eq.mp hi with hi | rfl
        · exact ⟨hi, event, hevent⟩
        · rw [hget] at hevent
          cases hevent
  | some event =>
    refine ⟨hle, ?_, fun i => ?_⟩
    · show t.processed + 1 = (stream.take sub.next).countP (·.isSome)
      rw [htake, List.countP_append, h.processed]
      rfl
    · show i ∈ t.pushed ++ [t.sub.next] ↔ i < sub.next ∧ _
      rw [List.mem_append, h.pushed i, hnext, List.mem_singleton]
      constructor
      · rintro (⟨hi, hevent⟩ | rfl)
        · exact ⟨by omega, hevent⟩
        · exact ⟨by omega, event, hget⟩
      · rintro ⟨hi, hevent⟩
        rcases Nat.lt_succ_iff_lt_or_eq.mp hi with hi | rfl
        · exact .inl ⟨hi, hevent⟩
        · exact .inr rfl

lemma inv_of_reachable (h : (projectionRun args viewSize old).Reachable σ) :
    σ.reader.Inv σ.stream := by
  refine ReaderBench.reader_invariant (P := fun stream t => Inv stream t) ?_ ?_ ?_ h
  · rintro _ rfl
    exact ⟨Nat.zero_le _, rfl, fun i => by simp [initial, Subscription.start]⟩
  · intro stream more t hinv
    exact hinv.append more
  · intro σ b t hinv _ hs
    cases b with
    | deliver => exact hinv.deliver hs
    | fail =>
      obtain rfl := Option.some.inj hs
      exact ⟨hinv.next, hinv.processed, hinv.pushed⟩

/-- Without old `BenchmarkEvent`s the count stands for the events of the bench. -/
lemma processed_le (hold : ∀ e ∈ old, e = none) {written : List Events.BenchmarkEvent}
    (h : t.Inv (old ++ written.map some)) : t.processed ≤ t.sub.next - old.length := by
  rw [h.processed, List.take_append, List.countP_append]
  have hnone : (old.take t.sub.next).countP (·.isSome) = 0 := by
    rw [List.countP_eq_zero]
    intro e he
    simp [hold e (List.mem_of_mem_take he)]
  rw [hnone, Nat.zero_add]
  exact List.countP_le_length.trans (List.length_take_le _ _)

/-- Once the count has come to the events of the bench, all of them have been pushed. -/
lemma pushed_of_processed (hold : ∀ e ∈ old, e = none) {written : List Events.BenchmarkEvent}
    (h : t.Inv (old ++ written.map some)) (hall : written.length ≤ t.processed) {i : ℕ}
    (hle : old.length ≤ i) (hlt : i < (old ++ written.map some).length) : i ∈ t.pushed := by
  have hcount := processed_le hold h
  rw [h.pushed]
  simp only [List.length_append, List.length_map] at hlt
  refine ⟨by omega, written[i - old.length], ?_⟩
  rw [List.getElem?_append_right hle, List.getElem?_map, List.getElem?_eq_getElem (by omega)]
  rfl

/-! ### A run that counts old events -/

/-- The projector is given events one after the other. -/
lemma delivered (h : (projectionRun args viewSize old).Reachable σ) (n : ℕ)
    (hreading : σ.phase.Reading) (hended : σ.reader.sub.ended = false)
    (hn : σ.reader.sub.next + n ≤ σ.stream.length) :
    ∃ t, (projectionRun args viewSize old).Reachable { σ with reader := t } ∧
      t.sub = ⟨σ.reader.sub.next + n, false⟩ := by
  induction n with
  | zero =>
    refine ⟨σ.reader, h, ?_⟩
    rw [← hended]
    rfl
  | succ n ih =>
    obtain ⟨t, hreach, hsub⟩ := ih (by omega)
    let e := σ.stream[σ.reader.sub.next + n]
    have hget : σ.stream[σ.reader.sub.next + n]? = some e := List.getElem?_eq_getElem _
    let t' := { e.elim t (push viewSize · t) with sub := ⟨σ.reader.sub.next + n + 1, false⟩ }
    have hstep : t.next viewSize σ.stream .deliver = some t' := by
      simp only [next, Subscription.deliver, hsub, hget]
      rfl
    refine ⟨t', System.Reachable.next (a := .inr .deliver) hreach ?_, rfl⟩
    simp only [readerRun, if_pos hreading]
    exact congrArg (Option.map _) hstep

/-- A wait for an event ends before that event is delivered, if the stream holds an old one. -/
lemma pass_before {written : List Events.BenchmarkEvent} {expected live : ℕ}
    (h : (projectionRun args viewSize old).Reachable σ) (hphase : σ.phase = .waiting expected live)
    (hstream : σ.stream = old ++ written.map some) (hwritten : written.length = expected)
    (hpos : 0 < expected) (hreader : σ.reader.sub = .start) (hold : ∃ e ∈ old, e ≠ none) :
    ∃ τ τ', (projectionRun args viewSize old).Reachable τ ∧
      (projectionRun args viewSize old).next τ (.inl .pass) = some τ' ∧
      τ.awaited = σ.awaited ∧ σ.stream.length - 1 ∉ τ.reader.pushed := by
  have hreading : σ.phase.Reading := by
    rw [hphase]
    trivial
  obtain ⟨t, hreach, hsub⟩ := delivered h (σ.stream.length - 1) hreading (by rw [hreader]; rfl)
    (by rw [hreader]; exact (Nat.zero_add _).trans_le (Nat.sub_le _ _))
  have hinv := inv_of_reachable hreach
  -- all old events and all but the last of the others have been counted
  have hnext : t.sub.next = old.length + (expected - 1) := by
    rw [hsub, hreader, hstream, List.length_append, List.length_map, hwritten]
    simp only [Subscription.start]
    omega
  have hcount : t.processed = old.countP (·.isSome) + (expected - 1) := by
    have hprocessed := hinv.processed
    simp only [hstream, hnext] at hprocessed
    rw [hprocessed, List.take_append, List.take_of_length_le (by omega), List.countP_append,
      Nat.add_sub_cancel_left, ← List.map_take, List.countP_map]
    congr 1
    rw [List.countP_eq_length.mpr (by simp), List.length_take, hwritten]
    omega
  have hone : 0 < old.countP (·.isSome) := by
    obtain ⟨e, he, hne⟩ := hold
    exact List.countP_pos_iff.mpr ⟨e, he, Option.isSome_iff_ne_none.mpr hne⟩
  have hpass : ∃ τ', ({ σ with reader := t } : ReaderBench Projector).mainNext args processed .pass
      = some τ' := by
    simp only [ReaderBench.mainNext, hphase, hcount]
    rw [if_pos (by omega)]
    cases live <;> exact ⟨_, rfl⟩
  obtain ⟨τ', hpass⟩ := hpass
  refine ⟨{ σ with reader := t }, τ', hreach, hpass, rfl, ?_⟩
  intro hpushed
  have hlt := ((hinv.pushed _).mp hpushed).1
  simp only [hnext, hstream, List.length_append, List.length_map, hwritten] at hlt
  omega

end Projector

open Projector in
/-- Whenever a wait ends the events that it was about have been pushed to the view, if and only
if the stream held no `BenchmarkEvent` before the run or the run has no events at all. -/
theorem awaited_events_pushed (args : ReaderArgs) (viewSize : ℕ) (old : List Decoded) :
    (∀ σ σ', (projectionRun args viewSize old).Reachable σ →
        (projectionRun args viewSize old).next σ (.inl .pass) = some σ' →
        ∀ i ∈ σ.awaited, i ∈ σ.reader.pushed) ↔
      (∀ e ∈ old, e = none) ∨ (args.seedEvents = 0 ∧ args.liveEvents = 0) := by
  constructor
  · intro hclaim
    by_contra hcond
    obtain ⟨hold, hevents⟩ := not_or.mp hcond
    have hmem : ∃ e ∈ old, e ≠ none := by
      simpa using hold
    have hinit : (projectionRun args viewSize old).Reachable (.start args 100 .initial old) :=
      .init ⟨rfl, rfl⟩
    obtain ⟨σ, hreach, hphase, hreader, ⟨written, hstream, hlength⟩, hawaited⟩ :=
      ReaderBench.seeded (fun _ _ => trivial) hinit (fun _ => .epoch) rfl
    rw [ReaderBench.sum_batches] at hlength hawaited
    have hsub : σ.reader.sub = .start := by rw [hreader]; rfl
    rcases Nat.eq_zero_or_pos args.seedEvents with hseed | hseed
    · -- the cold start ends at once, and the wait for the first live event is short
      obtain ⟨live, hlive⟩ := Nat.exists_eq_succ_of_ne_zero fun h => hevents ⟨hseed, h⟩
      rw [hlive] at hphase
      obtain ⟨σ₁, hreach₁, hphase₁, hreader₁, ⟨event, hstream₁⟩, hawaited₁⟩ :=
        ReaderBench.lived (fun _ _ => trivial) hreach (fun _ => .epoch) hphase (by omega)
      have hwritten : σ₁.stream = old ++ (written ++ [event]).map some := by
        rw [hstream₁, hstream, List.map_append, ← List.append_assoc]
        rfl
      obtain ⟨τ, τ', hτ, hpass, hsame, hnot⟩ := pass_before hreach₁ hphase₁ hwritten
        (by simp [hlength]) (Nat.succ_pos _) (by rw [hreader₁, hsub]) hmem
      refine hnot (hclaim τ τ' hτ hpass _ ?_)
      rw [hsame, hawaited₁, hstream₁]
      simp
    · obtain ⟨τ, τ', hτ, hpass, hsame, hnot⟩ := pass_before hreach hphase hstream hlength hseed
        hsub hmem
      refine hnot (hclaim τ τ' hτ hpass _ ?_)
      rw [hsame, hawaited, hstream, List.mem_append, List.mem_range'_1]
      simp only [ReaderBench.start, List.length_append, List.length_map, hlength]
      omega
  · rintro hcond σ σ' hreach hs i hi
    obtain ⟨⟨written, hstream, hat⟩, hawaited⟩ := ReaderBench.inv_of_reachable hreach
    have hinv := inv_of_reachable hreach
    simp only [readerRun, ReaderBench.mainNext] at hs
    split at hs
    · rename_i expected live hphase
      split_ifs at hs with hprogress
      obtain ⟨hle, hlt⟩ := hawaited (by simp [hphase]) i hi
      rw [hphase] at hat
      obtain ⟨rfl, hseed, htotal⟩ := hat
      rcases hcond with hold | ⟨hnoSeed, hnoLive⟩
      · exact pushed_of_processed hold (hstream ▸ hinv) hprogress hle (hstream ▸ hlt)
      · simp only [hstream, List.length_append, List.length_map] at hlt
        omega
    · cases hs

/-! ### A second run on a stream -/

/-- What an earlier run has left. -/
def leftover : List Decoded := [some (.new 1 0 .epoch)]

/-- One event is seeded; the projector is given the old one, and the cold start is over. -/
def secondRun : List (MainStep ⊕ ProjectorStep) :=
  [.inl (.append (fun _ => .epoch) .done), .inl .spawn, .inr .deliver]

def second : ReaderBench Projector :=
  (projectionRun ⟨1, 0⟩ 500 leftover).after secondRun (.start ⟨1, 0⟩ 100 .initial leftover)

theorem awaited_events_pushed_fails :
    ¬ ∀ (args : ReaderArgs) (viewSize : ℕ) (old : List Decoded) (σ σ' : ReaderBench Projector),
      (projectionRun args viewSize old).Reachable σ →
      (projectionRun args viewSize old).next σ (.inl .pass) = some σ' →
      ∀ i ∈ σ.awaited, i ∈ σ.reader.pushed := by
  intro hclaim
  have hreach := System.reachable_after (M := projectionRun ⟨1, 0⟩ 500 leftover) secondRun
    (s := .start ⟨1, 0⟩ 100 .initial leftover) ⟨rfl, rfl⟩ (by decide)
  have hpushed := hclaim ⟨1, 0⟩ 500 leftover second { second with phase := .done } hreach rfl 1
    (by decide)
  exact absurd hpushed (by decide)

end EventSourcing.KurrentDB
