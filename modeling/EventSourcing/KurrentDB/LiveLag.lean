import EventSourcing.Concurrency.System
import Mathlib.Algebra.Group.Int.Defs
import Mathlib.Logic.Function.Basic
import Mathlib.Order.Nat

/-!
# The live-only subscription of the hot/cold view bench

The writer appends one event after another and waits up to five seconds for a lag from the
subscription task. What goes through the channel between them is a bare number. As long as no
event arrives after the timeout of its write, each sample is the lag of its own event or the
sentinel (`samples_right`); an event that arrives later leaves a number in the channel that the
next write takes for its own (`samples_right_fails`).
-/

namespace EventSourcing.KurrentDB.LiveLag

open Concurrency

/-- What the writer of the phase waits for. -/
inductive Phase where
  /-- at the head of the loop -/
  | idle
  /-- the event is in the stream, the append has not returned -/
  | appending
  /-- in `timeout(5 s, lag_rx.recv())`, since an instant -/
  | waiting (since : ℕ)
  /-- the loop was left, or the process stopped -/
  | stopped
  deriving DecidableEq

/-- A value of the histogram. -/
structure Sample where
  value : ℕ
  /-- history: the lag of the event of this write, if it has been delivered -/
  lag : Option ℕ
  deriving DecidableEq

structure State where
  /-- `created_at` of the live events of the stream, in microseconds -/
  created : List Int
  /-- the place of the next event for the subscription, once it is established -/
  place : Option ℕ
  /-- the subscription has ended with an error, and the sender is dropped -/
  ended : Bool
  /-- the channel -/
  queue : List ℕ
  phase : Phase
  /-- microseconds of the clock of the timeout -/
  now : ℕ
  samples : List Sample
  /-- history: the lags of the events delivered -/
  lags : ℕ → Option ℕ

inductive Action where
  /-- the event is created at the given time, and stored -/
  | append (createdAt : Int)
  | acknowledge
  /-- the process stops, or the append has returned an error -/
  | stop
  | subscribe
  /-- the next event arrives at the given time -/
  | deliver (utc : Int)
  | fail
  | receive
  | closed
  | expire
  | pass (us : ℕ)
  deriving DecidableEq

/-- The lag in microseconds; a difference that is no `i64` counts as zero. -/
def lagUs (createdAt utc : Int) : ℕ :=
  let us := utc - createdAt
  max (if -2 ^ 63 ≤ us ∧ us < 2 ^ 63 then us.natAbs else 0) 1

/-- What is recorded on a timeout. -/
def sentinel : ℕ := 5000000

namespace State

def next (liveWrites : ℕ) (σ : State) : Action → Option State
  | .append createdAt =>
    match σ.phase with
    | .idle =>
      if σ.samples.length < liveWrites then
        some { σ with created := σ.created ++ [createdAt], phase := .appending }
      else none
    | _ => none
  | .acknowledge =>
    match σ.phase with
    | .appending => some { σ with phase := .waiting σ.now }
    | _ => none
  | .stop => some { σ with phase := .stopped }
  | .subscribe =>
    -- `StreamPosition::End`
    match σ.place with
    | none => some { σ with place := some σ.created.length }
    | some _ => none
  | .deliver utc =>
    match σ.place, σ.ended with
    | some k, false =>
      if σ.queue.length < liveWrites + 16 then
        σ.created[k]?.map fun createdAt =>
          let lag := lagUs createdAt utc
          { σ with
            place := some (k + 1)
            queue := σ.queue ++ [lag]
            lags := Function.update σ.lags k (some lag) }
      else none
    | _, _ => none
  | .fail => some { σ with ended := true }
  | .receive =>
    match σ.phase, σ.queue with
    | .waiting _, lag :: queue =>
      some { σ with
        queue := queue
        phase := .idle
        samples := σ.samples ++ [⟨lag, σ.lags σ.samples.length⟩] }
    | _, _ => none
  | .closed =>
    match σ.phase, σ.queue, σ.ended with
    | .waiting _, [], true => some { σ with phase := .stopped }
    | _, _, _ => none
  | .expire =>
    match σ.phase, σ.queue, σ.ended with
    | .waiting since, [], false =>
      if since + sentinel ≤ σ.now then
        some { σ with
          phase := .idle
          samples := σ.samples ++ [⟨sentinel, σ.lags σ.samples.length⟩] }
      else none
    | _, _, _ => none
  | .pass us => some { σ with now := σ.now + us }

end State

/-- The hot live-only phase. -/
def system (liveWrites : ℕ) : System State Action where
  init σ := σ = ⟨[], none, false, [], .idle, σ.now, [], fun _ => none⟩
  next := State.next liveWrites

/-- No event arrives after the timeout of its write, unless the loop is over. -/
def NotLate (liveWrites : ℕ) (σ : State) : Action → Prop
  | .deliver _ => σ.phase = .stopped ∨ liveWrites ≤ σ.samples.length ∨
      ∀ k ∈ σ.place, σ.samples.length ≤ k
  | _ => True

instance (liveWrites : ℕ) (σ : State) : (a : Action) → Decidable (NotLate liveWrites σ a)
  | .deliver _ => inferInstanceAs (Decidable (_ ∨ _ ∨ ∀ k ∈ σ.place, _))
  | .append _ | .acknowledge | .stop | .subscribe | .fail | .receive | .closed | .expire
  | .pass _ => isTrue trivial

/-- The lag of the event of the write if it was delivered in time, the sentinel otherwise. -/
def Sample.Right (sample : Sample) : Prop := sample.value = sample.lag.getD sentinel

/-! ### The invariant -/

variable {liveWrites : ℕ} {σ σ' : State} {a : Action}

/-- Of a loop that goes on: the channel holds the lag of the event of the current write, once it
is delivered, and nothing else. -/
structure State.InStep (σ : State) : Prop where
  created : σ.created.length = σ.samples.length + if σ.phase = .idle then 0 else 1
  queue : σ.queue = (σ.lags σ.samples.length).toList
  /-- the events ahead have not been delivered -/
  ahead : ∀ k, (∀ p ∈ σ.place, p ≤ k) → σ.lags k = none
  place : ∀ p ∈ σ.place, p ≤ σ.created.length

structure Inv (liveWrites : ℕ) (σ : State) : Prop where
  right : ∀ sample ∈ σ.samples, sample.Right
  busy : σ.phase = .idle ∨ σ.phase = .stopped ∨ σ.samples.length < liveWrites
  inStep : σ.phase ≠ .stopped → σ.samples.length < liveWrites → σ.InStep

lemma right_append {samples : List Sample} {sample : Sample} (h : ∀ s ∈ samples, s.Right)
    (hright : sample.Right) : ∀ s ∈ samples ++ [sample], s.Right := by
  intro s hs
  rcases List.mem_append.mp hs with hs | hs
  · exact h s hs
  · obtain rfl := List.mem_singleton.mp hs
    exact hright

/-- A sample is taken, and the channel is empty. -/
lemma State.InStep.sample (h : σ.InStep) (hphase : σ.phase ≠ .idle) (value : ℕ) :
    State.InStep { σ with
      queue := []
      phase := .idle
      samples := σ.samples ++ [⟨value, σ.lags σ.samples.length⟩] } := by
  have hcreated := h.created
  rw [if_neg hphase] at hcreated
  refine ⟨by simpa using hcreated, ?_, h.ahead, h.place⟩
  -- the event of the next write does not exist yet
  have hnone : σ.lags (σ.samples.length + 1) = none :=
    h.ahead _ fun p hp => (h.place p hp).trans hcreated.le
  show [] = (σ.lags (σ.samples ++ [_]).length).toList
  rw [List.length_append, List.length_singleton, hnone]
  rfl

/-- What the channel holds is one lag. -/
lemma State.InStep.received (h : σ.InStep) {lag : ℕ} {queue : List ℕ}
    (hqueue : σ.queue = lag :: queue) : queue = [] ∧ σ.lags σ.samples.length = some lag := by
  have hlags := h.queue
  rw [hqueue] at hlags
  cases hlag : σ.lags σ.samples.length with
  | none => simp [hlag] at hlags
  | some own =>
    rw [hlag, Option.toList_some, List.cons.injEq] at hlags
    exact ⟨hlags.2, by rw [hlags.1]⟩

/-- The event of the current write has not been delivered. -/
lemma State.InStep.silent (h : σ.InStep) (hqueue : σ.queue = []) :
    σ.lags σ.samples.length = none := by
  have hlags := h.queue
  rw [hqueue] at hlags
  exact Option.toList_eq_nil_iff.mp hlags.symm

lemma Inv.sample (h : Inv liveWrites σ) (hidle : σ.phase ≠ .idle) (hstopped : σ.phase ≠ .stopped)
    {value : ℕ} (hvalue : σ.InStep → value = (σ.lags σ.samples.length).getD sentinel) :
    Inv liveWrites { σ with
      queue := []
      phase := .idle
      samples := σ.samples ++ [⟨value, σ.lags σ.samples.length⟩] } := by
  have hbusy : σ.samples.length < liveWrites := (h.busy.resolve_left hidle).resolve_left hstopped
  have hin := h.inStep hstopped hbusy
  exact ⟨right_append h.right (hvalue hin), .inl rfl, fun _ _ => hin.sample hidle value⟩

lemma Inv.append (h : Inv liveWrites σ) (hidle : σ.phase = .idle)
    (hlt : σ.samples.length < liveWrites) (createdAt : Int) :
    Inv liveWrites { σ with created := σ.created ++ [createdAt], phase := .appending } := by
  refine ⟨h.right, .inr (.inr hlt), fun _ _ => ?_⟩
  have hin := h.inStep (by simp [hidle]) hlt
  have hcreated := hin.created
  rw [if_pos hidle] at hcreated
  refine ⟨by simpa using hcreated, hin.queue, hin.ahead, fun p hp => ?_⟩
  exact (hin.place p hp).trans (by simp)

/-- A delivery that is not late is that of the current write. -/
lemma Inv.deliver (h : Inv liveWrites σ) {k lag : ℕ} {createdAt : Int} {utc : Int}
    (hplace : σ.place = some k) (hcreatedAt : σ.created[k]? = some createdAt)
    (hC : NotLate liveWrites σ (.deliver utc)) :
    Inv liveWrites { σ with
      place := some (k + 1)
      queue := σ.queue ++ [lag]
      lags := Function.update σ.lags k (some lag) } := by
  refine ⟨h.right, h.busy, fun hstopped hlt => ?_⟩
  have hin := h.inStep hstopped hlt
  have hnotLate : σ.samples.length ≤ k :=
    (hC.resolve_left hstopped).resolve_left (Nat.not_le_of_lt hlt) k hplace
  have hk : k < σ.created.length := (List.getElem?_eq_some_iff.mp hcreatedAt).1
  have hcreated := hin.created
  obtain rfl : k = σ.samples.length := by
    split_ifs at hcreated <;> omega
  have hnone : σ.lags σ.samples.length = none := by
    refine hin.ahead _ fun p hp => ?_
    rw [hplace] at hp
    exact (Option.some.inj hp).ge
  have hempty := hin.queue
  rw [hnone] at hempty
  refine ⟨hcreated, ?_, fun j hj => ?_, fun p hp => ?_⟩
  · show σ.queue ++ [lag] = (Function.update σ.lags σ.samples.length (some lag)
      σ.samples.length).toList
    rw [hempty, Function.update_self]
    rfl
  · have hlt' : σ.samples.length < j := hj _ rfl
    show Function.update σ.lags σ.samples.length (some lag) j = none
    rw [Function.update_of_ne hlt'.ne']
    refine hin.ahead j fun p hp => ?_
    rw [hplace] at hp
    exact (Option.some.inj hp).symm.le.trans hlt'.le
  · exact (Option.some.inj hp).symm.le.trans hk

lemma inv_next (h : Inv liveWrites σ) (hC : NotLate liveWrites σ a)
    (hs : σ.next liveWrites a = some σ') : Inv liveWrites σ' := by
  cases a with
  | append createdAt =>
    simp only [State.next] at hs
    split at hs
    · rename_i hidle
      split_ifs at hs with hlt
      obtain rfl := Option.some.inj hs
      exact h.append hidle hlt createdAt
    · cases hs
  | acknowledge =>
    simp only [State.next] at hs
    split at hs
    · rename_i happending
      obtain rfl := Option.some.inj hs
      have hbusy : σ.samples.length < liveWrites := by simpa [happending] using h.busy
      refine ⟨h.right, .inr (.inr hbusy), fun _ _ => ?_⟩
      have hin := h.inStep (by simp [happending]) hbusy
      exact ⟨by simpa [happending] using hin.created, hin.queue, hin.ahead, hin.place⟩
    · cases hs
  | stop =>
    obtain rfl := Option.some.inj hs
    exact ⟨h.right, .inr (.inl rfl), fun hstopped => absurd rfl hstopped⟩
  | subscribe =>
    simp only [State.next] at hs
    split at hs
    · rename_i hplace
      obtain rfl := Option.some.inj hs
      refine ⟨h.right, h.busy, fun hstopped hlt => ?_⟩
      have hin := h.inStep hstopped hlt
      refine ⟨hin.created, hin.queue, fun k _ => hin.ahead k (by simp [hplace]), fun p hp => ?_⟩
      exact (Option.some.inj hp).symm.le
    · cases hs
  | deliver utc =>
    simp only [State.next] at hs
    split at hs
    · rename_i k hplace hended
      split_ifs at hs
      obtain ⟨createdAt, hcreatedAt, rfl⟩ := Option.map_eq_some_iff.mp hs
      exact h.deliver hplace hcreatedAt hC
    · cases hs
  | fail =>
    obtain rfl := Option.some.inj hs
    refine ⟨h.right, h.busy, fun hstopped hlt => ?_⟩
    have hin := h.inStep hstopped hlt
    exact ⟨hin.created, hin.queue, hin.ahead, hin.place⟩
  | receive =>
    simp only [State.next] at hs
    split at hs
    · rename_i since lag queue hwaiting hqueue
      obtain rfl := Option.some.inj hs
      have hbusy : σ.samples.length < liveWrites := by simpa [hwaiting] using h.busy
      obtain ⟨rfl, hlag⟩ := (h.inStep (by simp [hwaiting]) hbusy).received hqueue
      refine h.sample (by simp [hwaiting]) (by simp [hwaiting]) fun _ => ?_
      rw [hlag, Option.getD_some]
    · cases hs
  | closed =>
    simp only [State.next] at hs
    split at hs
    · obtain rfl := Option.some.inj hs
      exact ⟨h.right, .inr (.inl rfl), fun hstopped => absurd rfl hstopped⟩
    · cases hs
  | expire =>
    simp only [State.next] at hs
    split at hs
    · rename_i since hwaiting hqueue hended
      split_ifs at hs
      obtain rfl := Option.some.inj hs
      have hsentinel : σ.InStep → sentinel = (σ.lags σ.samples.length).getD sentinel := by
        intro hin
        rw [hin.silent hqueue, Option.getD_none]
      have hsample := h.sample (by simp [hwaiting]) (by simp [hwaiting]) hsentinel
      rwa [← hqueue] at hsample
    · cases hs
  | pass us =>
    obtain rfl := Option.some.inj hs
    refine ⟨h.right, h.busy, fun hstopped hlt => ?_⟩
    have hin := h.inStep hstopped hlt
    exact ⟨hin.created, hin.queue, hin.ahead, hin.place⟩

/-- In a phase in which no event arrives after the timeout of its write, each value recorded is
the lag of the event of its own write, or the sentinel where that event was not delivered in
time. -/
theorem samples_right (liveWrites : ℕ) (σ : State)
    (h : (system liveWrites).ReachBy (NotLate liveWrites) σ) :
    ∀ sample ∈ σ.samples, sample.Right := by
  have hinv : Inv liveWrites σ := by
    refine h.invariant ?_ fun σ a σ' _ hinv hC hs => inv_next hinv hC hs
    intro σ hσ
    rw [hσ]
    exact ⟨nofun, .inl rfl, fun _ _ => ⟨rfl, rfl, fun _ _ => rfl, nofun⟩⟩
  exact hinv.right

/-! ### A delivery in time, one that is late -/

def start : State := ⟨[], none, false, [], .idle, 0, [], fun _ => none⟩

/-- The first event is delivered after 2 ms, the second not at all. -/
def timelyRun : List Action :=
  [.subscribe, .append 0, .deliver 2000, .acknowledge, .receive, .append 3000, .acknowledge,
    .pass 5000000, .expire]

theorem samples_right_timely :
    let σ := (system 500).after timelyRun start
    σ.samples = [⟨2000, some 2000⟩, ⟨5000000, none⟩] ∧ ∀ sample ∈ σ.samples, sample.Right := by
  have h := samples_right 500 _ (System.reachBy_after (M := system 500) timelyRun (s := start) rfl
    (by decide) (by decide))
  exact ⟨by decide, h⟩

/-- The first event arrives after 6 s. -/
def lateRun : List Action :=
  [.subscribe, .append 0, .acknowledge, .pass 5000000, .expire, .append 5000000, .acknowledge,
    .deliver 6000000, .receive, .append 6000000, .acknowledge, .deliver 6000001, .receive]

/-- The second write records the lag of the first event, the third that of the second. -/
theorem samples_right_fails :
    let σ := (system 500).after lateRun start
    (system 500).Reachable σ ∧
      σ.samples = [⟨5000000, none⟩, ⟨6000000, none⟩, ⟨1000001, none⟩] ∧
      ¬ ∀ sample ∈ σ.samples, sample.Right := by
  refine ⟨System.reachable_after lateRun rfl (by decide), by decide, ?_⟩
  intro hright
  have hsecond : 6000000 = sentinel := hright ⟨6000000, none⟩ (by decide)
  exact absurd hsecond (by decide)

end EventSourcing.KurrentDB.LiveLag
