import EventSourcing.Concurrency.System
import EventSourcing.Store.Envelope

/-!
# `run_relay_loop`

The loop of both stores: one call of `relay_next_integration_event` after the other, until the
shutdown resolves. The biased `select!` polls the shutdown first, whenever the task is polled,
and then drops the future of the relay call wherever it stands; the back-off between two calls
is not interrupted.
-/

namespace EventSourcing

open Concurrency

/-- A store as the relay loop meets it: `E` is what happens besides the loop, `R` a step of a
relay call. Relay calls are numbered. -/
structure RelayStore (S E R : Type) where
  init : S → Prop
  environment : S → E → Option S
  relay : S → ℕ → R → Option S
  /-- the future of the relay call is ready -/
  ended : S → ℕ → Bool
  /-- the future of the relay call is dropped -/
  dropRelay : S → ℕ → S

structure RelayLoop (S : Type) where
  store : S
  /-- the relay call of the turn the loop is in -/
  turn : ℕ
  /-- `run_relay_loop` has not returned -/
  running : Bool

inductive LoopStep (E R : Type) where
  | environment (e : E)
  /-- the next step of the relay call -/
  | relay (step : R)
  /-- the relay call is ready: after its back-off the loop begins another turn -/
  | again
  /-- the shutdown has resolved before the relay call is ready -/
  | shutdown
  /-- `run_relay_loop` is called again -/
  | run

variable {S E R : Type} (store : RelayStore S E R)

def RelayLoop.next (loop : RelayLoop S) : LoopStep E R → Option (RelayLoop S)
  | .environment e => (store.environment loop.store e).map fun σ => { loop with store := σ }
  | .relay step =>
    if loop.running then
      (store.relay loop.store loop.turn step).map fun σ => { loop with store := σ }
    else none
  | .again =>
    if loop.running && store.ended loop.store loop.turn then
      some { loop with turn := loop.turn + 1 }
    else none
  | .shutdown =>
    if loop.running && !store.ended loop.store loop.turn then
      some { loop with store := store.dropRelay loop.store loop.turn, running := false }
    else none
  | .run =>
    if loop.running then none else some { loop with turn := loop.turn + 1, running := true }

/-- The runs of a relay loop over a store. -/
def RelayStore.loop : System (RelayLoop S) (LoopStep E R) where
  init loop := store.init loop.store ∧ loop.turn = 0 ∧ loop.running = true
  next := RelayLoop.next store

/-- Every entry that has been published is marked dispatched. -/
def Settled {P : Type} (outbox : List (OutboxEntry P)) (published : List String) : Prop :=
  ∀ id ∈ published, ∃ o ∈ outbox, o.eventId = id ∧ o.dispatched = true

instance {P : Type} (outbox : List (OutboxEntry P)) (published : List String) :
    Decidable (Settled outbox published) :=
  inferInstanceAs (Decidable (∀ id ∈ published, ∃ o ∈ outbox, _ ∧ _))

/-! ### What a step does -/

variable {store} {loop loop' : RelayLoop S}

lemma RelayLoop.next_environment {e : E} (hs : loop.next store (.environment e) = some loop') :
    ∃ σ, store.environment loop.store e = some σ ∧ loop' = { loop with store := σ } := by
  obtain ⟨σ, hσ, rfl⟩ := Option.map_eq_some_iff.mp hs
  exact ⟨σ, hσ, rfl⟩

lemma RelayLoop.next_relay {step : R} (hs : loop.next store (.relay step) = some loop') :
    loop.running = true ∧ ∃ σ, store.relay loop.store loop.turn step = some σ ∧
      loop' = { loop with store := σ } := by
  simp only [RelayLoop.next] at hs
  split_ifs at hs with hrunning
  obtain ⟨σ, hσ, rfl⟩ := Option.map_eq_some_iff.mp hs
  exact ⟨hrunning, σ, hσ, rfl⟩

lemma RelayLoop.next_again (hs : loop.next store .again = some loop') :
    loop.running = true ∧ store.ended loop.store loop.turn = true ∧
      loop' = { loop with turn := loop.turn + 1 } := by
  simp only [RelayLoop.next] at hs
  split_ifs at hs with hended
  rw [Bool.and_eq_true] at hended
  exact ⟨hended.1, hended.2, (Option.some.inj hs).symm⟩

lemma RelayLoop.next_shutdown (hs : loop.next store .shutdown = some loop') :
    loop.running = true ∧ store.ended loop.store loop.turn = false ∧
      loop' = { loop with store := store.dropRelay loop.store loop.turn, running := false } := by
  simp only [RelayLoop.next] at hs
  split_ifs at hs with hopen
  simp only [Bool.and_eq_true, Bool.not_eq_true'] at hopen
  exact ⟨hopen.1, hopen.2, (Option.some.inj hs).symm⟩

lemma RelayLoop.next_run (hs : loop.next store .run = some loop') :
    loop.running = false ∧ loop' = { loop with turn := loop.turn + 1, running := true } := by
  simp only [RelayLoop.next] at hs
  split_ifs at hs with hrunning
  exact ⟨Bool.eq_false_iff.mpr hrunning, (Option.some.inj hs).symm⟩

end EventSourcing
