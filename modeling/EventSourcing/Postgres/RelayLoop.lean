import EventSourcing.Postgres.Relay
import EventSourcing.Store.RelayLoop

/-!
# The relay loop of the PostgreSQL store

One loop, with append calls beside it. A relay call that is dropped takes its open transaction
with it: the server rolls it back, and with it the mark of an entry that has been published
already.
-/

namespace EventSourcing.Postgres

open Concurrency

variable {P : Type} {σ σ' : State P} {loop loop' : RelayLoop (State P)}

/-- What happens besides the loop. -/
inductive Environment (P : Type) where
  | call (c : ℕ) (step : CallStep P)
  /-- the server rolls back the transaction of a relay call that has ended or been dropped -/
  | rollback (r : ℕ)

/-- The store beside the loop; a relay call that is dropped ends as one that crashes. -/
def relayStore (P : Type) : RelayStore (State P) (Environment P) RelayStep where
  init σ := σ = .initial
  environment σ
    | .call c step => σ.callNext c step
    | .rollback r => σ.relayNext r .rollback
  relay σ r step :=
    match step with
    | .crash => none
    | step => σ.relayNext r step
  ended σ r :=
    match σ.relays r with
    | .returned _ => true
    | _ => false
  dropRelay σ r := σ.stopRelay r .crashed

/-- No call of the loop ends between its publish and its commit, dropped by the shutdown or with
an error of the `UPDATE` or the commit. -/
def Uncut (loop : RelayLoop (State P)) : LoopStep (Environment P) RelayStep → Prop
  | .shutdown => (loop.store.relays loop.turn).delivered = none
  | .relay (.fail _) => (loop.store.relays loop.turn).delivered = none
  | _ => True

instance (loop : RelayLoop (State P)) :
    (step : LoopStep (Environment P) RelayStep) → Decidable (Uncut loop step)
  | .shutdown | .relay (.fail _) => decidable_of_iff' _ Option.isNone_iff_eq_none.symm
  | .relay .start | .relay .select | .relay (.publish _) | .relay (.mark _) => isTrue trivial
  | .relay (.commit _) | .relay .crash | .relay .rollback => isTrue trivial
  | .environment _ | .again | .run => isTrue trivial

/-! ### The invariant -/

/-- No call has stopped after its publish, and what has been published and not committed has been
so by the current call. -/
structure LoopInv (loop : RelayLoop (State P)) : Prop where
  reachable : (system P).Reachable loop.store
  stopped : loop.store.stopped = []
  ahead : ∀ r, loop.turn < r → loop.store.relays r = .idle
  current : ∀ r o, (loop.store.relays r).delivered = some o → r = loop.turn ∧ loop.running = true

/-- A relay call that stops with nothing published adds nothing to what has stopped. -/
lemma stopped_stopRelay {r : ℕ} {relay : Relay P} (h : (σ.relays r).delivered = none) :
    (σ.stopRelay r relay).stopped = σ.stopped := by
  simp [State.stopRelay, h]

lemma stopped_of_next {r : ℕ} {step : RelayStep}
    (hC : (step = .crash ∨ ∃ context, step = .fail context) → (σ.relays r).delivered = none)
    (hs : σ.relayNext r step = some σ') : σ'.stopped = σ.stopped := by
  cases relayEffect_of_next hs with
  | failed context => exact stopped_stopRelay (hC (.inr ⟨context, rfl⟩))
  | crashed => exact stopped_stopRelay (hC (.inl rfl))
  | _ => rfl

lemma LoopInv.environment (h : LoopInv loop) {e : Environment P}
    (hs : (relayStore P).environment loop.store e = some σ') :
    LoopInv { loop with store := σ' } := by
  cases e with
  | call c step =>
    have he := callEffect_of_next hs
    have hstopped : σ'.stopped = loop.store.stopped := by
      cases he <;> rfl
    refine ⟨h.reachable.next (a := .call c step) hs, hstopped.trans h.stopped, ?_, ?_⟩
    · rw [he.relays_eq]
      exact h.ahead
    · rw [he.relays_eq]
      exact h.current
  | rollback r =>
    have hs : loop.store.relayNext r .rollback = some σ' := hs
    have hrelays : σ'.relays = loop.store.relays := by
      cases relayEffect_of_next hs with
      | ended => simp [State.putRelay]
    have hstopped := stopped_of_next (by simp) hs
    refine ⟨h.reachable.next (a := .relay r .rollback) hs, hstopped.trans h.stopped, ?_, ?_⟩
    · rw [hrelays]
      exact h.ahead
    · rw [hrelays]
      exact h.current

/-- A step of the current call that does not stop it after its publish. -/
lemma LoopInv.relay (h : LoopInv loop) (hrunning : loop.running = true) {step : RelayStep}
    (hs : loop.store.relayNext loop.turn step = some σ') (hstopped : σ'.stopped = []) :
    LoopInv { loop with store := σ' } := by
  have he := relayEffect_of_next hs
  refine ⟨h.reachable.next (a := .relay loop.turn step) hs, hstopped, ?_, ?_⟩
  · intro r hr
    exact (he.relays_ne (Nat.ne_of_gt hr)).trans (h.ahead r hr)
  · intro r o ho
    by_cases hturn : r = loop.turn
    · exact ⟨hturn, hrunning⟩
    · exact h.current r o (he.relays_ne hturn ▸ ho)

/-- A loop that has returned has left no call between its publish and its commit. -/
lemma LoopInv.none_of_stopped (h : LoopInv loop) (hstopped : loop.running = false) (r : ℕ) :
    (loop.store.relays r).delivered = none := by
  by_contra hsome
  obtain ⟨o, ho⟩ := Option.ne_none_iff_exists'.mp hsome
  rw [(h.current r o ho).2] at hstopped
  cases hstopped

lemma LoopInv.none_of_ended (h : LoopInv loop)
    (hended : (relayStore P).ended loop.store loop.turn = true) (r : ℕ) :
    (loop.store.relays r).delivered = none := by
  by_contra hsome
  obtain ⟨o, ho⟩ := Option.ne_none_iff_exists'.mp hsome
  obtain ⟨rfl, -⟩ := h.current r o ho
  cases hr : loop.store.relays loop.turn with
  | published => simp [relayStore, hr] at hended
  | marked => simp [relayStore, hr] at hended
  | _ => simp [hr, Relay.delivered] at ho

/-- Another turn begins after a call that has left nothing to commit. -/
lemma LoopInv.nextTurn (h : LoopInv loop) (hnone : ∀ r, (loop.store.relays r).delivered = none) :
    LoopInv { loop with turn := loop.turn + 1, running := true } := by
  refine ⟨h.reachable, h.stopped, fun r hr => h.ahead r (Nat.lt_of_succ_lt hr), ?_⟩
  intro r o ho
  simp [hnone r] at ho

/-- The shutdown drops a call that has published nothing. -/
lemma LoopInv.drop (h : LoopInv loop)
    (hnone : (loop.store.relays loop.turn).delivered = none)
    (hended : (relayStore P).ended loop.store loop.turn = false) :
    LoopInv
      { loop with store := loop.store.stopRelay loop.turn .crashed, running := false } := by
  have hreach : (system P).Reachable (loop.store.stopRelay loop.turn .crashed) := by
    cases hr : loop.store.relays loop.turn with
    | crashed =>
      have hself : Function.update loop.store.relays loop.turn .crashed = loop.store.relays := by
        rw [← hr, Function.update_eq_self]
      have hsame : loop.store.stopRelay loop.turn .crashed = loop.store := by
        simp [State.stopRelay, State.putRelay, hself, hr, Relay.delivered]
      rw [hsame]
      exact h.reachable
    | returned result => simp [relayStore, hr] at hended
    | _ =>
      refine h.reachable.next (a := .relay loop.turn .crash) ?_
      simp [system, State.next, State.relayNext, hr]
  refine ⟨hreach, (stopped_stopRelay hnone).trans h.stopped, ?_, ?_⟩
  · intro r hr
    simp only [State.stopRelay, State.putRelay]
    rw [Function.update_of_ne (Nat.ne_of_gt hr)]
    exact h.ahead r hr
  · intro r o ho
    by_cases hturn : r = loop.turn
    · subst hturn
      simp [State.stopRelay, State.putRelay, Relay.delivered] at ho
    · have ho : (loop.store.relays r).delivered = some o := by
        simpa [State.stopRelay, State.putRelay, hturn] using ho
      exact absurd (h.current r o ho).1 hturn

lemma loopInv_of_reachable (h : (relayStore P).loop.ReachBy Uncut loop) : LoopInv loop := by
  refine System.ReachBy.invariant (P := LoopInv) ?_ ?_ h
  · rintro loop ⟨hinit, -, -⟩
    have hstore : loop.store = .initial := hinit
    refine ⟨.init hstore, ?_, ?_, ?_⟩ <;> simp [hstore, State.initial, Relay.delivered]
  · intro loop step loop' _ hinv hC hs
    cases step with
    | environment e =>
      obtain ⟨σ, hσ, rfl⟩ := RelayLoop.next_environment hs
      exact hinv.environment hσ
    | relay step =>
      obtain ⟨hrunning, σ, hσ, rfl⟩ := RelayLoop.next_relay hs
      have hnot : step ≠ .crash := by
        rintro rfl
        cases hσ
      have hσ : loop.store.relayNext loop.turn step = some σ := by
        cases step with
        | crash => exact absurd rfl hnot
        | _ => exact hσ
      refine hinv.relay hrunning hσ ((stopped_of_next ?_ hσ).trans hinv.stopped)
      rintro (hcrash | ⟨context, rfl⟩)
      · exact absurd hcrash hnot
      · exact hC
    | again =>
      obtain ⟨hrunning, hended, rfl⟩ := RelayLoop.next_again hs
      have hnext := hinv.nextTurn (hinv.none_of_ended hended)
      rwa [← hrunning] at hnext
    | shutdown =>
      obtain ⟨-, hended, rfl⟩ := RelayLoop.next_shutdown hs
      exact hinv.drop hC hended
    | run =>
      have hs : loop.next (relayStore P) .run = some loop' := hs
      obtain ⟨hstopped, rfl⟩ := RelayLoop.next_run hs
      exact hinv.nextTurn (hinv.none_of_stopped hstopped)

/-! ### Every run -/

/-- Where no call is between its publish and its commit, what is published is dispatched. -/
lemma LoopInv.settled (h : LoopInv loop)
    (hnone : ∀ r, (loop.store.relays r).delivered = none) :
    Settled loop.store.db.outbox loop.store.published := by
  intro id hid
  have hbalanced := Delivery.balanced_of_reachable (simulates_delivery.reachable h.reachable)
  by_contra hpending
  have hflight : id ∉ loop.store.deliveries.inFlight := by
    rintro ⟨r, o, ho, -⟩
    simp [hnone r] at ho
  have hcount : loop.store.published.count id = loop.store.stopped.count id :=
    hbalanced.free id hflight hpending
  rw [h.stopped, List.count_nil] at hcount
  exact List.count_eq_zero.mp hcount hid

/-- In runs in which no call of the loop is cut, every entry is published once, and every
published entry is dispatched when `run_relay_loop` has returned. -/
theorem relay_loop_settled (h : (relayStore P).loop.ReachBy Uncut loop) :
    loop.store.published.Nodup ∧
      (loop.running = false → Settled loop.store.db.outbox loop.store.published) := by
  have hinv := loopInv_of_reachable h
  have hbounded := relay_publishes_bounded hinv.reachable
  refine ⟨List.nodup_iff_count_le_one.mpr (hbounded.2.2.2.2 hinv.stopped), fun hstopped => ?_⟩
  exact hinv.settled (hinv.none_of_stopped hstopped)

/-- A shutdown leaves a published entry pending if and only if it cuts a call. -/
theorem shutdown_settled_iff (h : (relayStore P).loop.ReachBy Uncut loop)
    (hs : loop.next (relayStore P) .shutdown = some loop') :
    Settled loop'.store.db.outbox loop'.store.published ↔ Uncut loop .shutdown := by
  have hinv := loopInv_of_reachable h
  have hnext := hs
  obtain ⟨-, -, rfl⟩ := RelayLoop.next_shutdown hs
  constructor
  · intro hsettled
    by_contra hcut
    obtain ⟨o, ho⟩ := Option.ne_none_iff_exists'.mp hcut
    have hentry := Relay.entry_of_delivered ho
    have hbalanced := Delivery.balanced_of_reachable (simulates_delivery.reachable hinv.reachable)
    have hcount : loop.store.published.count o.eventId = loop.store.stopped.count o.eventId + 1 :=
      hbalanced.taken o.eventId (.inl (inFlight_of_delivered ho))
    have hpublished : o.eventId ∈ loop.store.published := List.count_pos_iff.mp (by omega)
    exact (relaysHold_of_reachable hinv.reachable loop.turn o hentry).not_done
      (hsettled o.eventId hpublished)
  · intro hC
    exact (relay_loop_settled (h.step hC hnext)).2 rfl

end EventSourcing.Postgres
