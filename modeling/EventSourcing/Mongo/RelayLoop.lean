import EventSourcing.Mongo.Relay
import EventSourcing.Store.RelayLoop

/-!
# The relay loop of the MongoDB store

One loop, with append calls beside it. Its relay calls hold no transaction open, so a call that
is dropped between its publish and its mark leaves the entry pending, and the next loop publishes
it again. A loop that no call leaves there publishes every entry once.
-/

namespace EventSourcing.Mongo

open Concurrency

variable {P : Type} {σ σ' : State P} {loop loop' : RelayLoop (State P)}

/-- The store beside the loop: append calls. Dropping a relay call changes nothing in it. -/
def relayStore (P : Type) : RelayStore (State P) (ℕ × CallStep P) RelayStep where
  init σ := σ = .initial
  environment σ e := σ.callNext e.1 e.2
  relay σ r step := σ.relayNext r step
  ended σ r :=
    match σ.relays r with
    | .returned _ => true
    | _ => false
  dropRelay σ _ := σ

/-- The ids of the entries whose publish has succeeded. -/
def State.publishedIds (σ : State P) : List String := σ.published.map OutboxEntry.eventId

/-- No call of the loop ends between its publish and its mark, dropped by the shutdown or with an
error of `update_one`. -/
def Uncut (loop : RelayLoop (State P)) : LoopStep (ℕ × CallStep P) RelayStep → Prop
  | .shutdown => (loop.store.relays loop.turn).delivered = none
  | .relay .fail => (loop.store.relays loop.turn).delivered = none
  | _ => True

instance (loop : RelayLoop (State P)) :
    (step : LoopStep (ℕ × CallStep P) RelayStep) → Decidable (Uncut loop step)
  | .shutdown | .relay .fail => decidable_of_iff' _ Option.isNone_iff_eq_none.symm
  | .relay (.find _) | .relay (.publish _) | .relay (.mark _ _) => isTrue trivial
  | .environment _ | .again | .run => isTrue trivial

/-! ### What a relay call of the loop can do -/

inductive TurnEffect (σ : State P) (r : ℕ) : State P → Prop where
  | found (o : OutboxEntry P) (h : σ.relays r = .idle) (ho : o ∈ σ.db.outbox)
      (hd : o.dispatched = false) : TurnEffect σ r (σ.putRelay r (.found o))
  | published (o : OutboxEntry P) (h : σ.relays r = .found o) :
      TurnEffect σ r { σ.putRelay r (.published o) with published := σ.published ++ [o] }
  | marked (o : OutboxEntry P) (now : String) (result : Except String Bool) (engine : Engine P)
      (h : σ.relays r = .published o)
      (hw : (σ.engine.start (.relay r)).write (.relay r) (.setDispatched o.eventId now)
        = some engine) :
      TurnEffect σ r
        { σ.putRelay r (.returned result) with engine := engine.commit (.relay r) }
  | ended (result : Except String Bool) (h : (σ.relays r).delivered = none) :
      TurnEffect σ r (σ.putRelay r (.returned result))

lemma turnEffect_of_next {r : ℕ} {step : RelayStep}
    (hC : step = .fail → (σ.relays r).delivered = none) (hs : σ.relayNext r step = some σ') :
    TurnEffect σ r σ' := by
  cases step with
  | mark now acknowledged =>
    simp only [State.relayNext] at hs
    split at hs
    · rename_i o hr
      simp only [State.markDispatched, Option.map_map, Option.map_eq_some_iff] at hs
      obtain ⟨engine, hw, rfl⟩ := hs
      exact .marked o now _ engine hr hw
    · cases hs
  | find eventId =>
    have hidle : σ.relays r = .idle := by
      by_contra hr
      simp [State.relayNext] at hs
    cases relayEffect_of_next hs with
    | found o hr ho hd => exact .found o hr ho hd
    | drained => exact .ended _ (by simp [hidle, Relay.delivered])
    | published o hr => simp [hidle] at hr
    | marked _ _ _ _ hr => simp [hidle] at hr
    | failed => exact .ended _ (by simp [hidle, Relay.delivered])
  | publish succeeds =>
    obtain ⟨o, hfound⟩ : ∃ o, σ.relays r = .found o := by
      simp only [State.relayNext] at hs
      split at hs
      · exact ⟨_, ‹_›⟩
      · cases hs
    cases relayEffect_of_next hs with
    | published o hr => exact .published o hr
    | found _ hr => simp [hfound] at hr
    | drained hr => simp [hfound] at hr
    | marked _ _ _ _ hr => simp [hfound] at hr
    | failed => exact .ended _ (by simp [hfound, Relay.delivered])
  | fail =>
    have hnone := hC rfl
    simp only [State.relayNext] at hs
    split at hs
    · obtain rfl := Option.some.inj hs
      exact .ended _ hnone
    · obtain rfl := Option.some.inj hs
      exact .ended _ hnone
    · cases hs

/-! ### The invariant -/

/-- What the loop has published is dispatched, but for what the current call has published and
will mark; what the current call works on is pending. -/
structure LoopInv (loop : RelayLoop (State P)) : Prop where
  reachable : (system P).Reachable loop.store
  ahead : ∀ r, loop.turn < r → loop.store.relays r = .idle
  current : ∀ r o, (loop.store.relays r).delivered = some o → r = loop.turn ∧ loop.running = true
  published : ∀ id ∈ loop.store.publishedIds,
    (∃ o ∈ loop.store.db.outbox, o.eventId = id ∧ o.dispatched = true) ∨
      ∃ o, (loop.store.relays loop.turn).delivered = some o ∧ o.eventId = id
  nodup : loop.store.publishedIds.Nodup
  delivered : ∀ o, (loop.store.relays loop.turn).delivered = some o →
    o.eventId ∈ loop.store.publishedIds
  pending : ∀ o, (loop.store.relays loop.turn).entry = some o → loop.running = true →
    o ∈ loop.store.db.outbox ∧
      ∀ o' ∈ loop.store.db.outbox, o'.eventId = o.eventId → o'.dispatched = false

lemma LoopInv.settled (h : LoopInv loop) (hnone : (loop.store.relays loop.turn).delivered = none) :
    Settled loop.store.db.outbox loop.store.publishedIds := by
  intro id hid
  rcases h.published id hid with hdispatched | ⟨o, ho, -⟩
  · exact hdispatched
  · rw [hnone] at ho
    cases ho

/-- Append calls add pending entries only. -/
lemma LoopInv.call (h : LoopInv loop) {c : ℕ} {step : CallStep P}
    (hs : loop.store.callNext c step = some σ') : LoopInv { loop with store := σ' } := by
  have he := callEffect_of_next hs
  have hpublished : σ'.published = loop.store.published := by
    cases he <;> rfl
  have houtbox : ∃ entries : List (OutboxEntry P), (∀ o ∈ entries, o.dispatched = false) ∧
      σ'.db.outbox = loop.store.db.outbox ++ entries := by
    rcases he.db_cases (inv_of_reachable h.reachable) with ⟨hdb, -⟩ | ⟨-, commit, -, hc⟩
    · exact ⟨[], by simp, by rw [hdb, List.append_nil]⟩
    · exact ⟨commit.entries, fun o ho => commit.entries_pending ho, by rw [hc.db]; rfl⟩
  obtain ⟨entries, hentries, houtbox⟩ := houtbox
  refine ⟨h.reachable.next (a := .call c step) hs, ?_, ?_, ?_, ?_, ?_, ?_⟩
  · rw [he.relays_eq]
    exact h.ahead
  · rw [he.relays_eq]
    exact h.current
  · simp only [State.publishedIds, hpublished, he.relays_eq, houtbox]
    intro id hid
    rcases h.published id hid with ⟨o, ho, hdispatched⟩ | hcurrent
    · exact .inl ⟨o, List.mem_append_left _ ho, hdispatched⟩
    · exact .inr hcurrent
  · simpa only [State.publishedIds, hpublished] using h.nodup
  · simp only [State.publishedIds, hpublished, he.relays_eq]
    exact h.delivered
  · simp only [he.relays_eq, houtbox]
    intro o ho hrunning
    obtain ⟨hmem, hpending⟩ := h.pending o ho hrunning
    refine ⟨List.mem_append_left _ hmem, fun o' ho' hid => ?_⟩
    rcases List.mem_append.mp ho' with ho' | ho'
    · exact hpending o' ho' hid
    · exact hentries o' ho'

/-- The calls of later turns have not begun. -/
lemma LoopInv.ahead_putRelay (h : LoopInv loop) {relay : Relay P} :
    ∀ r, loop.turn < r → Function.update loop.store.relays loop.turn relay r = .idle := by
  intro r hr
  rw [Function.update_of_ne (Nat.ne_of_gt hr)]
  exact h.ahead r hr

/-- The current call moves on without a publish or a mark. -/
lemma LoopInv.move (h : LoopInv loop) {relay : Relay P}
    (hold : (loop.store.relays loop.turn).delivered = none) (hnew : relay.delivered = none)
    (hr : (system P).Reachable (loop.store.putRelay loop.turn relay))
    (hentry : ∀ o, relay.entry = some o → o ∈ loop.store.db.outbox ∧
      ∀ o' ∈ loop.store.db.outbox, o'.eventId = o.eventId → o'.dispatched = false) :
    LoopInv { loop with store := loop.store.putRelay loop.turn relay } := by
  refine ⟨hr, h.ahead_putRelay, ?_, ?_, h.nodup, ?_, ?_⟩
  · intro r o ho
    by_cases hturn : r = loop.turn
    · subst hturn
      simp [hnew] at ho
    · exact h.current r o (by simpa [State.putRelay, hturn] using ho)
  · exact fun id hid => .inl (h.settled hold id hid)
  · intro o ho
    simp [hnew] at ho
  · intro o ho _
    exact hentry o (by simpa using ho)

/-- The current call publishes the entry it has found, for the first time. -/
lemma LoopInv.publish (h : LoopInv loop) (hrunning : loop.running = true) {o : OutboxEntry P}
    (hr : loop.store.relays loop.turn = .found o)
    (hreach : (system P).Reachable
      { loop.store.putRelay loop.turn (.published o) with
        published := loop.store.published ++ [o] }) :
    LoopInv { loop with
      store := { loop.store.putRelay loop.turn (.published o) with
        published := loop.store.published ++ [o] } } := by
  have hentry : (loop.store.relays loop.turn).entry = some o := by simp [hr, Relay.entry]
  have hnone : (loop.store.relays loop.turn).delivered = none := by simp [hr, Relay.delivered]
  have hpending := h.pending o hentry hrunning
  -- an entry that is published already would be dispatched
  have hnew : o.eventId ∉ loop.store.publishedIds := by
    intro hid
    obtain ⟨o', ho', hid', hdispatched⟩ := h.settled hnone _ hid
    rw [hpending.2 o' ho' hid'] at hdispatched
    cases hdispatched
  have hids' : (State.publishedIds
      { loop.store.putRelay loop.turn (.published o) with
        published := loop.store.published ++ [o] })
      = loop.store.publishedIds ++ [o.eventId] := by
    simp [State.publishedIds]
  refine ⟨hreach, h.ahead_putRelay, ?_, ?_, ?_, ?_, ?_⟩
  · intro r o' ho'
    by_cases hturn : r = loop.turn
    · exact ⟨hturn, hrunning⟩
    · exact h.current r o' (by simpa [State.putRelay, hturn] using ho')
  · intro id hid
    rw [hids'] at hid
    rcases List.mem_append.mp hid with hid | hid
    · exact .inl (h.settled hnone id hid)
    · obtain rfl := List.mem_singleton.mp hid
      exact .inr ⟨o, by simp [State.putRelay, Relay.delivered], rfl⟩
  · rw [hids']
    exact h.nodup.append (List.nodup_singleton _) (by simpa using hnew)
  · intro o' ho'
    obtain rfl : o = o' := by simpa [State.putRelay, Relay.delivered] using ho'
    rw [hids']
    simp
  · intro o' ho' _
    obtain rfl : o = o' := by simpa [State.putRelay, Relay.entry] using ho'
    exact hpending

/-- The current call marks the entry it has published. -/
lemma LoopInv.mark (h : LoopInv loop) (hrunning : loop.running = true) {o : OutboxEntry P}
    {now : String} {result : Except String Bool} {engine : Engine P}
    (hr : loop.store.relays loop.turn = .published o)
    (houtbox : engine.db.outbox
      = loop.store.db.outbox.map (OutboxEntry.setDispatched o.eventId now))
    (hreach : (system P).Reachable
      { loop.store.putRelay loop.turn (.returned result) with engine := engine }) :
    LoopInv { loop with
      store := { loop.store.putRelay loop.turn (.returned result) with engine := engine } } := by
  have hentry : (loop.store.relays loop.turn).entry = some o := by simp [hr, Relay.entry]
  have hmem := (h.pending o hentry hrunning).1
  refine ⟨hreach, h.ahead_putRelay, ?_, ?_, h.nodup, ?_, ?_⟩
  · intro r o' ho'
    by_cases hturn : r = loop.turn
    · exact ⟨hturn, hrunning⟩
    · exact h.current r o' (by simpa [State.putRelay, hturn] using ho')
  · intro id hid
    left
    show ∃ o ∈ engine.db.outbox, _
    simp only [houtbox, List.mem_map, exists_exists_and_eq_and, OutboxEntry.eventId_setDispatched]
    rcases h.published id hid with ⟨o', ho', rfl, hdispatched⟩ | ⟨o', ho', rfl⟩
    · refine ⟨o', ho', rfl, ?_⟩
      simp only [OutboxEntry.setDispatched]
      split_ifs
      · rfl
      · exact hdispatched
    · obtain rfl : o = o' := by simpa [hr, Relay.delivered] using ho'
      exact ⟨o, hmem, rfl, by simp [OutboxEntry.setDispatched]⟩
  · intro o' ho'
    simp [State.putRelay, Relay.delivered] at ho'
  · intro o' ho'
    simp [State.putRelay, Relay.entry] at ho'

lemma LoopInv.relay (h : LoopInv loop) (hrunning : loop.running = true) {step : RelayStep}
    (hs : loop.store.relayNext loop.turn step = some σ')
    (hC : step = .fail → (loop.store.relays loop.turn).delivered = none) :
    LoopInv { loop with store := σ' } := by
  have hreach : (system P).Reachable σ' := h.reachable.next (a := .relay loop.turn step) hs
  have hids := (mirrors_of_reachable h.reachable).outbox_ids
  cases turnEffect_of_next hC hs with
  | found o hr ho hd =>
    refine h.move (by simp [hr, Relay.delivered]) rfl hreach fun o' ho' => ?_
    obtain rfl : o = o' := by simpa [Relay.entry] using ho'
    refine ⟨ho, fun o'' ho'' hid => ?_⟩
    rw [List.inj_on_of_nodup_map hids ho'' ho hid, hd]
  | ended result hnone =>
    exact h.move hnone rfl hreach fun o ho => by simp [Relay.entry] at ho
  | published o hr => exact h.publish hrunning hr hreach
  | marked o now result engine hr hw =>
    have houtbox : (engine.commit (.relay loop.turn)).db.outbox
        = loop.store.db.outbox.map (OutboxEntry.setDispatched o.eventId now) := by
      rw [db_of_mark (inv_of_reachable h.reachable) hw]
      rfl
    exact h.mark hrunning hr houtbox hreach

/-- A loop that has returned has left no call between its publish and its mark. -/
lemma LoopInv.none_of_stopped (h : LoopInv loop) (hstopped : loop.running = false) (r : ℕ) :
    (loop.store.relays r).delivered = none := by
  by_contra hsome
  obtain ⟨o, ho⟩ := Option.ne_none_iff_exists'.mp hsome
  rw [(h.current r o ho).2] at hstopped
  cases hstopped

lemma LoopInv.none_of_ended (h : LoopInv loop)
    (hended : (relayStore P).ended loop.store loop.turn = true) (r : ℕ) :
    (loop.store.relays r).delivered = none := by
  by_contra hsome
  obtain ⟨o, ho⟩ := Option.ne_none_iff_exists'.mp hsome
  obtain ⟨rfl, -⟩ := h.current r o ho
  cases hr : loop.store.relays loop.turn with
  | published => simp [relayStore, hr] at hended
  | _ => simp [hr, Relay.delivered] at ho

/-- Another turn begins after a call that has left nothing to mark. -/
lemma LoopInv.nextTurn (h : LoopInv loop) (hnone : ∀ r, (loop.store.relays r).delivered = none) :
    LoopInv { loop with turn := loop.turn + 1, running := true } := by
  have hidle := h.ahead (loop.turn + 1) (Nat.lt_succ_self _)
  refine ⟨h.reachable, fun r hr => h.ahead r (Nat.lt_of_succ_lt hr), ?_, ?_, h.nodup, ?_, ?_⟩
  · intro r o ho
    simp [hnone r] at ho
  · exact fun id hid => .inl (h.settled (hnone _) id hid)
  · intro o ho
    simp [hnone] at ho
  · intro o ho
    simp [hidle, Relay.entry] at ho

lemma loopInv_of_reachable (h : (relayStore P).loop.ReachBy Uncut loop) : LoopInv loop := by
  refine System.ReachBy.invariant (P := LoopInv) ?_ ?_ h
  · rintro loop ⟨hinit, -, -⟩
    have hstore : loop.store = .initial := hinit
    refine ⟨.init hstore, ?_, ?_, ?_, ?_, ?_, ?_⟩ <;>
      simp [hstore, State.initial, Relay.delivered, Relay.entry, State.publishedIds]
  · intro loop step loop' _ hinv hC hs
    cases step with
    | environment e =>
      obtain ⟨σ, hσ, rfl⟩ := RelayLoop.next_environment hs
      exact hinv.call hσ
    | relay step =>
      obtain ⟨hrunning, σ, hσ, rfl⟩ := RelayLoop.next_relay hs
      exact hinv.relay hrunning hσ fun hfail => by subst hfail; exact hC
    | again =>
      obtain ⟨hrunning, hended, rfl⟩ := RelayLoop.next_again hs
      have hnext := hinv.nextTurn (hinv.none_of_ended hended)
      rwa [← hrunning] at hnext
    | shutdown =>
      obtain ⟨-, -, rfl⟩ := RelayLoop.next_shutdown hs
      have hnone : (loop.store.relays loop.turn).delivered = none := hC
      refine ⟨hinv.reachable, hinv.ahead, ?_, hinv.published, hinv.nodup, hinv.delivered, ?_⟩
      · intro r o ho
        obtain ⟨rfl, -⟩ := hinv.current r o ho
        exact absurd (hnone.symm.trans ho) (by simp)
      · simp
    | run =>
      have hs : loop.next (relayStore P) .run = some loop' := hs
      obtain ⟨hstopped, rfl⟩ := RelayLoop.next_run hs
      exact hinv.nextTurn (hinv.none_of_stopped hstopped)

/-- In runs in which no call of the loop is cut, every entry is published once, and every
published entry is dispatched when `run_relay_loop` has returned. -/
theorem relay_loop_settled (h : (relayStore P).loop.ReachBy Uncut loop) :
    loop.store.publishedIds.Nodup ∧
      (loop.running = false → Settled loop.store.db.outbox loop.store.publishedIds) := by
  have hinv := loopInv_of_reachable h
  exact ⟨hinv.nodup, fun hstopped => hinv.settled (hinv.none_of_stopped hstopped _)⟩

/-- A shutdown leaves a published entry pending if and only if it cuts a call. -/
theorem shutdown_settled_iff (h : (relayStore P).loop.ReachBy Uncut loop)
    (hs : loop.next (relayStore P) .shutdown = some loop') :
    Settled loop'.store.db.outbox loop'.store.publishedIds ↔ Uncut loop .shutdown := by
  have hinv := loopInv_of_reachable h
  obtain ⟨hrunning, -, rfl⟩ := RelayLoop.next_shutdown hs
  constructor
  · intro hsettled
    by_contra hcut
    obtain ⟨o, ho⟩ := Option.ne_none_iff_exists'.mp hcut
    obtain ⟨o', ho', hid, hdispatched⟩ := hsettled o.eventId (hinv.delivered o ho)
    rw [(hinv.pending o (Relay.entry_of_delivered ho) hrunning).2 o' ho' hid] at hdispatched
    cases hdispatched
  · exact hinv.settled

end EventSourcing.Mongo
