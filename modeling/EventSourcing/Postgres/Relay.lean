import EventSourcing.Postgres.Append
import EventSourcing.Store.Deliveries

/-!
# Relay workers of the PostgreSQL store

A worker locks the row of the entry it publishes until its transaction ends, and the row it has
locked is not dispatched (`State.HoldsEntry`). So the publishes, marks and stops of all workers
together are a run of `Delivery` (`simulates_delivery`), where every publish beyond the first
is paid for by a worker that stopped before its commit.
-/

namespace EventSourcing.Postgres

open Concurrency

variable {P : Type} {σ σ' : State P}

/-- The entry a relay call has locked. -/
def Relay.entry : Relay P → Option (OutboxEntry P)
  | .selected o => some o
  | .published o => some o
  | .marked o => some o
  | _ => none

lemma Relay.entry_of_delivered {relay : Relay P} {o : OutboxEntry P}
    (h : relay.delivered = some o) : relay.entry = some o := by
  cases relay with
  | published => exact h
  | marked => exact h
  | _ => cases h

/-! ### The locked row -/

namespace State

/-- Relay `r` holds the row of entry `o`, which is pending. -/
structure HoldsEntry (σ : State P) (r : ℕ) (o : OutboxEntry P) : Prop where
  holder : σ.engine.holder (.outbox o.eventId) = some (.relay r)
  row : σ.db.outbox.filter (·.eventId = o.eventId) = [o]
  pending : o.dispatched = false

/-- Every relay holds the entry it is working on. -/
def RelaysHold (σ : State P) : Prop :=
  ∀ r o, (σ.relays r).entry = some o → σ.HoldsEntry r o

lemma HoldsEntry.mem {r : ℕ} {o : OutboxEntry P} (h : σ.HoldsEntry r o) : o ∈ σ.db.outbox := by
  have hmem : o ∈ σ.db.outbox.filter (·.eventId = o.eventId) := by simp [h.row]
  exact (List.mem_filter.mp hmem).1

lemma HoldsEntry.undisturbed {r : ℕ} {o : OutboxEntry P} (h : σ.HoldsEntry r o)
    (hu : Txns.Undisturbed (.relay r) σ.engine σ'.engine) : σ'.HoldsEntry r o where
  holder := hu.holder _ h.holder
  row := (hu.read (.outbox o.eventId) h.holder).trans h.row
  pending := h.pending

end State

/-- The row a relay selects is pending and of an id of its own. -/
lemma nextPending_row {r : ℕ} {o : OutboxEntry P}
    (hids : (σ.db.outbox.map (·.eventId)).Nodup) (hn : σ.nextPending r = some o) :
    σ.db.outbox.filter (·.eventId = o.eventId) = [o] ∧ o.dispatched = false := by
  have hmem := (List.mem_insertionSort _).mp (List.mem_of_mem_head? hn)
  obtain ⟨hmem, hpending⟩ := List.mem_filter.mp hmem
  have hdispatched : o.dispatched = false := by
    cases hd : o.dispatched
    · rfl
    · simp [hd] at hpending
  exact ⟨filter_eq_singleton hids hmem, hdispatched⟩

/-- A relay keeps or gives up the row it holds. -/
lemma RelayEffect.holdsEntry_self {r : ℕ} {step : RelayStep} (he : RelayEffect σ r step σ')
    (h : σ.RelaysHold)
    (hids : (σ.db.outbox.map (·.eventId)).Nodup) {o : OutboxEntry P}
    (ho : (σ'.relays r).entry = some o) : σ'.HoldsEntry r o := by
  cases he with
  | selected o' engine hr hn hl =>
    obtain rfl : o' = o := by simpa [Relay.entry] using ho
    obtain ⟨hrow, hpending⟩ := nextPending_row hids hn
    obtain ⟨-, rfl⟩ := Txns.lock_eq_some.mp hl
    exact ⟨by simp, hrow, hpending⟩
  | published o' hr =>
    obtain rfl : o' = o := by simpa [Relay.entry, State.putRelay] using ho
    have hself := h r o' (by simp [hr, Relay.entry])
    exact ⟨hself.holder, hself.row, hself.pending⟩
  | marked o' now engine hr hw =>
    obtain rfl : o' = o := by simpa [Relay.entry] using ho
    have hself := h r o' (by simp [hr, Relay.entry])
    have hwrote := Txns.wrote_of_write hw
    have hdb : engine.db = σ.db := hwrote.db
    refine ⟨hwrote.holder _ _ hself.holder, ?_, hself.pending⟩
    change engine.db.outbox.filter _ = _
    rw [hdb, hself.row]
  | failed => simp [Relay.entry, State.stopRelay, State.putRelay] at ho
  | crashed => simp [Relay.entry, State.stopRelay, State.putRelay] at ho
  | ended hr =>
    rcases hr with hr | ⟨result, hr⟩
    · simp [Relay.entry, hr] at ho
    · simp [Relay.entry, hr] at ho
  | started => simp [Relay.entry] at ho
  | drained => simp [Relay.entry] at ho
  | refused => simp [Relay.entry] at ho
  | committed => simp [Relay.entry] at ho

lemma relaysHold_of_reachable (h : (system P).Reachable σ) : σ.RelaysHold := by
  refine System.ReachBy.invariant (P := State.RelaysHold) ?_ ?_ h
  · rintro _ rfl r o ho
    cases ho
  · intro σ a σ' hσ hhold _ hs r o ho
    have hengine := (inv_of_reachable hσ).engine
    cases a with
    | call c step =>
      have he := callEffect_of_next hs
      rw [he.relays_eq] at ho
      exact (hhold r o ho).undisturbed (he.undisturbed hengine (by simp))
    | relay r' step =>
      have he := relayEffect_of_next hs
      by_cases hr : r = r'
      · subst hr
        exact he.holdsEntry_self hhold (mirrors_of_reachable hσ).outbox_ids ho
      · rw [he.relays_ne hr] at ho
        exact (hhold r o ho).undisturbed (he.undisturbed hengine (by simpa using hr))

/-- Two relays never hold entries of one id. -/
lemma State.RelaysHold.unique (h : σ.RelaysHold) {r r' : ℕ} {o o' : OutboxEntry P}
    (ho : (σ.relays r).entry = some o) (ho' : (σ.relays r').entry = some o')
    (hid : o.eventId = o'.eventId) : r = r' := by
  have hholder := (h r o ho).holder
  rw [hid, (h r' o' ho').holder] at hholder
  simpa [eq_comm] using hholder

/-! ### The deliveries -/

/-- The entries published and dispatched, whoever works on them. -/
def State.deliveries (σ : State P) : Delivery String :=
  EventSourcing.deliveries (fun r => (σ.relays r).delivered) σ.db.outbox σ.published σ.stopped

/-- The deliveries stay if relay `r` keeps what it has delivered and the outbox stays. -/
lemma deliveries_keep {r : ℕ} {relay : Relay P} (engine : Engine P) (hdb : engine.db = σ.db)
    (hd : relay.delivered = (σ.relays r).delivered) :
    (σ.putRelay r engine relay).deliveries = σ.deliveries := by
  simp only [State.deliveries, State.putRelay_db, hdb]
  simp only [State.putRelay, read_update Relay.delivered, hd, Function.update_eq_self]

lemma State.RelaysHold.apart (h : σ.RelaysHold) : Apart fun r => (σ.relays r).delivered :=
  fun _ _ _ _ ho ho' hid =>
    h.unique (Relay.entry_of_delivered ho) (Relay.entry_of_delivered ho') hid

/-- An entry a relay holds is not dispatched. -/
lemma State.HoldsEntry.not_done {r : ℕ} {o : OutboxEntry P} (h : σ.HoldsEntry r o) :
    o.eventId ∉ σ.deliveries.done := by
  rintro ⟨o', hmem, hid, hdispatched⟩
  have hrow : o' ∈ σ.db.outbox.filter (·.eventId = o.eventId) :=
    List.mem_filter.mpr ⟨hmem, by simp [hid]⟩
  rw [h.row, List.mem_singleton] at hrow
  simp [hrow, h.pending] at hdispatched

/-- Append calls deliver nothing, and the entries they write are pending. -/
lemma CallEffect.deliveries_eq {c : ℕ} {step : CallStep P} (he : CallEffect σ c step σ')
    (h : σ.Inv) : σ'.deliveries = σ.deliveries := by
  have hhistory : σ'.published = σ.published ∧ σ'.stopped = σ.stopped := by
    cases he <;> exact ⟨rfl, rfl⟩
  simp only [State.deliveries, he.relays_eq, hhistory.1, hhistory.2]
  rcases he.db_cases h with ⟨hdb, -⟩ | ⟨-, commit, -, hc⟩
  · rw [hdb]
  · rw [hc.db]
    exact deliveries_entries commit

/-- A relay that stops gives up what it has delivered. -/
lemma deliveries_stopRelay {r : ℕ} (h : σ.RelaysHold) {relay : Relay P}
    (hend : relay.delivered = none) : (σ.stopRelay r relay).deliveries = σ.deliveries ∨
      ∃ b, (Delivery.system String).next σ.deliveries b
        = some (σ.stopRelay r relay).deliveries := by
  cases hd : (σ.relays r).delivered with
  | none =>
    have hkeep := deliveries_keep (σ := σ) σ.engine rfl (hend.trans hd.symm)
    have hstop : σ.stopRelay r relay = σ.putRelay r σ.engine relay := by
      simp [State.stopRelay, hd, State.putRelay]
    exact .inl (hstop ▸ hkeep)
  | some o =>
    refine .inr ⟨.stop o.eventId, (deliveries_stop h.apart hd).trans (congrArg some ?_)⟩
    simp only [State.deliveries, State.stopRelay, State.putRelay, read_update Relay.delivered,
      hend, hd]
    rfl

/-- A step of a relay is a step of the deliveries or none. -/
lemma RelayEffect.deliveries_next {r : ℕ} {step : RelayStep} (he : RelayEffect σ r step σ')
    (h : σ.RelaysHold) (hinv : σ.RelayInv r) : σ'.deliveries = σ.deliveries ∨
      ∃ b, (Delivery.system String).next σ.deliveries b = some σ'.deliveries := by
  cases he with
  | started hr => exact .inl (deliveries_keep _ rfl (by simp [hr, Relay.delivered]))
  | drained hr hn => exact .inl (deliveries_keep _ rfl (by simp [hr, Relay.delivered]))
  | selected o engine hr hn hl =>
    obtain ⟨-, rfl⟩ := Txns.lock_eq_some.mp hl
    exact .inl (deliveries_keep _ rfl (by simp [hr, Relay.delivered]))
  | refused o hr => exact .inl (deliveries_keep _ rfl (by simp [hr, Relay.delivered]))
  | ended hr => exact .inl (deliveries_keep _ rfl rfl)
  | marked o now engine hr hw =>
    exact .inl (deliveries_keep engine (Txns.wrote_of_write hw).db (by simp [hr, Relay.delivered]))
  | published o hr =>
    have hentry : (σ.relays r).entry = some o := by simp [hr, Relay.entry]
    have hnot : o.eventId ∉ σ.deliveries.inFlight := by
      -- whoever has delivered it would hold the row of `r`
      rintro ⟨r', o', ho', hid⟩
      obtain rfl := h.unique (Relay.entry_of_delivered ho') hentry hid
      simp [hr, Relay.delivered] at ho'
    refine .inr ⟨.publish o.eventId, ?_⟩
    refine (deliveries_publish (r := r) (by simp [hr, Relay.delivered]) hnot
      (h r o hentry).not_done).trans (congrArg some ?_)
    simp only [State.deliveries, State.putRelay, read_update Relay.delivered]
    rfl
  | committed o acknowledged hr =>
    have hdelivered : (σ.relays r).delivered = some o := by simp [hr, Relay.delivered]
    have hhold := h r o (Relay.entry_of_delivered hdelivered)
    simp only [State.RelayInv, hr] at hinv
    obtain ⟨now, hw⟩ := hinv
    refine .inr ⟨.complete o.eventId,
      (deliveries_complete h.apart hdelivered hhold.mem now).trans (congrArg some ?_)⟩
    have hdb : (σ.engine.commit (.relay r)).db = σ.db.apply (.setDispatched o.eventId now) := by
      change Items.applyAll σ.db (σ.engine.writes (.relay r)) = _
      rw [hw]
      rfl
    simp only [State.deliveries, State.putRelay_db, hdb]
    simp only [State.putRelay, read_update Relay.delivered]
    rfl
  | failed => exact deliveries_stopRelay h rfl
  | crashed => exact deliveries_stopRelay h rfl

/-- The publishes, marks and stops of all workers are a run of the deliveries. -/
theorem simulates_delivery :
    System.Simulation (system P) (Delivery.system String) State.deliveries where
  init := by
    rintro _ rfl
    refine Delivery.ext ?_ ?_ rfl rfl
    · simp [State.deliveries, EventSourcing.deliveries, State.initial, Relay.delivered]
    · simp [State.deliveries, EventSourcing.deliveries, State.initial, State.db, Txns.idle,
        Database.fresh]
  next σ a σ' h _ hs := by
    cases a with
    | call c step => exact .inl ((callEffect_of_next hs).deliveries_eq (inv_of_reachable h))
    | relay r step =>
      exact (relayEffect_of_next hs).deliveries_next (relaysHold_of_reachable h)
        ((inv_of_reachable h).relays r)

/-! ### Every run -/

/-- A dispatched entry has been published. -/
lemma published_of_dispatched (h : (system P).Reachable σ) {o : OutboxEntry P}
    (ho : o ∈ σ.db.outbox) (hdispatched : o.dispatched = true) : o.eventId ∈ σ.published := by
  have hbalanced := Delivery.balanced_of_reachable (simulates_delivery.reachable h)
  have hcount : σ.published.count o.eventId = σ.stopped.count o.eventId + 1 :=
    hbalanced.count_of_done ⟨o, ho, rfl, hdispatched⟩
  exact List.count_pos_iff.mp (by omega)

/-- In every run no entry is held by two workers, a dispatched entry has been published and is
not published again, and an entry is published at most once more often than a worker stopped
on it between its publish and its commit. -/
theorem relay_publishes_bounded (h : (system P).Reachable σ) :
    (∀ r r' o o', r ≠ r' → (σ.relays r).entry = some o → (σ.relays r').entry = some o' →
      o.eventId ≠ o'.eventId) ∧
    (∀ o ∈ σ.db.outbox, o.dispatched = true → o.eventId ∈ σ.published) ∧
    (∀ o ∈ σ.db.outbox, o.dispatched = true → ∀ σ', (system P).Later σ σ' →
      σ'.published.count o.eventId = σ.published.count o.eventId) ∧
    (∀ id, σ.published.count id ≤ 1 + σ.stopped.count id) ∧
    (σ.stopped = [] → ∀ id, σ.published.count id ≤ 1) := by
  have hreach := simulates_delivery.reachable h
  have hbalanced := Delivery.balanced_of_reachable hreach
  refine ⟨?_, ?_, ?_, hbalanced.count_le, ?_⟩
  · exact fun r r' o o' hr ho ho' hid =>
      hr ((relaysHold_of_reachable h).unique ho ho' hid)
  · intro o ho hdispatched
    exact published_of_dispatched h ho hdispatched
  · intro o ho hdispatched σ' hl
    exact (Delivery.done_of_later hreach ⟨o, ho, rfl, hdispatched⟩
      (simulates_delivery.later h hl)).2
  · intro hstopped id
    have hle : σ.published.count id ≤ 1 + σ.stopped.count id := hbalanced.count_le id
    simpa [hstopped] using hle

/-- Two workers take one entry each; the first crashes after its publish, and a third worker
publishes its entry again. -/
def crashedRelayRun : List (Action ℕ) :=
  let append (c : ℕ) (s id : String) (g : Int) : List (Action ℕ) :=
    [.call c (.invoke ⟨.appendWithOutbox, s, "OrderPlaced", 1, some 0⟩), .call c .advanceVersion,
      .call c (.drawPosition g), .call c (.insertEvent id "t"), .call c .insertOutbox,
      .call c (.commit true)]
  append 0 "order-1" "e0" 1 ++ append 1 "order-2" "e1" 2 ++
  [.relay 0 .start, .relay 0 .select, .relay 1 .start, .relay 1 .select,
    .relay 0 (.publish true), .relay 1 (.publish true), .relay 0 .crash, .relay 0 .rollback,
    .relay 1 (.mark "t"), .relay 1 (.commit true), .relay 2 .start, .relay 2 .select,
    .relay 2 (.publish true), .relay 2 (.mark "t"), .relay 2 (.commit true)]

theorem relay_publishes_bounded_crash :
    let σ := (system ℕ).after crashedRelayRun .initial
    σ.published = ["e0", "e1", "e0"] ∧ σ.stopped = ["e0"] ∧
      ∀ id, σ.published.count id ≤ 1 + σ.stopped.count id := by
  have h := relay_publishes_bounded (P := ℕ)
    (System.reachable_after crashedRelayRun init_initial (by decide))
  exact ⟨by decide, by decide, h.2.2.2.1⟩

end EventSourcing.Postgres
