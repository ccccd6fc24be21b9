import EventSourcing.Mongo.Append
import EventSourcing.Store.Deliveries
import Mathlib.Tactic.FinCases

/-!
# Relays of the MongoDB store

The relay reads a pending entry, publishes it and marks it in three separate operations, and
nothing keeps another relay from reading the same entry in between: `doublePublishRun`
publishes an entry twice. As long as no entry is found while another relay is between finding
and marking it, the publishes and marks are a run of `Delivery` without stops
(`simulates_delivery`).
-/

namespace EventSourcing.Mongo

open Concurrency

variable {P : Type} {σ σ' : State P}

/-- The entry a relay call has found and not marked yet. -/
def Relay.entry : Relay P → Option (OutboxEntry P)
  | .found o => some o
  | .published o => some o
  | _ => none

/-- The entry a relay call has published and not marked yet. -/
def Relay.delivered : Relay P → Option (OutboxEntry P)
  | .published o => some o
  | _ => none

lemma Relay.entry_of_delivered {relay : Relay P} {o : OutboxEntry P}
    (h : relay.delivered = some o) : relay.entry = some o := by
  cases relay with
  | published => exact h
  | _ => cases h

/-! ### The runs in question -/

/-- Every query, publish and update of a relay succeeds. -/
def Action.Succeeds : Action P → Prop
  | .relay _ (.publish succeeds) => succeeds = true
  | .relay _ (.mark _ acknowledged) => acknowledged = true
  | .relay _ .fail => False
  | _ => True

/-- `find_one` answers with an entry that no relay is between finding and marking. -/
def FindsAlone (σ : State P) : Action P → Prop
  | .relay _ (.find (some id)) => ∀ r o, (σ.relays r).entry = some o → o.eventId ≠ id
  | _ => True

/-- What a successful step of relay `r` can do. -/
inductive RelaySuccess (σ : State P) (r : ℕ) : RelayStep → State P → Prop where
  | found (o : OutboxEntry P) (h : σ.relays r = .idle) (ho : o ∈ σ.db.outbox)
      (hd : o.dispatched = false) :
      RelaySuccess σ r (.find (some o.eventId)) (σ.putRelay r (.found o))
  | drained (h : σ.relays r = .idle) :
      RelaySuccess σ r (.find none) (σ.putRelay r (.returned (.ok false)))
  | published (o : OutboxEntry P) (h : σ.relays r = .found o) :
      RelaySuccess σ r (.publish true)
        { σ.putRelay r (.published o) with published := σ.published ++ [o] }
  | marked (o : OutboxEntry P) (now : String) (engine : Engine P) (h : σ.relays r = .published o)
      (hw : (σ.engine.start (.relay r)).write (.relay r) (.setDispatched o.eventId now)
        = some engine) :
      RelaySuccess σ r (.mark now true)
        { σ.putRelay r (.returned (.ok true)) with engine := engine.commit (.relay r) }

lemma relaySuccess_of_next {r : ℕ} {step : RelayStep} (hs : σ.relayNext r step = some σ')
    (h : (Action.relay r step : Action P).Succeeds) : RelaySuccess σ r step σ' := by
  cases step with
  | find eventId =>
    simp only [State.relayNext] at hs
    split at hs
    · rename_i hr
      split at hs
      · split_ifs at hs
        obtain rfl := Option.some.inj hs
        exact .drained hr
      · obtain ⟨o, ho, rfl⟩ := Option.map_eq_some_iff.mp hs
        have hp := List.find?_some ho
        simp only [Bool.and_eq_true, decide_eq_true_eq, Bool.not_eq_true'] at hp
        obtain ⟨rfl, hd⟩ := hp
        exact .found o hr (List.mem_of_find?_eq_some ho) hd
    · cases hs
  | publish succeeds =>
    obtain rfl : succeeds = true := h
    simp only [State.relayNext] at hs
    split at hs
    · rename_i o hr
      obtain rfl := Option.some.inj hs
      exact .published o hr
    · cases hs
  | mark now acknowledged =>
    obtain rfl : acknowledged = true := h
    simp only [State.relayNext] at hs
    split at hs
    · rename_i o hr
      simp only [State.markDispatched, Option.map_map, Option.map_eq_some_iff] at hs
      obtain ⟨engine, hw, rfl⟩ := hs
      exact .marked o now engine hr hw
    · cases hs
  | fail => exact h.elim

/-! ### One relay for each pending entry -/

/-- No two relays work on entries of one id, and what a relay works on is pending. -/
structure State.RelaysApart (σ : State P) : Prop where
  unique : ∀ r r' o o', (σ.relays r).entry = some o → (σ.relays r').entry = some o' →
    o.eventId = o'.eventId → r = r'
  mem : ∀ r o, (σ.relays r).entry = some o → o ∈ σ.db.outbox
  pending : ∀ r o, (σ.relays r).entry = some o → ∀ o' ∈ σ.db.outbox,
    o'.eventId = o.eventId → o'.dispatched = false

/-- Where an entry a relay works on comes from after relay `r` has moved on to `relay`. -/
lemma entry_update {r r' : ℕ} {relay : Relay P} {o : OutboxEntry P}
    (h : (Function.update σ.relays r relay r').entry = some o) :
    (r' = r ∧ relay.entry = some o) ∨ (r' ≠ r ∧ (σ.relays r').entry = some o) := by
  by_cases hr : r' = r
  · subst hr
    exact .inl ⟨rfl, by simpa using h⟩
  · exact .inr ⟨hr, by simpa [hr] using h⟩

lemma State.RelaysApart.found (h : σ.RelaysApart) {r : ℕ} {o : OutboxEntry P}
    (hids : (σ.db.outbox.map OutboxEntry.eventId).Nodup) (ho : o ∈ σ.db.outbox)
    (hd : o.dispatched = false)
    (halone : ∀ r' o', (σ.relays r').entry = some o' → o'.eventId ≠ o.eventId) :
    (σ.putRelay r (.found o)).RelaysApart where
  unique r₁ r₂ o₁ o₂ h₁ h₂ hid := by
    rcases entry_update h₁ with ⟨rfl, heq₁⟩ | ⟨-, hold₁⟩
    · rcases entry_update h₂ with ⟨rfl, -⟩ | ⟨-, hold₂⟩
      · rfl
      · obtain rfl : o = o₁ := by simpa [Relay.entry] using heq₁
        exact absurd hid.symm (halone r₂ o₂ hold₂)
    · rcases entry_update h₂ with ⟨rfl, heq₂⟩ | ⟨-, hold₂⟩
      · obtain rfl : o = o₂ := by simpa [Relay.entry] using heq₂
        exact absurd hid (halone r₁ o₁ hold₁)
      · exact h.unique r₁ r₂ o₁ o₂ hold₁ hold₂ hid
  mem r' o' h' := by
    rcases entry_update h' with ⟨rfl, heq⟩ | ⟨-, h'⟩
    · obtain rfl : o = o' := by simpa [Relay.entry] using heq
      exact ho
    · exact h.mem r' o' h'
  pending r' o' h' := by
    rcases entry_update h' with ⟨rfl, heq⟩ | ⟨-, h'⟩
    · obtain rfl : o = o' := by simpa [Relay.entry] using heq
      intro o'' ho'' hid
      rw [List.inj_on_of_nodup_map hids ho'' ho hid, hd]
    · exact h.pending r' o' h'

/-- A relay that moves on without a new entry. -/
lemma State.RelaysApart.update (h : σ.RelaysApart) {r : ℕ} {relay : Relay P}
    (hr : σ'.relays = Function.update σ.relays r relay) (hdb : σ'.db = σ.db)
    (he : ∀ o, relay.entry = some o → (σ.relays r).entry = some o) : σ'.RelaysApart := by
  have hold : ∀ r' o, (σ'.relays r').entry = some o → (σ.relays r').entry = some o := by
    intro r' o h'
    rw [hr] at h'
    rcases entry_update h' with ⟨rfl, heq⟩ | ⟨-, h'⟩
    · exact he o heq
    · exact h'
  constructor
  · intro r₁ r₂ o₁ o₂ h₁ h₂
    exact h.unique r₁ r₂ o₁ o₂ (hold r₁ o₁ h₁) (hold r₂ o₂ h₂)
  · intro r' o h'
    rw [hdb]
    exact h.mem r' o (hold r' o h')
  · intro r' o h'
    rw [hdb]
    exact h.pending r' o (hold r' o h')

/-- The mark of one entry leaves what the other relays work on. -/
lemma State.RelaysApart.marked (h : σ.RelaysApart) {r : ℕ} {o : OutboxEntry P} {now : String}
    {relay : Relay P} (ho : (σ.relays r).entry = some o) (hrelay : relay.entry = none)
    (hr : σ'.relays = Function.update σ.relays r relay)
    (hdb : σ'.db = σ.db.apply (.setDispatched o.eventId now)) : σ'.RelaysApart := by
  have hold : ∀ r' o', (σ'.relays r').entry = some o' →
      (σ.relays r').entry = some o' ∧ o'.eventId ≠ o.eventId := by
    intro r' o' h'
    rw [hr] at h'
    rcases entry_update h' with ⟨rfl, heq⟩ | ⟨hne, h'⟩
    · simp [hrelay] at heq
    · exact ⟨h', fun hid => hne (h.unique r' r o' o h' ho hid)⟩
  have houtbox : σ'.db.outbox = σ.db.outbox.map (OutboxEntry.setDispatched o.eventId now) := by
    rw [hdb]
    rfl
  constructor
  · intro r₁ r₂ o₁ o₂ h₁ h₂
    exact h.unique r₁ r₂ o₁ o₂ (hold r₁ o₁ h₁).1 (hold r₂ o₂ h₂).1
  · intro r' o' h'
    obtain ⟨hentry, hne⟩ := hold r' o' h'
    rw [houtbox]
    exact List.mem_map.mpr ⟨o', h.mem r' o' hentry, by simp [OutboxEntry.setDispatched, hne]⟩
  · intro r' o' h'
    obtain ⟨hentry, hne⟩ := hold r' o' h'
    rw [houtbox]
    intro o'' ho'' hid
    obtain ⟨o₀, ho₀, rfl⟩ := List.mem_map.mp ho''
    have hid : o₀.eventId = o'.eventId := by simpa using hid
    have hpending := h.pending r' o' hentry o₀ ho₀ hid
    simpa [OutboxEntry.setDispatched, hid, hne] using hpending

/-- Append calls add pending entries only. -/
lemma State.RelaysApart.call (h : σ.RelaysApart) {c : ℕ} {step : CallStep P}
    (he : CallEffect σ c step σ') (hinv : σ.Inv) : σ'.RelaysApart := by
  rcases he.db_cases hinv with ⟨hdb, -⟩ | ⟨-, commit, -, hc⟩
  · exact ⟨by rw [he.relays_eq]; exact h.unique, by rw [he.relays_eq, hdb]; exact h.mem,
      by rw [he.relays_eq, hdb]; exact h.pending⟩
  · refine ⟨by rw [he.relays_eq]; exact h.unique, fun r o ho => ?_, fun r o ho => ?_⟩
    · rw [he.relays_eq] at ho
      rw [hc.db]
      exact List.mem_append_left _ (h.mem r o ho)
    · rw [he.relays_eq] at ho
      rw [hc.db]
      intro o' ho' hid
      rcases List.mem_append.mp ho' with ho' | ho'
      · exact h.pending r o ho o' ho' hid
      · exact commit.entries_pending ho'

/-- The condition of the runs: successful steps, and no entry found twice. -/
abbrev Exclusive (σ : State P) (a : Action P) : Prop := a.Succeeds ∧ FindsAlone σ a

lemma relaysApart_of_reachable (h : (system P).ReachBy Exclusive σ) : σ.RelaysApart := by
  refine System.ReachBy.invariant (P := State.RelaysApart) ?_ ?_ h
  · rintro _ rfl
    exact ⟨by simp [State.initial, Relay.entry], by simp [State.initial, Relay.entry],
      by simp [State.initial, Relay.entry]⟩
  · intro σ a σ' hσ hapart hC hs
    have hinv := inv_of_reachable hσ.reachable
    cases a with
    | call c step => exact hapart.call (callEffect_of_next hs) hinv
    | relay r step =>
      have hsuccess := relaySuccess_of_next hs hC.1
      have halone := hC.2
      cases hsuccess with
      | found o hr ho hd =>
        exact hapart.found (mirrors_of_reachable hσ.reachable).outbox_ids ho hd halone
      | drained hr => exact hapart.update rfl rfl (by simp [Relay.entry])
      | published o hr => exact hapart.update rfl rfl (by simp [Relay.entry, hr])
      | marked o now engine hr hw =>
        exact hapart.marked (by simp [hr, Relay.entry]) rfl rfl (db_of_mark hinv hw)

/-! ### The deliveries -/

/-- The entries published and dispatched, whoever works on them. -/
def State.deliveries (σ : State P) : Delivery String :=
  EventSourcing.deliveries (fun r => (σ.relays r).delivered) σ.db.outbox
    (σ.published.map OutboxEntry.eventId) []

lemma deliveries_keep {r : ℕ} {relay : Relay P} (hd : relay.delivered = (σ.relays r).delivered) :
    (σ.putRelay r relay).deliveries = σ.deliveries := by
  simp only [State.deliveries, State.putRelay_db]
  simp only [State.putRelay, read_update Relay.delivered, hd, Function.update_eq_self]

lemma State.RelaysApart.apart (h : σ.RelaysApart) : Apart fun r => (σ.relays r).delivered :=
  fun r r' o o' ho ho' hid =>
    h.unique r r' o o' (Relay.entry_of_delivered ho) (Relay.entry_of_delivered ho') hid

lemma CallEffect.deliveries_eq {c : ℕ} {step : CallStep P} (he : CallEffect σ c step σ')
    (h : σ.Inv) : σ'.deliveries = σ.deliveries := by
  have hpublished : σ'.published = σ.published := by
    cases he <;> rfl
  simp only [State.deliveries, he.relays_eq, hpublished]
  rcases he.db_cases h with ⟨hdb, -⟩ | ⟨-, commit, -, hc⟩
  · rw [hdb]
  · rw [hc.db]
    exact deliveries_entries commit

/-- A successful step of a relay is a step of the deliveries or none. -/
lemma RelaySuccess.deliveries_next {r : ℕ} {step : RelayStep} (he : RelaySuccess σ r step σ')
    (h : σ.RelaysApart) (hinv : σ.Inv) : σ'.deliveries = σ.deliveries ∨
      ∃ b, (Delivery.system String).next σ.deliveries b = some σ'.deliveries := by
  cases he with
  | found o hr ho hd => exact .inl (deliveries_keep (by simp [hr, Relay.delivered]))
  | drained hr => exact .inl (deliveries_keep (by simp [hr, Relay.delivered]))
  | published o hr =>
    have hentry : (σ.relays r).entry = some o := by simp [hr, Relay.entry]
    have hnot : o.eventId ∉ σ.deliveries.inFlight := by
      rintro ⟨r', o', ho', hid⟩
      obtain rfl := h.unique r' r o' o (Relay.entry_of_delivered ho') hentry hid
      simp [hr, Relay.delivered] at ho'
    have hdone : o.eventId ∉ σ.deliveries.done := by
      rintro ⟨o', ho', hid, hdispatched⟩
      simp [h.pending r o hentry o' ho' hid] at hdispatched
    refine .inr ⟨.publish o.eventId, ?_⟩
    refine (deliveries_publish (r := r) (by simp [hr, Relay.delivered]) hnot hdone).trans
      (congrArg some ?_)
    simp only [State.deliveries, State.putRelay, read_update Relay.delivered, List.map_append]
    rfl
  | marked o now engine hr hw =>
    have hdelivered : (σ.relays r).delivered = some o := by simp [hr, Relay.delivered]
    have hmem := h.mem r o (Relay.entry_of_delivered hdelivered)
    refine .inr ⟨.complete o.eventId,
      (deliveries_complete h.apart hdelivered hmem now).trans (congrArg some ?_)⟩
    have hdb : (engine.commit (.relay r)).db.outbox
        = σ.db.outbox.map (OutboxEntry.setDispatched o.eventId now) := by
      rw [db_of_mark hinv hw]
      rfl
    simp only [State.deliveries, State.putRelay, State.db, read_update Relay.delivered]
    rw [hdb]
    rfl

/-- In the runs in question the publishes and marks are a run of the deliveries. -/
theorem simulates_delivery :
    System.SimulationBy (system P) (Delivery.system String) Exclusive State.deliveries where
  init := by
    rintro _ rfl
    have hempty : (State.initial : State P).db.outbox = [] := by
      rw [State.initial_db, Database.fresh_outbox]
    refine Delivery.ext ?_ ?_ rfl rfl
    · simp [State.deliveries, EventSourcing.deliveries, State.initial, Relay.delivered]
    · simp [State.deliveries, EventSourcing.deliveries, hempty]
  next σ a σ' h hC hs := by
    have hinv := inv_of_reachable h.reachable
    cases a with
    | call c step => exact .inl ((callEffect_of_next hs).deliveries_eq hinv)
    | relay r step =>
      exact (relaySuccess_of_next hs hC.1).deliveries_next (relaysApart_of_reachable h) hinv

/-! ### Every run -/

/-- In every run of successful steps in which no entry is found while another relay is between
finding and marking it, an entry is published at most once, and exactly once when it is marked
dispatched. -/
theorem relay_exactly_once (h : (system P).ReachBy Exclusive σ) (id : String) :
    (σ.published.map (·.eventId)).count id ≤ 1 ∧
      ∀ o ∈ σ.db.outbox, o.eventId = id → o.dispatched = true →
        (σ.published.map (·.eventId)).count id = 1 := by
  have hbalanced := Delivery.balanced_of_reachable (simulates_delivery.reachable h)
  refine ⟨hbalanced.count_le id, ?_⟩
  intro o ho hid hdispatched
  have hdone : id ∈ σ.deliveries.done := ⟨o, ho, hid, hdispatched⟩
  exact hbalanced.count_of_done hdone

/-- One event with its outbox entry. -/
def appendRun : List (Action ℕ) :=
  [.call 0 (.invoke ⟨.appendWithOutbox, "order-1", "OrderPlaced", 1, some 0⟩),
    .call 0 .advanceVersion, .call 0 .advanceSeq, .call 0 (.insertEvent "e0" "t0"),
    .call 0 .insertOutbox, .call 0 (.commit true)]

/-- Two relays find the entry before either marks it. -/
def doublePublishRun : List (Action ℕ) :=
  appendRun ++ [.relay 0 (.find (some "e0")), .relay 1 (.find (some "e0")),
    .relay 0 (.publish true), .relay 0 (.mark "t" true), .relay 1 (.publish true),
    .relay 1 (.mark "t" true)]

/-- Without the condition an entry is published twice though every step succeeds. -/
theorem relay_exactly_once_fails :
    ¬ ∀ σ : State ℕ, (system ℕ).ReachBy (fun _ a => a.Succeeds) σ → ∀ id,
      (σ.published.map (·.eventId)).count id ≤ 1 ∧
        ∀ o ∈ σ.db.outbox, o.eventId = id → o.dispatched = true →
          (σ.published.map (·.eventId)).count id = 1 := by
  intro hclaim
  have hrun : (system ℕ).run doublePublishRun .initial
      = some ((system ℕ).after doublePublishRun .initial) := System.run_after (by decide)
  have hsucceeds : (system ℕ).Along (fun _ a => a.Succeeds) doublePublishRun .initial :=
    System.along_of_forall fun a ha _ => by
      fin_cases ha <;> trivial
  have htwice := (hclaim _ ((System.ReachBy.init init_initial).run hsucceeds hrun) "e0").1
  exact absurd htwice (by decide)

/-- One relay that delivers one entry. -/
def singleRelayRun : List (Action ℕ) :=
  appendRun ++ [.relay 0 (.find (some "e0")), .relay 0 (.publish true), .relay 0 (.mark "t" true)]

theorem relay_exactly_once_single :
    let σ := (system ℕ).after singleRelayRun .initial
    σ.db.outbox.map (·.dispatched) = [true] ∧ (σ.published.map (·.eventId)).count "e0" ≤ 1 := by
  have hrun : (system ℕ).run singleRelayRun .initial
      = some ((system ℕ).after singleRelayRun .initial) := System.run_after (by decide)
  have hC : (system ℕ).Along Exclusive singleRelayRun .initial := by
    refine System.along_append.mpr ⟨System.along_of_forall fun a ha _ => ?_, fun σ hσ => ?_⟩
    · fin_cases ha <;> exact ⟨trivial, trivial⟩
    · -- no relay has begun when the entry is found
      obtain rfl : (system ℕ).after appendRun .initial = σ := by simp [System.after, hσ]
      refine ⟨⟨trivial, fun r o ho => ?_⟩, fun _ _ => System.along_of_forall fun a ha _ => ?_⟩
      · cases ho
      · fin_cases ha <;> exact ⟨rfl, trivial⟩
  exact ⟨by decide, (relay_exactly_once ((System.ReachBy.init init_initial).run hC hrun) "e0").1⟩

end EventSourcing.Mongo
