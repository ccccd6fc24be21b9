import EventSourcing.Postgres.Store

/-!
# What a step of the PostgreSQL store can do

`CallEffect` and `RelayEffect` list, once, everything a step of an append call or of a relay
call may do to the state, with the guard of each case.
-/

namespace EventSourcing.Postgres

open Concurrency

variable {P : Type} {σ σ' : State P}

/-! ### Append calls -/

/-- Why a step of append call `c` fails without a conflict of versions. -/
inductive Failure (σ : State P) (c : ℕ) : CallStep P → Prop where
  | reported (context : String) : Failure σ c (.fail context)
  | unserialised (req : AppendRequest P) (v g : Int) (h : σ.calls c = .versioned req v)
      (hp : req.payload = none) : Failure σ c (.drawPosition g)
  | duplicateEntry (envelope : EventEnvelope P)
      (h : σ.calls c = .inserted .appendWithOutbox envelope)
      (ho : ∃ o ∈ σ.db.outbox, o.eventId = envelope.eventId) : Failure σ c .insertOutbox

/-- What a step of append call `c` can do. -/
inductive CallEffect (σ : State P) (c : ℕ) : CallStep P → State P → Prop where
  | started (req : AppendRequest P) (h : σ.calls c = .idle) :
      CallEffect σ c (.invoke req) (σ.putCall c σ.engine (.started req))
  | versioned (req : AppendRequest P) (v : Int) (engine : Engine P)
      (h : σ.calls c = .started req)
      (hv : v = ((σ.engine.view (.call c)).streamVersions req.streamId).getD 0)
      (hw : σ.engine.write (.call c) (.setStreamVersion req.streamId (v + 1)) = some engine) :
      CallEffect σ c .advanceVersion (σ.putCall c engine (.versioned req v))
  | positioned (req : AppendRequest P) (v g : Int) (h : σ.calls c = .versioned req v)
      (hg : σ.identity < g) :
      CallEffect σ c (.drawPosition g)
        { σ.putCall c σ.engine (.positioned req v g) with identity := g }
  | inserted (req : AppendRequest P) (envelope : EventEnvelope P) (engine : Engine P)
      (h : σ.calls c = .positioned req envelope.streamVersion envelope.globalPosition)
      (hgives : req.Gives envelope) (hid : envelope.eventId ∉ σ.drawn)
      (hw : σ.engine.write (.call c) (.insertEvent envelope) = some engine) :
      CallEffect σ c (.insertEvent envelope.eventId envelope.occurredAt)
        { σ.putCall c engine (.inserted req.kind envelope) with
          drawn := envelope.eventId :: σ.drawn }
  | outboxWritten (envelope : EventEnvelope P) (engine : Engine P)
      (h : σ.calls c = .inserted .appendWithOutbox envelope)
      (hw : σ.engine.write (.call c) (.insertOutbox (.ofEnvelope envelope)) = some engine) :
      CallEffect σ c .insertOutbox (σ.putCall c engine (.outboxWritten envelope))
  | committed (kind : AppendKind) (envelope : EventEnvelope P) (acknowledged : Bool)
      (h : (σ.calls c).ReadyToCommit kind envelope) :
      CallEffect σ c (.commit acknowledged) (σ.commit c kind envelope acknowledged)
  | conflict (req : AppendRequest P) (envelope : EventEnvelope P)
      (h : σ.calls c = .positioned req envelope.streamVersion envelope.globalPosition)
      (hs : envelope.streamId = req.streamId) (hid : envelope.eventId ∉ σ.drawn)
      (hdup : σ.db.HasDuplicate envelope) :
      CallEffect σ c (.insertEvent envelope.eventId envelope.occurredAt)
        (σ.failCall c (.concurrencyConflict req.streamId envelope.streamVersion))
  | failed (step : CallStep P) (context : String) (h : ∀ r, σ.calls c ≠ .returned r)
      (hf : Failure σ c step) : CallEffect σ c step (σ.failCall c (.io context))
  | aborted (contexts : List String) (h : ∀ r, σ.calls c ≠ .returned r) :
      CallEffect σ c .abort (σ.putCall c (σ.engine.rollback (.call c)) (.aborted contexts))
  | ended (result : Except EventStoreError (EventEnvelope P)) (h : σ.calls c = .returned result) :
      CallEffect σ c .abort (σ.putCall c (σ.engine.rollback (.call c)) (.returned result))

lemma CallEffect.of_advanceVersion {c : ℕ} {req : AppendRequest P}
    (h : σ.calls c = .started req) (hs : σ.advanceVersion c req = some σ') :
    CallEffect σ c .advanceVersion σ' := by
  simp only [State.advanceVersion, Option.map_eq_some_iff] at hs
  obtain ⟨engine, hw, rfl⟩ := hs
  cases hv : (σ.engine.view (.call c)).streamVersions req.streamId with
  | none =>
    rw [hv] at hw
    exact .versioned req 0 engine h (by simp [hv]) hw
  | some v =>
    rw [hv] at hw
    have hadd : v + 1 - 1 = v := by omega
    simp only [hadd]
    exact .versioned req v engine h (by simp [hv]) hw

lemma CallEffect.of_drawPosition {c : ℕ} {req : AppendRequest P} {v g : Int}
    (h : σ.calls c = .versioned req v) (hs : σ.drawPosition c req v g = some σ') :
    CallEffect σ c (.drawPosition g) σ' := by
  simp only [State.drawPosition] at hs
  split at hs
  · rename_i hp
    obtain rfl := Option.some.inj hs
    exact .failed _ _ (by simp [h]) (.unserialised req v g h hp)
  · split_ifs at hs with hg
    obtain rfl := Option.some.inj hs
    exact .positioned req v g h hg

lemma CallEffect.of_insertEvent {c : ℕ} {req : AppendRequest P} {v g : Int} {id now : String}
    (h : σ.calls c = .positioned req v g) (hs : σ.insertEvent c req v g id now = some σ') :
    CallEffect σ c (.insertEvent id now) σ' := by
  simp only [State.insertEvent] at hs
  split at hs
  · cases hs
  · rename_i payload hp
    split_ifs at hs with hid hdup
    · obtain rfl := Option.some.inj hs
      exact .conflict req (req.envelope payload v g id now) h rfl hid hdup
    · obtain ⟨engine, hw, rfl⟩ := Option.map_eq_some_iff.mp hs
      exact .inserted req (req.envelope payload v g id now) engine h
        (req.gives_envelope hp v g id now) hid hw

lemma CallEffect.of_abort {c : ℕ} (hs : σ.abort c = some σ') : CallEffect σ c .abort σ' := by
  simp only [State.abort] at hs
  split at hs
  · cases hs
  · rename_i result h
    obtain rfl := Option.some.inj hs
    exact .ended result h
  · rename_i _ h
    obtain rfl := Option.some.inj hs
    exact .aborted _ h

/-- A step of an append call does one of the things `CallEffect` lists. -/
theorem callEffect_of_next {c : ℕ} {step : CallStep P} (hs : σ.callNext c step = some σ') :
    CallEffect σ c step σ' := by
  cases step with
  | invoke req =>
    simp only [State.callNext] at hs
    split at hs
    · rename_i h
      obtain rfl := Option.some.inj hs
      exact .started req h
    · cases hs
  | advanceVersion =>
    simp only [State.callNext] at hs
    split at hs
    · rename_i h
      exact .of_advanceVersion h hs
    · cases hs
  | drawPosition g =>
    simp only [State.callNext] at hs
    split at hs
    · rename_i h
      exact .of_drawPosition h hs
    · cases hs
  | insertEvent id now =>
    simp only [State.callNext] at hs
    split at hs
    · rename_i h
      exact .of_insertEvent h hs
    · cases hs
  | insertOutbox =>
    simp only [State.callNext] at hs
    split at hs
    · rename_i envelope h
      simp only [State.insertOutbox] at hs
      split_ifs at hs with ho
      · obtain rfl := Option.some.inj hs
        exact .failed _ _ (by simp [h]) (.duplicateEntry envelope h ho)
      · obtain ⟨engine, hw, rfl⟩ := Option.map_eq_some_iff.mp hs
        exact .outboxWritten envelope engine h hw
    · cases hs
  | commit acknowledged =>
    simp only [State.callNext] at hs
    split at hs
    · rename_i envelope h
      obtain rfl := Option.some.inj hs
      exact .committed _ envelope acknowledged (.inl ⟨h, rfl⟩)
    · rename_i envelope h
      obtain rfl := Option.some.inj hs
      exact .committed _ envelope acknowledged (.inr ⟨h, rfl⟩)
    · cases hs
  | fail context =>
    simp only [State.callNext] at hs
    split_ifs at hs with hc
    obtain rfl := Option.some.inj hs
    refine .failed _ context (fun r h => ?_) (.reported context)
    simp [h, errors] at hc
  | abort => exact .of_abort hs

/-! ### Relay calls -/

/-- What a step of relay call `r` can do, and what the call returns by it. -/
inductive RelayEffect (σ : State P) (r : ℕ) : RelayStep → State P → Prop where
  | started (h : σ.relays r = .idle) : RelayEffect σ r .start (σ.putRelay r σ.engine .started)
  | drained (h : σ.relays r = .started) (hn : σ.nextPending r = none) :
      RelayEffect σ r .select
        (σ.putRelay r (σ.engine.rollback (.relay r)) (.returned (.ok false)))
  | selected (o : OutboxEntry P) (engine : Engine P) (h : σ.relays r = .started)
      (hn : σ.nextPending r = some o)
      (hl : σ.engine.lock (.relay r) [.outbox o.eventId] = some engine) :
      RelayEffect σ r .select (σ.putRelay r engine (.selected o))
  | published (o : OutboxEntry P) (h : σ.relays r = .selected o) :
      RelayEffect σ r (.publish true)
        { σ.putRelay r σ.engine (.published o) with published := σ.published ++ [o.eventId] }
  | refused (o : OutboxEntry P) (h : σ.relays r = .selected o) :
      RelayEffect σ r (.publish false)
        (σ.putRelay r σ.engine (.returned (.error "publish failed")))
  | marked (o : OutboxEntry P) (now : String) (engine : Engine P)
      (h : σ.relays r = .published o)
      (hw : σ.engine.write (.relay r) (.setDispatched o.eventId now) = some engine) :
      RelayEffect σ r (.mark now) (σ.putRelay r engine (.marked o))
  | committed (o : OutboxEntry P) (acknowledged : Bool) (h : σ.relays r = .marked o) :
      RelayEffect σ r (.commit acknowledged) (σ.putRelay r (σ.engine.commit (.relay r))
        (.returned (if acknowledged then .ok true
          else .error "failed to commit relay transaction")))
  | failed (context : String) (h : context ∈ relayErrors (σ.relays r)) :
      RelayEffect σ r (.fail context) (σ.stopRelay r (.returned (.error context)))
  | crashed (h : ∀ result, σ.relays r ≠ .returned result) (h' : σ.relays r ≠ .crashed) :
      RelayEffect σ r .crash (σ.stopRelay r .crashed)
  | ended (h : σ.relays r = .crashed ∨ ∃ result, σ.relays r = .returned result) :
      RelayEffect σ r .rollback (σ.putRelay r (σ.engine.rollback (.relay r)) (σ.relays r))

/-- A step of a relay call does one of the things `RelayEffect` lists. -/
theorem relayEffect_of_next {r : ℕ} {step : RelayStep} (hs : σ.relayNext r step = some σ') :
    RelayEffect σ r step σ' := by
  cases step with
  | start =>
    simp only [State.relayNext] at hs
    split at hs
    · rename_i h
      obtain rfl := Option.some.inj hs
      exact .started h
    · cases hs
  | select =>
    simp only [State.relayNext] at hs
    split at hs
    · rename_i h
      split at hs
      · rename_i hn
        obtain rfl := Option.some.inj hs
        exact .drained h hn
      · rename_i o hn
        obtain ⟨engine, hl, rfl⟩ := Option.map_eq_some_iff.mp hs
        exact .selected o engine h hn hl
    · cases hs
  | publish succeeds =>
    simp only [State.relayNext] at hs
    split at hs
    · rename_i o h
      cases succeeds with
      | true =>
        obtain rfl := Option.some.inj hs
        exact .published o h
      | false =>
        obtain rfl := Option.some.inj hs
        exact .refused o h
    · cases hs
  | mark now =>
    simp only [State.relayNext] at hs
    split at hs
    · rename_i o h
      obtain ⟨engine, hw, rfl⟩ := Option.map_eq_some_iff.mp hs
      exact .marked o now engine h hw
    · cases hs
  | commit acknowledged =>
    simp only [State.relayNext] at hs
    split at hs
    · rename_i o h
      obtain rfl := Option.some.inj hs
      exact .committed o acknowledged h
    · cases hs
  | fail context =>
    simp only [State.relayNext] at hs
    split_ifs at hs with hc
    obtain rfl := Option.some.inj hs
    exact .failed context hc
  | crash =>
    simp only [State.relayNext] at hs
    split at hs
    · cases hs
    · cases hs
    · rename_i hcr hret
      obtain rfl := Option.some.inj hs
      exact .crashed hret hcr
  | rollback =>
    simp only [State.relayNext] at hs
    split at hs
    · rename_i h
      obtain rfl := Option.some.inj hs
      exact h ▸ .ended (.inl h)
    · rename_i result h
      obtain rfl := Option.some.inj hs
      exact h ▸ .ended (.inr ⟨result, h⟩)
    · cases hs

/-! ### The transactions under a step -/

section Engine

variable {c r : ℕ} {step : CallStep P} {relayStep : RelayStep}

lemma CallEffect.locked (h : CallEffect σ c step σ') (hs : σ.engine.Locked) : σ'.engine.Locked := by
  cases h with
  | versioned _ _ _ _ _ hw => exact hs.write hw
  | inserted _ _ _ _ _ _ hw => exact hs.write hw
  | outboxWritten _ _ _ hw => exact hs.write hw
  | committed => exact hs.commit _
  | aborted => exact hs.rollback _
  | ended => exact hs.rollback _
  | _ => exact hs

lemma RelayEffect.locked (h : RelayEffect σ r relayStep σ') (hs : σ.engine.Locked) :
    σ'.engine.Locked := by
  cases h with
  | drained => exact hs.rollback _
  | selected _ _ _ _ hl => exact hs.lock hl
  | marked _ _ _ _ hw => exact hs.write hw
  | committed => exact hs.commit _
  | ended => exact hs.rollback _
  | _ => exact hs

/-- A step of call `c` leaves the transactions of everyone else alone. -/
lemma CallEffect.undisturbed (h : CallEffect σ c step σ') (hs : σ.engine.Locked) {t : Owner}
    (ht : t ≠ .call c) : Txns.Undisturbed t σ.engine σ'.engine := by
  cases h with
  | versioned _ _ _ _ _ hw => exact Txns.write_undisturbed ht hw
  | inserted _ _ _ _ _ _ hw => exact Txns.write_undisturbed ht hw
  | outboxWritten _ _ _ hw => exact Txns.write_undisturbed ht hw
  | committed => exact Txns.commit_undisturbed hs ht
  | aborted => exact Txns.rollback_undisturbed ht
  | ended => exact Txns.rollback_undisturbed ht
  | _ => exact .refl _ _

lemma RelayEffect.undisturbed (h : RelayEffect σ r relayStep σ') (hs : σ.engine.Locked)
    {t : Owner} (ht : t ≠ .relay r) : Txns.Undisturbed t σ.engine σ'.engine := by
  cases h with
  | drained => exact Txns.rollback_undisturbed ht
  | selected _ _ _ _ hl => exact Txns.lock_undisturbed hl
  | marked _ _ _ _ hw => exact Txns.write_undisturbed ht hw
  | committed => exact Txns.commit_undisturbed hs ht
  | ended => exact Txns.rollback_undisturbed ht
  | _ => exact .refl _ _

/-- A step of call `c` takes no row for anyone else. -/
lemma CallEffect.takesNone (h : CallEffect σ c step σ') {t : Owner} (ht : t ≠ .call c) :
    Txns.TakesNone t σ.engine σ'.engine := by
  cases h with
  | versioned _ _ _ _ _ hw => exact Txns.write_takesNone ht hw
  | inserted _ _ _ _ _ _ hw => exact Txns.write_takesNone ht hw
  | outboxWritten _ _ _ hw => exact Txns.write_takesNone ht hw
  | committed => exact Txns.commit_takesNone
  | aborted => exact Txns.rollback_takesNone
  | ended => exact Txns.rollback_takesNone
  | _ => exact .refl _ _

lemma RelayEffect.takesNone (h : RelayEffect σ r relayStep σ') {t : Owner} (ht : t ≠ .relay r) :
    Txns.TakesNone t σ.engine σ'.engine := by
  cases h with
  | drained => exact Txns.rollback_takesNone
  | selected _ _ _ _ hl => exact Txns.lock_takesNone ht hl
  | marked _ _ _ _ hw => exact Txns.write_takesNone ht hw
  | committed => exact Txns.commit_takesNone
  | ended => exact Txns.rollback_takesNone
  | _ => exact .refl _ _

lemma CallEffect.calls_ne (h : CallEffect σ c step σ') {c' : ℕ} (hc : c' ≠ c) :
    σ'.calls c' = σ.calls c' := by
  cases h <;> simp [State.putCall, State.failCall, State.commit, hc]

lemma CallEffect.relays_eq (h : CallEffect σ c step σ') : σ'.relays = σ.relays := by
  cases h <;> rfl

lemma RelayEffect.calls_eq (h : RelayEffect σ r relayStep σ') : σ'.calls = σ.calls := by
  cases h <;> rfl

lemma RelayEffect.relays_ne (h : RelayEffect σ r relayStep σ') {r' : ℕ} (hr : r' ≠ r) :
    σ'.relays r' = σ.relays r' := by
  cases h <;> simp [State.putRelay, State.stopRelay, hr]

end Engine

end EventSourcing.Postgres
