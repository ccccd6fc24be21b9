import EventSourcing.Mongo.Store

/-!
# What a step of the MongoDB store can do

`CallEffect` and `RelayEffect` list, once, everything a step of an append call or of a relay
call may do to the state, with the guard of each case. Every invariant of the store is proved
by cases on them.
-/

namespace EventSourcing.Mongo

open Concurrency

variable {P : Type} {σ σ' : State P}

/-! ### Append calls -/

/-- The write that a step of append call `c` makes. -/
def State.callWrite (σ : State P) (c : ℕ) : CallStep P → Option (Write P)
  | .advanceVersion =>
    match σ.calls c with
    | .started req => some (.setStreamVersion req.streamId
        (((σ.engine.view (.call c)).streamVersions req.streamId).getD 0 + 1))
    | _ => none
  | .advanceSeq =>
    match σ.calls c with
    | .versioned _ _ => some (.setGlobalSeq ((σ.engine.view (.call c)).globalSeq.getD 0 + 1))
    | _ => none
  | .insertEvent eventId occurredAt =>
    match σ.calls c with
    | .positioned req v g => req.payload.map fun payload =>
        .insertEvent (req.envelope payload v g eventId occurredAt)
    | _ => none
  | .insertOutbox =>
    match σ.calls c with
    | .inserted .appendWithOutbox envelope => some (.insertOutbox (.ofEnvelope envelope))
    | _ => none
  | _ => none

/-- The storage engine refuses the write of the step. -/
def State.Refused (σ : State P) (c : ℕ) (step : CallStep P) : Prop :=
  ∃ w, σ.callWrite c step = some w ∧ σ.engine.write (.call c) w = none

/-- Why a step of append call `c` fails without a conflict of versions. -/
inductive Failure (σ : State P) (c : ℕ) : CallStep P → Prop where
  | reported (context : String) : Failure σ c (.fail context)
  | refused (step : CallStep P) (h : σ.Refused c step) : Failure σ c step
  | unserialised (req : AppendRequest P) (v g : Int) (eventId occurredAt : String)
      (h : σ.calls c = .positioned req v g) (hp : req.payload = none) :
      Failure σ c (.insertEvent eventId occurredAt)
  | duplicateEntry (envelope : EventEnvelope P)
      (h : σ.calls c = .inserted .appendWithOutbox envelope)
      (ho : ∃ o ∈ σ.db.outbox, o.eventId = envelope.eventId) : Failure σ c .insertOutbox

/-- What a step of append call `c` can do. -/
inductive CallEffect (σ : State P) (c : ℕ) : CallStep P → State P → Prop where
  | started (req : AppendRequest P) (h : σ.calls c = .idle) :
      CallEffect σ c (.invoke req) (σ.putCall c (σ.engine.start (.call c)) (.started req))
  | versioned (req : AppendRequest P) (v : Int) (engine : Engine P)
      (h : σ.calls c = .started req)
      (hv : v = ((σ.engine.view (.call c)).streamVersions req.streamId).getD 0)
      (hw : σ.engine.write (.call c) (.setStreamVersion req.streamId (v + 1)) = some engine) :
      CallEffect σ c .advanceVersion (σ.putCall c engine (.versioned req v))
  | positioned (req : AppendRequest P) (v g : Int) (engine : Engine P)
      (h : σ.calls c = .versioned req v)
      (hg : g = ((σ.engine.view (.call c)).globalSeq).getD 0)
      (hw : σ.engine.write (.call c) (.setGlobalSeq (g + 1)) = some engine) :
      CallEffect σ c .advanceSeq (σ.putCall c engine (.positioned req v g))
  | inserted (req : AppendRequest P) (envelope : EventEnvelope P) (engine : Engine P)
      (h : σ.calls c = .positioned req envelope.streamVersion envelope.globalPosition)
      (hgives : req.Gives envelope) (hid : envelope.eventId ∉ σ.drawn)
      (hw : σ.engine.write (.call c) (.insertEvent envelope) = some engine) :
      CallEffect σ c (.insertEvent envelope.eventId envelope.occurredAt)
        { σ.putCall c engine (.inserted req.kind envelope) with
          drawn := envelope.eventId :: σ.drawn }
  | outboxWritten (envelope : EventEnvelope P) (engine : Engine P)
      (h : σ.calls c = .inserted .appendWithOutbox envelope)
      (hw : σ.engine.write (.call c) (.insertOutbox (.ofEnvelope envelope)) = some engine) :
      CallEffect σ c .insertOutbox (σ.putCall c engine (.outboxWritten envelope))
  | committed (kind : AppendKind) (envelope : EventEnvelope P) (acknowledged : Bool)
      (h : (σ.calls c).ReadyToCommit kind envelope) :
      CallEffect σ c (.commit acknowledged) (σ.commit c kind envelope acknowledged)
  | conflict (req : AppendRequest P) (envelope : EventEnvelope P)
      (h : σ.calls c = .positioned req envelope.streamVersion envelope.globalPosition)
      (hs : envelope.streamId = req.streamId) (hid : envelope.eventId ∉ σ.drawn)
      (hdup : σ.db.HasDuplicate envelope) :
      CallEffect σ c (.insertEvent envelope.eventId envelope.occurredAt) (σ.putCall c σ.engine
        (.returned (.error (.concurrencyConflict req.streamId envelope.streamVersion))))
  | failed (step : CallStep P) (context : String) (h : ∀ r, σ.calls c ≠ .returned r)
      (hf : Failure σ c step) : CallEffect σ c step (σ.failCall c context)
  | aborted (contexts : List String) (h : ∀ r, σ.calls c ≠ .returned r) :
      CallEffect σ c .abort (σ.putCall c (σ.engine.rollback (.call c)) (.aborted contexts))
  | ended (result : Except EventStoreError (EventEnvelope P)) (h : σ.calls c = .returned result) :
      CallEffect σ c .abort (σ.putCall c (σ.engine.rollback (.call c)) (.returned result))

lemma CallEffect.of_insertEvent {c : ℕ} {req : AppendRequest P} {v g : Int} {id now : String}
    (h : σ.calls c = .positioned req v g) (hs : σ.insertEvent c req v g id now = some σ') :
    CallEffect σ c (.insertEvent id now) σ' := by
  have hr : ∀ r, σ.calls c ≠ .returned r := by simp [h]
  simp only [State.insertEvent] at hs
  split at hs
  · rename_i hp
    obtain rfl := Option.some.inj hs
    exact .failed _ _ hr (.unserialised req v g id now h hp)
  · rename_i payload hp
    split_ifs at hs with hid hdup
    · obtain rfl := Option.some.inj hs
      exact .conflict req (req.envelope payload v g id now) h rfl hid hdup
    · split at hs
      · rename_i hw
        obtain rfl := Option.some.inj hs
        exact .failed _ _ hr (.refused _ ⟨_, by simp [State.callWrite, h, hp], hw⟩)
      · rename_i engine hw
        obtain rfl := Option.some.inj hs
        exact .inserted req (req.envelope payload v g id now) engine h
          (req.gives_envelope hp v g id now) hid hw

lemma CallEffect.of_abort {c : ℕ} (hs : σ.abort c = some σ') : CallEffect σ c .abort σ' := by
  simp only [State.abort] at hs
  split at hs
  · cases hs
  · rename_i result h
    obtain rfl := Option.some.inj hs
    exact .ended result h
  · rename_i _ h
    obtain rfl := Option.some.inj hs
    exact .aborted _ h

/-- A step of an append call does one of the things `CallEffect` lists. -/
theorem callEffect_of_next {c : ℕ} {step : CallStep P} (hs : σ.callNext c step = some σ') :
    CallEffect σ c step σ' := by
  cases step with
  | invoke req =>
    simp only [State.callNext] at hs
    split at hs
    · rename_i h
      obtain rfl := Option.some.inj hs
      exact .started req h
    · cases hs
  | advanceVersion =>
    simp only [State.callNext] at hs
    split at hs
    · rename_i req h
      obtain rfl := Option.some.inj hs
      simp only [State.advanceVersion]
      split
      · rename_i hw
        exact .failed _ _ (by simp [h]) (.refused _ ⟨_, by simp [State.callWrite, h], hw⟩)
      · rename_i engine hw
        exact .versioned req _ engine h rfl hw
    · cases hs
  | advanceSeq =>
    simp only [State.callNext] at hs
    split at hs
    · rename_i req v h
      obtain rfl := Option.some.inj hs
      simp only [State.advanceSeq]
      split
      · rename_i hw
        exact .failed _ _ (by simp [h]) (.refused _ ⟨_, by simp [State.callWrite, h], hw⟩)
      · rename_i engine hw
        exact .positioned req v _ engine h rfl hw
    · cases hs
  | insertEvent id now =>
    simp only [State.callNext] at hs
    split at hs
    · rename_i req v g h
      exact .of_insertEvent h hs
    · cases hs
  | insertOutbox =>
    simp only [State.callNext] at hs
    split at hs
    · rename_i envelope h
      obtain rfl := Option.some.inj hs
      simp only [State.insertOutbox]
      split_ifs with ho
      · exact .failed _ _ (by simp [h]) (.duplicateEntry envelope h ho)
      · split
        · rename_i hw
          exact .failed _ _ (by simp [h]) (.refused _ ⟨_, by simp [State.callWrite, h], hw⟩)
        · rename_i engine hw
          exact .outboxWritten envelope engine h hw
    · cases hs
  | commit acknowledged =>
    simp only [State.callNext] at hs
    split at hs
    · rename_i envelope h
      obtain rfl := Option.some.inj hs
      exact .committed _ envelope acknowledged (.inl ⟨h, rfl⟩)
    · rename_i envelope h
      obtain rfl := Option.some.inj hs
      exact .committed _ envelope acknowledged (.inr ⟨h, rfl⟩)
    · cases hs
  | fail context =>
    simp only [State.callNext] at hs
    split_ifs at hs with hc
    obtain rfl := Option.some.inj hs
    refine .failed _ context (fun r h => ?_) (.reported context)
    simp [h, errors] at hc
  | abort => exact .of_abort hs

/-! ### Relay calls -/

/-- What a step of relay call `r` can do. -/
inductive RelayEffect (σ : State P) (r : ℕ) : State P → Prop where
  | found (o : OutboxEntry P) (h : σ.relays r = .idle) (ho : o ∈ σ.db.outbox)
      (hd : o.dispatched = false) : RelayEffect σ r (σ.putRelay r (.found o))
  | drained (h : σ.relays r = .idle) (hd : ∀ o ∈ σ.db.outbox, o.dispatched = true) :
      RelayEffect σ r (σ.putRelay r (.returned (.ok false)))
  | published (o : OutboxEntry P) (h : σ.relays r = .found o) :
      RelayEffect σ r { σ.putRelay r (.published o) with published := σ.published ++ [o] }
  | marked (o : OutboxEntry P) (now : String) (result : Except String Bool) (engine : Engine P)
      (h : σ.relays r = .published o)
      (hw : (σ.engine.start (.relay r)).write (.relay r) (.setDispatched o.eventId now)
        = some engine) :
      RelayEffect σ r
        { σ.putRelay r (.returned result) with engine := engine.commit (.relay r) }
  | failed (context : String) : RelayEffect σ r (σ.putRelay r (.returned (.error context)))

/-- A step of a relay call does one of the things `RelayEffect` lists. -/
theorem relayEffect_of_next {r : ℕ} {step : RelayStep} (hs : σ.relayNext r step = some σ') :
    RelayEffect σ r σ' := by
  cases step with
  | find eventId =>
    simp only [State.relayNext] at hs
    split at hs
    · rename_i h
      split at hs
      · split_ifs at hs with hd
        obtain rfl := Option.some.inj hs
        exact .drained h hd
      · obtain ⟨o, ho, rfl⟩ := Option.map_eq_some_iff.mp hs
        have hp := List.find?_some ho
        exact .found o h (List.mem_of_find?_eq_some ho) (by simp at hp; exact hp.2)
    · cases hs
  | publish succeeds =>
    simp only [State.relayNext] at hs
    split at hs
    · rename_i o h
      split_ifs at hs
      · obtain rfl := Option.some.inj hs
        exact .published o h
      · obtain rfl := Option.some.inj hs
        exact .failed _
    · cases hs
  | mark now acknowledged =>
    simp only [State.relayNext] at hs
    split at hs
    · rename_i o h
      simp only [State.markDispatched, Option.map_map, Option.map_eq_some_iff] at hs
      obtain ⟨engine, hw, rfl⟩ := hs
      exact .marked o now _ engine h hw
    · cases hs
  | fail =>
    simp only [State.relayNext] at hs
    split at hs
    · obtain rfl := Option.some.inj hs
      exact .failed _
    · obtain rfl := Option.some.inj hs
      exact .failed _
    · cases hs

/-! ### The storage engine under a step -/

section Engine

variable {c r : ℕ} {step : CallStep P}

lemma CallEffect.sound (h : CallEffect σ c step σ') (hs : σ.engine.Sound) : σ'.engine.Sound := by
  cases h with
  | started => exact hs.start _
  | versioned _ _ _ _ _ hw => exact hs.write hw
  | positioned _ _ _ _ _ _ hw => exact hs.write hw
  | inserted _ _ _ _ _ _ hw => exact hs.write hw
  | outboxWritten _ _ _ hw => exact hs.write hw
  | committed => exact hs.commit _
  | conflict => exact hs
  | failed => exact hs
  | aborted => exact hs.rollback _
  | ended => exact hs.rollback _

lemma RelayEffect.sound (h : RelayEffect σ r σ') (hs : σ.engine.Sound) : σ'.engine.Sound := by
  cases h with
  | marked _ _ _ _ _ hw => exact ((hs.start _).write hw).commit _
  | _ => exact hs

/-- A step of call `c` leaves the transactions of everyone else alone. -/
lemma CallEffect.undisturbed (h : CallEffect σ c step σ') (hs : σ.engine.Sound) {t : Owner}
    (ht : t ≠ .call c) : Txns.Undisturbed t σ.engine.toTxns σ'.engine.toTxns := by
  cases h with
  | started => exact .refl _ _
  | versioned _ _ _ _ _ hw => exact Snapshots.write_undisturbed ht hw
  | positioned _ _ _ _ _ _ hw => exact Snapshots.write_undisturbed ht hw
  | inserted _ _ _ _ _ _ hw => exact Snapshots.write_undisturbed ht hw
  | outboxWritten _ _ _ hw => exact Snapshots.write_undisturbed ht hw
  | committed => exact Txns.commit_undisturbed hs.locked ht
  | conflict => exact .refl _ _
  | failed => exact .refl _ _
  | aborted => exact Txns.rollback_undisturbed ht
  | ended => exact Txns.rollback_undisturbed ht

lemma RelayEffect.undisturbed (h : RelayEffect σ r σ') (hs : σ.engine.Sound) {t : Owner}
    (ht : t ≠ .relay r) : Txns.Undisturbed t σ.engine.toTxns σ'.engine.toTxns := by
  cases h with
  | marked _ _ _ _ _ hw =>
    exact (Snapshots.write_undisturbed ht hw).trans
      (Txns.commit_undisturbed ((hs.start _).write hw).locked ht)
  | _ => exact .refl _ _

lemma CallEffect.calls_ne (h : CallEffect σ c step σ') {c' : ℕ} (hc : c' ≠ c) :
    σ'.calls c' = σ.calls c' := by
  cases h <;> simp [State.putCall, State.failCall, State.commit, hc]

lemma CallEffect.relays_eq (h : CallEffect σ c step σ') : σ'.relays = σ.relays := by
  cases h <;> rfl

lemma RelayEffect.calls_eq (h : RelayEffect σ r σ') : σ'.calls = σ.calls := by
  cases h <;> rfl

lemma RelayEffect.relays_ne (h : RelayEffect σ r σ') {r' : ℕ} (hr : r' ≠ r) :
    σ'.relays r' = σ.relays r' := by
  cases h <;> simp [State.putRelay, hr]

end Engine

end EventSourcing.Mongo
