import EventSourcing.Concurrency.Delivery
import EventSourcing.Store.Outbox
import Mathlib.Logic.Function.Basic

/-!
# The deliveries of an outbox

What the relays of an outbox have delivered, what the outbox says is dispatched, and the
history of the publishes, as a state of `Delivery`. A publish, a stop and a mark of one relay
are steps of that system, as long as no two relays have delivered entries of one id.
-/

namespace EventSourcing

open Concurrency

variable {V P : Type}

/-- `delivered` gives, for each relay, the entry it has published and not marked yet. -/
def deliveries (delivered : ℕ → Option (OutboxEntry P)) (outbox : List (OutboxEntry P))
    (published stopped : List String) : Delivery String where
  inFlight := { id | ∃ r o, delivered r = some o ∧ o.eventId = id }
  done := { id | ∃ o ∈ outbox, o.eventId = id ∧ o.dispatched = true }
  published := published
  stopped := stopped

/-- No two relays have delivered entries of one id. -/
def Apart (delivered : ℕ → Option (OutboxEntry P)) : Prop :=
  ∀ r r' o o', delivered r = some o → delivered r' = some o' → o.eventId = o'.eventId → r = r'

/-- What is read off every relay after one of them has moved on. -/
lemma read_update {α β : Type} (f : α → β) (relays : ℕ → α) (r : ℕ) (relay : α) :
    (fun r' => f (Function.update relays r relay r'))
      = Function.update (fun r' => f (relays r')) r (f relay) := by
  funext r'
  exact Function.apply_update (fun _ => f) relays r relay r'

variable {delivered : ℕ → Option (OutboxEntry P)} {outbox : List (OutboxEntry P)}
  {published stopped : List String} {r : ℕ} {o : OutboxEntry P}

lemma mem_inFlight {id : String} :
    id ∈ (deliveries delivered outbox published stopped).inFlight ↔
      ∃ r o, delivered r = some o ∧ o.eventId = id := Iff.rfl

lemma mem_done {id : String} : id ∈ (deliveries delivered outbox published stopped).done ↔
    ∃ o ∈ outbox, o.eventId = id ∧ o.dispatched = true := Iff.rfl

lemma inFlight_of_delivered (h : delivered r = some o) :
    o.eventId ∈ (deliveries delivered outbox published stopped).inFlight := ⟨r, o, h, rfl⟩

/-- A relay that has not delivered anything takes an entry into flight. -/
lemma inFlight_publish (hr : delivered r = none) :
    (deliveries (Function.update delivered r (some o)) outbox published stopped).inFlight
      = insert o.eventId (deliveries delivered outbox published stopped).inFlight := by
  ext id
  simp only [mem_inFlight, Set.mem_insert_iff]
  constructor
  · rintro ⟨r', o', ho', hid⟩
    by_cases hrr : r' = r
    · subst hrr
      obtain rfl : o = o' := by simpa using ho'
      exact .inl hid.symm
    · exact .inr ⟨r', o', by simpa [hrr] using ho', hid⟩
  · rintro (rfl | ⟨r', o', ho', hid⟩)
    · exact ⟨r, o, by simp, rfl⟩
    · have hrr : r' ≠ r := by
        rintro rfl
        simp [hr] at ho'
      exact ⟨r', o', by simpa [hrr] using ho', hid⟩

/-- What a relay has delivered leaves the flight when it ends. -/
lemma inFlight_end (h : Apart delivered) (ho : delivered r = some o) :
    (deliveries (Function.update delivered r none) outbox published stopped).inFlight
      = (deliveries delivered outbox published stopped).inFlight \ {o.eventId} := by
  ext id
  simp only [mem_inFlight, Set.mem_sdiff, Set.mem_singleton_iff]
  constructor
  · rintro ⟨r', o', ho', rfl⟩
    by_cases hrr : r' = r
    · subst hrr
      simp at ho'
    · have ho' : delivered r' = some o' := by simpa [hrr] using ho'
      exact ⟨⟨r', o', ho', rfl⟩, fun hid => hrr (h r' r o' o ho' ho hid)⟩
  · rintro ⟨⟨r', o', ho', rfl⟩, hid⟩
    refine ⟨r', o', ?_, rfl⟩
    have hrr : r' ≠ r := by
      rintro rfl
      obtain rfl : o = o' := by simpa [ho] using ho'
      exact hid rfl
    simpa [hrr] using ho'

/-- Dispatching an entry of the outbox adds its id to those done. -/
lemma done_setDispatched {now : String} (ho : o ∈ outbox) :
    (deliveries delivered (outbox.map (OutboxEntry.setDispatched o.eventId now)) published
        stopped).done
      = insert o.eventId (deliveries delivered outbox published stopped).done := by
  ext id
  simp only [mem_done, Set.mem_insert_iff, List.mem_map, exists_exists_and_eq_and,
    OutboxEntry.eventId_setDispatched]
  constructor
  · rintro ⟨o', hmem, rfl, hdispatched⟩
    by_cases hid : o'.eventId = o.eventId
    · exact .inl hid
    · exact .inr ⟨o', hmem, rfl, by simpa [OutboxEntry.setDispatched, hid] using hdispatched⟩
  · rintro (rfl | ⟨o', hmem, rfl, hdispatched⟩)
    · exact ⟨o, ho, rfl, by simp [OutboxEntry.setDispatched]⟩
    · refine ⟨o', hmem, rfl, ?_⟩
      simp only [OutboxEntry.setDispatched]
      split_ifs
      · rfl
      · exact hdispatched

/-- The entry a commit writes is pending. -/
lemma done_entries (commit : Commit V P) :
    (deliveries delivered (outbox ++ commit.entries) published stopped).done
      = (deliveries delivered outbox published stopped).done := by
  ext id
  simp only [mem_done, List.mem_append]
  constructor
  · rintro ⟨o, hmem | hmem, hid, hdispatched⟩
    · exact ⟨o, hmem, hid, hdispatched⟩
    · simp [commit.entries_pending hmem] at hdispatched
  · rintro ⟨o, hmem, hid, hdispatched⟩
    exact ⟨o, .inl hmem, hid, hdispatched⟩

/-! ### The steps of a relay -/

/-- The publish of an entry that nobody has delivered and that is pending. -/
lemma deliveries_publish (hr : delivered r = none)
    (hflight : o.eventId ∉ (deliveries delivered outbox published stopped).inFlight)
    (hdone : o.eventId ∉ (deliveries delivered outbox published stopped).done) :
    (Delivery.system String).next (deliveries delivered outbox published stopped)
        (.publish o.eventId)
      = some (deliveries (Function.update delivered r (some o)) outbox
          (published ++ [o.eventId]) stopped) :=
  (Delivery.next_publish hflight hdone).trans
    (congrArg some (Delivery.ext (inFlight_publish hr).symm rfl rfl rfl))

/-- A relay stops with an entry it has delivered. -/
lemma deliveries_stop (h : Apart delivered) (ho : delivered r = some o) :
    (Delivery.system String).next (deliveries delivered outbox published stopped)
        (.stop o.eventId)
      = some (deliveries (Function.update delivered r none) outbox published
          (stopped ++ [o.eventId])) :=
  (Delivery.next_stop (inFlight_of_delivered ho)).trans
    (congrArg some (Delivery.ext (inFlight_end h ho).symm rfl rfl rfl))

/-- A relay dispatches the entry it has delivered. -/
lemma deliveries_complete (h : Apart delivered) (ho : delivered r = some o) (hmem : o ∈ outbox)
    (now : String) :
    (Delivery.system String).next (deliveries delivered outbox published stopped)
        (.complete o.eventId)
      = some (deliveries (Function.update delivered r none)
          (outbox.map (OutboxEntry.setDispatched o.eventId now)) published stopped) :=
  (Delivery.next_complete (inFlight_of_delivered ho)).trans
    (congrArg some (Delivery.ext (inFlight_end h ho).symm (done_setDispatched hmem).symm rfl rfl))

lemma deliveries_entries (commit : Commit V P) :
    deliveries delivered (outbox ++ commit.entries) published stopped
      = deliveries delivered outbox published stopped :=
  Delivery.ext rfl (done_entries commit) rfl rfl

end EventSourcing
