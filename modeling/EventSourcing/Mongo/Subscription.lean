import EventSourcing.Concurrency.CatchUp
import EventSourcing.Concurrency.Observer
import EventSourcing.Mongo.Append

/-!
# The catch-up subscription of the MongoDB store

A consumer replays the committed events above its checkpoint from a cursor and opens a change
stream once the cursor has ended. The change stream delivers what commits after it was opened,
so what commits after the last read of the cursor and before that moment is in neither.
-/

namespace EventSourcing.Mongo

open Concurrency

variable {P : Type}

/-- How far a consumer has come in `catch_up_subscribe`. -/
inductive Subscriber (P : Type) where
  | idle
  | loaded (fromPosition : Int)
  | replaying (cursor : Cursor (EventEnvelope P) Int)
  /-- the handler has returned for an event of the cursor -/
  | replayed (position : Int) (cursor : Cursor (EventEnvelope P) Int)
  /-- the change stream is open and delivers the event at place `next` of `events` next -/
  | streaming (next : ℕ)
  /-- the handler has returned for an event of the change stream -/
  | delivered (position : Int) (next : ℕ)

structure Subscription (P : Type) where
  /-- field `global_position` of the consumer's document in `_checkpoints` -/
  checkpoint : Option Int
  subscriber : Subscriber P
  /-- history: the events passed to the handler -/
  handled : List (EventEnvelope P)

inductive SubscriberStep where
  | load
  | find
  /-- the cursor reads the next `n` events -/
  | fetch (n : ℕ)
  | handle
  | save
  | watch
  /-- the consumer stops, wherever it is, and may start again -/
  | stop
  deriving DecidableEq

namespace Subscription

def next (σ : State P) (u : Subscription P) : SubscriberStep → Option (Subscription P)
  | .load =>
    match u.subscriber with
    | .idle => some { u with subscriber := .loaded (u.checkpoint.getD (-1)) }
    | _ => none
  | .find =>
    match u.subscriber with
    | .loaded fromPosition => some { u with subscriber := .replaying (.opened fromPosition) }
    | _ => none
  | .fetch n =>
    match u.subscriber with
    | .replaying cursor =>
      (cursor.fetch (·.globalPosition) σ.db.events n).map fun cursor =>
        { u with subscriber := .replaying cursor }
    | _ => none
  | .handle =>
    match u.subscriber with
    | .replaying cursor => cursor.take.map fun (envelope, cursor) =>
        { u with
          subscriber := .replayed envelope.globalPosition cursor
          handled := u.handled ++ [envelope] }
    | .streaming next => σ.db.events[next]?.map fun envelope =>
        { u with
          subscriber := .delivered envelope.globalPosition (next + 1)
          handled := u.handled ++ [envelope] }
    | _ => none
  | .save =>
    match u.subscriber with
    | .replayed position cursor =>
      some { u with checkpoint := some position, subscriber := .replaying cursor }
    | .delivered position next =>
      some { u with checkpoint := some position, subscriber := .streaming next }
    | _ => none
  | .watch =>
    match u.subscriber with
    | .replaying cursor =>
      if cursor.Drained then some { u with subscriber := .streaming σ.db.events.length } else none
    | _ => none
  | .stop => some { u with subscriber := .idle }

end Subscription

variable (P) in
/-- A consumer that starts with the given checkpoint. -/
def subscription (checkpoint : Option Int) :
    Observer (State P) (Subscription P) SubscriberStep where
  init u := u = { checkpoint := checkpoint, subscriber := .idle, handled := [] }
  next := Subscription.next

/-! ### The gap between the two phases -/

/-- The cursor has made its last read and the change stream is not open yet. -/
def Subscriber.inGap : Subscriber P → Bool
  | .replaying cursor => cursor.exhausted
  | .replayed _ cursor => cursor.exhausted
  | _ => false

/-- No event above the checkpoint commits while the consumer is in the gap. -/
def GapClosed (checkpoint : Option Int) (p : State P × Subscription P) :
    Action P ⊕ SubscriberStep → Prop
  | .inl a => p.2.subscriber.inGap = true →
      ∀ e ∈ p.1.committing a, e.globalPosition ≤ checkpoint.getD (-1)
  | .inr _ => True

instance (checkpoint : Option Int) (p : State P × Subscription P) (a : Action P ⊕ SubscriberStep) :
    Decidable (GapClosed checkpoint p a) :=
  match a with
  | .inl a => inferInstanceAs (Decidable (_ → ∀ e ∈ p.1.committing a, _))
  | .inr _ => isTrue trivial

/-- The consumer never stops. -/
def Uninterrupted (a : Action P ⊕ SubscriberStep) : Prop :=
  match a with
  | .inl _ => True
  | .inr step => step ≠ .stop

instance (a : Action P ⊕ SubscriberStep) : Decidable (Uninterrupted a) :=
  match a with
  | .inl _ => isTrue trivial
  | .inr step => inferInstanceAs (Decidable (step ≠ .stop))

/-- What the consumer has handled and will still read, by how far it has come. -/
def CaughtUp [DecidableEq P] (f : Int) (p : State P × Subscription P) : Prop :=
  match p.2.subscriber with
  | .idle => p.2.checkpoint.getD (-1) = f ∧ p.2.handled = []
  | .loaded fromPosition => fromPosition = f ∧ p.2.handled = []
  | .replaying cursor =>
    cursor.Reads (fun e : EventEnvelope P => e.globalPosition) f p.1.db.events p.2.handled
  | .replayed _ cursor =>
    cursor.Reads (fun e : EventEnvelope P => e.globalPosition) f p.1.db.events p.2.handled
  | .streaming next =>
    Follows (fun e : EventEnvelope P => e.globalPosition) f p.1.db.events p.2.handled next
  | .delivered _ next =>
    Follows (fun e : EventEnvelope P => e.globalPosition) f p.1.db.events p.2.handled next

variable [DecidableEq P] {σ σ' : State P} {u u' : Subscription P} {f : Int}

/-- A commit outside the gap, or one the consumer has no claim to, will still be read. -/
lemma CaughtUp.store {new : List (EventEnvelope P)} (h : CaughtUp f (σ, u)) (hσ' : σ'.Inv)
    (hevents : σ'.db.events = σ.db.events ++ new)
    (hgap : u.subscriber.inGap = true → ∀ e ∈ new, e.globalPosition ≤ f) :
    CaughtUp f (σ', u) := by
  have habove : ∀ e ∈ new, ∀ e' ∈ σ.db.events, e'.globalPosition < e.globalPosition := by
    have hascending := positions_ascending hσ'
    rw [hevents, List.map_append, List.pairwise_append] at hascending
    exact fun e he e' he' =>
      hascending.2.2 _ (List.mem_map_of_mem he') _ (List.mem_map_of_mem he)
  have hcursor : ∀ c : Cursor (EventEnvelope P) Int,
      (c.exhausted = true → ∀ e ∈ new, e.globalPosition ≤ f) →
      c.Reads (fun e : EventEnvelope P => e.globalPosition) f σ.db.events u.handled →
      c.Reads (fun e : EventEnvelope P => e.globalPosition) f σ'.db.events u.handled := by
    intro c hex hreads
    rw [hevents]
    refine hreads.append ?_
    intro e he hf
    cases hc : c.exhausted with
    | true => exact absurd (WithBot.coe_lt_coe.mp hf) (not_lt.mpr (hex hc e he))
    | false => exact hreads.ahead hc (habove e he) hf
  cases hu : u.subscriber with
  | idle => simpa only [CaughtUp, hu] using h
  | loaded fromPosition => simpa only [CaughtUp, hu] using h
  | replaying c =>
    simp only [CaughtUp, hu] at h ⊢
    exact hcursor c (fun hc => hgap (by simp [hu, Subscriber.inGap, hc])) h
  | replayed position c =>
    simp only [CaughtUp, hu] at h ⊢
    exact hcursor c (fun hc => hgap (by simp [hu, Subscriber.inGap, hc])) h
  | streaming next =>
    simp only [CaughtUp, hu, hevents] at h ⊢
    exact h.append
  | delivered position next =>
    simp only [CaughtUp, hu, hevents] at h ⊢
    exact h.append

/-- A step of the consumer keeps what it has handled and will still read, unless it stops. -/
lemma CaughtUp.step (hσ : σ.Inv) (h : CaughtUp f (σ, u)) {step : SubscriberStep}
    (hstop : step ≠ .stop) (hs : u.next σ step = some u') : CaughtUp f (σ, u') := by
  have hkeys : (σ.db.events.map (·.globalPosition)).Nodup :=
    (positions_ascending hσ).imp ne_of_lt
  cases step with
  | load =>
    simp only [Subscription.next] at hs
    split at hs
    · rename_i hu
      obtain rfl := Option.some.inj hs
      simpa only [CaughtUp, hu] using h
    · cases hs
  | find =>
    simp only [Subscription.next] at hs
    split at hs
    · rename_i hu
      obtain rfl := Option.some.inj hs
      simp only [CaughtUp, hu] at h ⊢
      rw [h.1, h.2]
      exact Cursor.reads_opened
    · cases hs
  | fetch n =>
    simp only [Subscription.next] at hs
    split at hs
    · rename_i hu
      obtain ⟨cursor, hc, rfl⟩ := Option.map_eq_some_iff.mp hs
      simp only [CaughtUp, hu] at h ⊢
      exact h.fetch hkeys hc
    · cases hs
  | handle =>
    simp only [Subscription.next] at hs
    split at hs
    · rename_i hu
      obtain ⟨⟨envelope, cursor⟩, hc, rfl⟩ := Option.map_eq_some_iff.mp hs
      simp only [CaughtUp, hu] at h ⊢
      exact h.take hc
    · rename_i hu
      obtain ⟨envelope, he, rfl⟩ := Option.map_eq_some_iff.mp hs
      simp only [CaughtUp, hu] at h ⊢
      exact h.receive (.of_map _ hkeys) he
    · cases hs
  | save =>
    simp only [Subscription.next] at hs
    split at hs
    · rename_i hu
      obtain rfl := Option.some.inj hs
      simpa only [CaughtUp, hu] using h
    · rename_i hu
      obtain rfl := Option.some.inj hs
      simpa only [CaughtUp, hu] using h
    · cases hs
  | watch =>
    simp only [Subscription.next] at hs
    split at hs
    · rename_i hu
      split_ifs at hs with hc
      obtain rfl := Option.some.inj hs
      simp only [CaughtUp, hu] at h ⊢
      exact h.watch hc
    · cases hs
  | stop => exact absurd rfl hstop

/-- In every run without a stop in which no event above the checkpoint commits in the gap: a
consumer that has drained its change stream has handled every committed event above the
checkpoint once. -/
lemma handled_once {checkpoint : Option Int} {p : State P × Subscription P}
    (h : ((system P).observe (subscription P checkpoint)).ReachBy
      (fun p a => Uninterrupted a ∧ GapClosed checkpoint p a) p)
    (hdrained : p.2.subscriber = .streaming p.1.db.events.length) :
    ∀ e ∈ p.1.db.events, checkpoint.getD (-1) < e.globalPosition → p.2.handled.count e = 1 := by
  have hcaught : CaughtUp (checkpoint.getD (-1)) p := by
    refine System.ReachBy.observed (P := CaughtUp (checkpoint.getD (-1))) ?_ ?_ ?_ h
    · rintro σ u - rfl
      exact ⟨rfl, rfl⟩
    · intro σ u a σ' hreach hcaught hC hs
      have hinv := inv_of_reachable hreach.system
      exact hcaught.store (inv_next hinv hs) (events_next hinv hs)
        (by simpa [GapClosed] using hC.2)
    · intro σ u step u' hreach hcaught hC hs
      exact hcaught.step (inv_of_reachable hreach.system) hC.1 hs
  simp only [CaughtUp, hdrained] at hcaught
  exact fun e he hf => hcaught.drained e he (WithBot.coe_lt_coe.mpr hf)

/-- An append of call `c` from its start to its commit. -/
def appendSteps (c : ℕ) : List (Action ℕ) :=
  [.call c (.invoke ⟨.append, "order-1", "OrderPlaced", 1, some c⟩), .call c .advanceVersion,
    .call c .advanceSeq, .call c (.insertEvent (toString c) "t"), .call c (.commit true)]

end EventSourcing.Mongo
