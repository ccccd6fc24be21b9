import EventSourcing.Concurrency.Observer
import EventSourcing.Postgres.Append

/-!
# The catch-up subscription of the PostgreSQL store

A consumer replays the committed events above its checkpoint from one `SELECT` and then waits
for notifications, which a session receives from the moment its `LISTEN` takes effect. What
commits between the two is in neither: `lostEventRun` waits forever with an event of that gap
unhandled. Runs in which no event above the checkpoint commits in the gap lose nothing
(`catch_up_delivers`).
-/

namespace EventSourcing.Postgres

open Concurrency

variable {P : Type}

/-- How far a consumer has come in `catch_up_subscribe`. -/
inductive Subscriber (P : Type) where
  | idle
  | loaded (fromPosition : Int)
  /-- the historical rows that are left; `seen` events were committed at the `SELECT` -/
  | replaying (seen : ℕ) (rows : List (EventEnvelope P))
  /-- the handler has returned for a historical row -/
  | replayed (seen : ℕ) (envelope : EventEnvelope P) (rows : List (EventEnvelope P))
  | connected
  /-- `LISTEN` is in effect; `next` is the place of the next notification in the channel -/
  | listening (next : ℕ)
  | notified (position : Int) (next : ℕ)
  | fetched (position : Int) (envelope : EventEnvelope P) (next : ℕ)
  /-- the handler has returned for a notified event -/
  | delivered (position : Int) (next : ℕ)

structure Subscription (P : Type) where
  /-- the row of `checkpoints` for the consumer -/
  checkpoint : Option Int
  subscriber : Subscriber P
  /-- history: the events passed to the handler -/
  handled : List (EventEnvelope P)

inductive SubscriberStep where
  | load
  | select
  | handle
  | save
  | connect
  | listen
  | receive
  | fetch
  /-- the consumer stops, wherever it is, and may start again -/
  | stop
  deriving DecidableEq

/-- `SELECT … FROM events WHERE global_position > $1 ORDER BY global_position` -/
def Database.eventsAfter (db : Database P) (fromPosition : Int) : List (EventEnvelope P) :=
  (db.events.filter fun e => fromPosition < e.globalPosition).insertionSort
    fun e e' => e.globalPosition ≤ e'.globalPosition

/-- `SELECT … FROM events WHERE global_position = $1` -/
def Database.eventAt (db : Database P) (position : Int) : Option (EventEnvelope P) :=
  db.events.find? fun e => e.globalPosition = position

namespace Subscription

/-- The event that the handler is called with next. -/
def pending (u : Subscription P) : Option (EventEnvelope P) :=
  match u.subscriber with
  | .replaying _ (envelope :: _) => some envelope
  | .fetched _ envelope _ => some envelope
  | _ => none

/-- One call after another, each with one session of the listener: the connection is not lost
while `recv` waits. -/
def next (σ : State P) (u : Subscription P) : SubscriberStep → Option (Subscription P)
  | .load =>
    match u.subscriber with
    | .idle => some { u with subscriber := .loaded (u.checkpoint.getD (-1)) }
    | _ => none
  | .select =>
    match u.subscriber with
    | .loaded fromPosition =>
      some { u with
        subscriber := .replaying σ.db.events.length (σ.db.eventsAfter fromPosition) }
    | _ => none
  | .handle =>
    match u.subscriber with
    | .replaying seen (e :: rows) =>
      some { u with subscriber := .replayed seen e rows, handled := u.handled ++ [e] }
    | .fetched position e next =>
      some { u with subscriber := .delivered position next, handled := u.handled ++ [e] }
    | _ => none
  | .save =>
    match u.subscriber with
    | .replayed seen e rows =>
      some { u with checkpoint := some e.globalPosition, subscriber := .replaying seen rows }
    | .delivered position next =>
      some { u with checkpoint := some position, subscriber := .listening next }
    | _ => none
  | .connect =>
    match u.subscriber with
    | .replaying _ [] => some { u with subscriber := .connected }
    | _ => none
  | .listen =>
    match u.subscriber with
    | .connected => some { u with subscriber := .listening σ.db.channel.length }
    | _ => none
  | .receive =>
    match u.subscriber with
    | .listening next =>
      σ.db.channel[next]?.map fun position =>
        { u with subscriber := .notified position (next + 1) }
    | _ => none
  | .fetch =>
    match u.subscriber with
    | .notified position next =>
      match σ.db.eventAt position with
      | some e => some { u with subscriber := .fetched position e next }
      | none => some { u with subscriber := .listening next }
    | _ => none
  | .stop => some { u with subscriber := .idle }

end Subscription

variable (P) in
/-- A consumer that starts with the given checkpoint. -/
def subscription (checkpoint : Option Int) :
    Observer (State P) (Subscription P) SubscriberStep where
  init u := u = { checkpoint := checkpoint, subscriber := .idle, handled := [] }
  next := Subscription.next

/-! ### The gap between the two phases -/

/-- The consumer has taken its `SELECT` and its `LISTEN` is not in effect yet. -/
def Subscriber.inGap : Subscriber P → Bool
  | .replaying _ _ => true
  | .replayed _ _ _ => true
  | .connected => true
  | _ => false

/-- No event above the checkpoint commits while the consumer is in the gap. -/
def GapClosed (checkpoint : Option Int) (p : State P × Subscription P) :
    Action P ⊕ SubscriberStep → Prop
  | .inl a => p.2.subscriber.inGap = true →
      ∀ e ∈ p.1.committing a, e.globalPosition ≤ checkpoint.getD (-1)
  | .inr _ => True

instance (checkpoint : Option Int) (p : State P × Subscription P) (a : Action P ⊕ SubscriberStep) :
    Decidable (GapClosed checkpoint p a) :=
  match a with
  | .inl a => inferInstanceAs (Decidable (_ → ∀ e ∈ p.1.committing a, _))
  | .inr _ => isTrue trivial

/-- The consumer never stops. -/
def Uninterrupted (a : Action P ⊕ SubscriberStep) : Prop :=
  match a with
  | .inl _ => True
  | .inr step => step ≠ .stop

instance (a : Action P ⊕ SubscriberStep) : Decidable (Uninterrupted a) :=
  match a with
  | .inl _ => isTrue trivial
  | .inr step => inferInstanceAs (Decidable (step ≠ .stop))

/-- `handled` has every event of `events` above `f`. -/
def Covered (f : Int) (events handled : List (EventEnvelope P)) : Prop :=
  ∀ e ∈ events, f < e.globalPosition → e ∈ handled

/-- What is handled or about to be handled, by how far the consumer has come. -/
def CaughtUp (f : Int) (p : State P × Subscription P) : Prop :=
  let events := p.1.db.events
  let handled := p.2.handled
  match p.2.subscriber with
  | .idle => p.2.checkpoint.getD (-1) = f
  | .loaded fromPosition => fromPosition = f
  | .replaying _ rows => Covered f events (handled ++ rows)
  | .replayed _ _ rows => Covered f events (handled ++ rows)
  | .connected => Covered f events handled
  | .listening n => n ≤ events.length ∧ Covered f (events.take n) handled
  | .notified position n => n ≤ events.length ∧
      ∀ e ∈ events.take n, f < e.globalPosition → e ∈ handled ∨ e.globalPosition = position
  | .fetched _ e n => n ≤ events.length ∧ Covered f (events.take n) (handled ++ [e])
  | .delivered _ n => n ≤ events.length ∧ Covered f (events.take n) handled

variable {σ σ' : State P} {u u' : Subscription P} {f : Int}

lemma Covered.append {events handled new : List (EventEnvelope P)} (h : Covered f events handled)
    (hnew : ∀ e ∈ new, e.globalPosition ≤ f) : Covered f (events ++ new) handled := by
  intro e he hf
  rcases List.mem_append.mp he with he | he
  · exact h e he hf
  · exact absurd hf (not_lt.mpr (hnew e he))

/-- A commit outside the gap, or one the consumer has no claim to, keeps what is covered. -/
lemma CaughtUp.store {new : List (EventEnvelope P)} (h : CaughtUp f (σ, u))
    (hevents : σ'.db.events = σ.db.events ++ new)
    (hgap : u.subscriber.inGap = true → ∀ e ∈ new, e.globalPosition ≤ f) :
    CaughtUp f (σ', u) := by
  have htake : ∀ n ≤ σ.db.events.length, σ'.db.events.take n = σ.db.events.take n := by
    intro n hn
    rw [hevents, List.take_append_of_le_length hn]
  have hlen : σ.db.events.length ≤ σ'.db.events.length := by
    simp [hevents]
  cases hu : u.subscriber with
  | idle => simpa only [CaughtUp, hu] using h
  | loaded fromPosition => simpa only [CaughtUp, hu] using h
  | replaying seen rows =>
    simp only [CaughtUp, hu, hevents] at h ⊢
    exact h.append (hgap (by simp [hu, Subscriber.inGap]))
  | replayed seen e rows =>
    simp only [CaughtUp, hu, hevents] at h ⊢
    exact h.append (hgap (by simp [hu, Subscriber.inGap]))
  | connected =>
    simp only [CaughtUp, hu, hevents] at h ⊢
    exact h.append (hgap (by simp [hu, Subscriber.inGap]))
  | listening n =>
    simp only [CaughtUp, hu] at h ⊢
    exact ⟨h.1.trans hlen, htake n h.1 ▸ h.2⟩
  | notified position n =>
    simp only [CaughtUp, hu] at h ⊢
    exact ⟨h.1.trans hlen, htake n h.1 ▸ h.2⟩
  | fetched position e n =>
    simp only [CaughtUp, hu] at h ⊢
    exact ⟨h.1.trans hlen, htake n h.1 ▸ h.2⟩
  | delivered position n =>
    simp only [CaughtUp, hu] at h ⊢
    exact ⟨h.1.trans hlen, htake n h.1 ▸ h.2⟩

lemma mem_eventsAfter {db : Database P} {e : EventEnvelope P} :
    e ∈ db.eventsAfter f ↔ e ∈ db.events ∧ f < e.globalPosition := by
  simp [Database.eventsAfter, List.mem_insertionSort]

/-- Events of one position are one event. -/
lemma eq_of_position (h : (system P).Reachable σ) {e e' : EventEnvelope P}
    (he : e ∈ σ.db.events) (he' : e' ∈ σ.db.events)
    (heq : e.globalPosition = e'.globalPosition) : e = e' :=
  List.inj_on_of_nodup_map (positions_nodup h) he he' heq

lemma CaughtUp.select (h : CaughtUp f (σ, u)) {fromPosition : Int}
    (hu : u.subscriber = .loaded fromPosition) :
    CaughtUp f (σ, { u with
      subscriber := .replaying σ.db.events.length (σ.db.eventsAfter fromPosition) }) := by
  simp only [CaughtUp, hu] at h ⊢
  subst h
  exact fun e he hlt => List.mem_append_right _ (mem_eventsAfter.mpr ⟨he, hlt⟩)

lemma CaughtUp.receive (hinv : σ.Inv) (h : CaughtUp f (σ, u)) {n : ℕ} {position : Int}
    (hu : u.subscriber = .listening n) (hn : σ.db.channel[n]? = some position) :
    CaughtUp f (σ, { u with subscriber := .notified position (n + 1) }) := by
  simp only [CaughtUp, hu] at h ⊢
  rw [hinv.db.channel, List.getElem?_map, Option.map_eq_some_iff] at hn
  obtain ⟨e, he, rfl⟩ := hn
  refine ⟨(List.getElem?_eq_some_iff.mp he).1, fun e' he' hlt => ?_⟩
  rw [List.take_add_one, he, List.mem_append] at he'
  rcases he' with he' | he'
  · exact .inl (h.2 e' he' hlt)
  · obtain rfl : e' = e := by simpa using he'
    exact .inr rfl

lemma CaughtUp.fetch (hσ : (system P).Reachable σ) (h : CaughtUp f (σ, u)) {n : ℕ}
    {position : Int} (hu : u.subscriber = .notified position n)
    (hs : u.next σ .fetch = some u') : CaughtUp f (σ, u') := by
  simp only [Subscription.next, hu] at hs
  simp only [CaughtUp, hu] at h
  cases hat : σ.db.eventAt position with
  | some e =>
    rw [hat] at hs
    obtain rfl := Option.some.inj hs
    have he : e ∈ σ.db.events := List.mem_of_find?_eq_some hat
    have hposition : e.globalPosition = position := by simpa using List.find?_some hat
    refine ⟨h.1, ?_⟩
    intro e' he' hlt
    rcases h.2 e' he' hlt with hmem | heq
    · exact List.mem_append_left _ hmem
    · have heq := eq_of_position hσ (List.mem_of_mem_take he') he (heq.trans hposition.symm)
      exact List.mem_append_right _ (by simp [heq])
  | none =>
    rw [hat] at hs
    obtain rfl := Option.some.inj hs
    refine ⟨h.1, fun e' he' hlt => (h.2 e' he' hlt).resolve_right ?_⟩
    intro heq
    have hnone := List.find?_eq_none.mp hat e' (List.mem_of_mem_take he')
    simp [heq] at hnone

/-- A step of the consumer keeps what is covered, unless it stops. -/
lemma CaughtUp.step (hσ : (system P).Reachable σ) (h : CaughtUp f (σ, u)) {step : SubscriberStep}
    (hstop : step ≠ .stop) (hs : u.next σ step = some u') : CaughtUp f (σ, u') := by
  have hinv := inv_of_reachable hσ
  cases step with
  | load =>
    simp only [Subscription.next] at hs
    split at hs
    · rename_i hu
      obtain rfl := Option.some.inj hs
      simpa only [CaughtUp, hu] using h
    · cases hs
  | select =>
    simp only [Subscription.next] at hs
    split at hs
    · rename_i hu
      obtain rfl := Option.some.inj hs
      exact h.select hu
    · cases hs
  | handle =>
    simp only [Subscription.next] at hs
    split at hs
    · rename_i hu
      obtain rfl := Option.some.inj hs
      simpa [CaughtUp, hu] using h
    · rename_i hu
      obtain rfl := Option.some.inj hs
      simpa [CaughtUp, hu] using h
    · cases hs
  | save =>
    simp only [Subscription.next] at hs
    split at hs
    · rename_i hu
      obtain rfl := Option.some.inj hs
      simpa only [CaughtUp, hu] using h
    · rename_i hu
      obtain rfl := Option.some.inj hs
      simpa only [CaughtUp, hu] using h
    · cases hs
  | connect =>
    simp only [Subscription.next] at hs
    split at hs
    · rename_i hu
      obtain rfl := Option.some.inj hs
      simpa only [CaughtUp, hu, List.append_nil] using h
    · cases hs
  | listen =>
    simp only [Subscription.next] at hs
    split at hs
    · rename_i hu
      obtain rfl := Option.some.inj hs
      have hlen : σ.db.channel.length = σ.db.events.length := by simp [hinv.db.channel]
      simp only [CaughtUp, hu] at h
      simp only [CaughtUp, hlen, List.take_length]
      exact ⟨le_refl _, h⟩
    · cases hs
  | receive =>
    simp only [Subscription.next] at hs
    split at hs
    · rename_i hu
      obtain ⟨position, hn, rfl⟩ := Option.map_eq_some_iff.mp hs
      exact h.receive hinv hu hn
    · cases hs
  | fetch =>
    cases hu : u.subscriber with
    | notified position n => exact h.fetch hσ hu hs
    | _ => simp [Subscription.next, hu] at hs
  | stop => exact absurd rfl hstop

/-! ### Every run -/

/-- In every run without a stop in which no event above the checkpoint commits in the gap: once
the consumer waits with every notification drained, every committed event above the checkpoint
has been handled. -/
theorem catch_up_delivers {checkpoint : Option Int} {p : State P × Subscription P}
    (h : ((system P).observe (subscription P checkpoint)).ReachBy
      (fun p a => Uninterrupted a ∧ GapClosed checkpoint p a) p)
    (hdrained : p.2.subscriber = .listening p.1.db.channel.length) :
    ∀ e ∈ p.1.db.events, checkpoint.getD (-1) < e.globalPosition → e ∈ p.2.handled := by
  have hcaught : CaughtUp (checkpoint.getD (-1)) p := by
    refine System.ReachBy.observed (P := CaughtUp (checkpoint.getD (-1))) ?_ ?_ ?_ h
    · rintro σ u - rfl
      rfl
    · intro σ u a σ' hreach hcaught hC hs
      have hevents := events_next (inv_of_reachable hreach.system) hs
      exact hcaught.store hevents (by simpa [GapClosed] using hC.2)
    · intro σ u step u' hreach hcaught hC hs
      exact hcaught.step hreach.system hC.1 hs
  have hlen : p.1.db.channel.length = p.1.db.events.length := by
    simp [(inv_of_reachable h.system).db.channel]
  simp only [CaughtUp, hdrained, hlen, List.take_length] at hcaught
  exact hcaught.2

/-- An append of call `c` from its start to its commit. -/
def appendSteps (c : ℕ) (position : Int) : List (Action ℕ) :=
  [.call c (.invoke ⟨.append, "order-1", "OrderPlaced", 1, some c⟩), .call c .advanceVersion,
    .call c (.drawPosition position), .call c (.insertEvent (toString c) "t"),
    .call c (.commit true)]

/-- One event is replayed; a second commits before the `LISTEN` and is lost. -/
def lostEventRun : List (Action ℕ ⊕ SubscriberStep) :=
  (appendSteps 0 1).map .inl ++
    [.inr .load, .inr .select, .inr .handle, .inr .save, .inr .connect] ++
    (appendSteps 1 2).map .inl ++ [.inr .listen]

/-- Without the condition a run loses an event though the consumer never stops. -/
theorem catch_up_delivers_fails :
    ¬ ∀ p, ((system ℕ).observe (subscription ℕ none)).ReachBy (fun _ a => Uninterrupted a) p →
      p.2.subscriber = .listening p.1.db.channel.length →
        ∀ e ∈ p.1.db.events, -1 < e.globalPosition → e ∈ p.2.handled := by
  intro hclaim
  have hreach := System.reachBy_after (M := (system ℕ).observe (subscription ℕ none))
    (C := fun _ a => Uninterrupted a) lostEventRun
    (s := (.initial, ⟨none, .idle, []⟩)) ⟨rfl, rfl⟩ (by decide) (by decide)
  have hall := hclaim _ hreach (by rfl)
  exact absurd hall (by decide)

/-- One event is replayed and one that commits after the `LISTEN` is pushed. -/
def deliveredRun : List (Action ℕ ⊕ SubscriberStep) :=
  (appendSteps 0 1).map .inl ++
    [.inr .load, .inr .select, .inr .handle, .inr .save, .inr .connect, .inr .listen] ++
    (appendSteps 1 2).map .inl ++ [.inr .receive, .inr .fetch, .inr .handle, .inr .save]

theorem catch_up_delivers_both :
    let p := ((system ℕ).observe (subscription ℕ none)).after deliveredRun
      (.initial, ⟨none, .idle, []⟩)
    p.1.db.events.map (·.globalPosition) = [1, 2] ∧
      ∀ e ∈ p.1.db.events, (none : Option Int).getD (-1) < e.globalPosition → e ∈ p.2.handled := by
  have hreach := System.reachBy_after (M := (system ℕ).observe (subscription ℕ none))
    (C := fun p a => Uninterrupted a ∧ GapClosed none p a) deliveredRun
    (s := (.initial, ⟨none, .idle, []⟩)) ⟨rfl, rfl⟩ (by decide) (by decide)
  exact ⟨by decide, catch_up_delivers hreach (by rfl)⟩

end EventSourcing.Postgres
