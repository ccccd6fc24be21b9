import EventSourcing.Concurrency.Replay
import EventSourcing.Postgres.Subscription

/-!
# The runs of a consumer of the PostgreSQL store

A consumer calls `catch_up_subscribe` again and again; its runs share nothing but the stored
checkpoint. Over fixed events the runs that do not come beyond the rows of the `SELECT` are a
`Replay` of the events in the order of their positions.
-/

namespace EventSourcing.Postgres

open Concurrency

variable {P : Type}

/-- The runs so far, next to the state of `catch_up_subscribe`. -/
abbrev Consumer (P : Type) := Subscription P × History (EventEnvelope P) Int

abbrev ConsumerStep := RecordedStep SubscriberStep

/-- What a step adds to the runs. -/
def Subscription.recorded (u : Subscription P) (step : SubscriberStep)
    (runs : History (EventEnvelope P) Int) : History (EventEnvelope P) Int :=
  match step with
  | .load => runs.started (u.checkpoint.getD (-1))
  | .handle => u.pending.elim runs (runs.called · true)
  | .save =>
    match u.subscriber with
    | .replayed _ envelope _ => runs.saved envelope.globalPosition
    | .delivered position _ => runs.saved position
    | _ => runs
  | .stop => runs.stopped
  | _ => runs

variable (P) in
/-- A consumer that starts with the given checkpoint. -/
def consumer (checkpoint : Option Int) : Observer (State P) (Consumer P) ConsumerStep :=
  (subscription P checkpoint).recording (fun _ => Subscription.recorded)
    (fun _ => Subscription.pending) fun u => { u with subscriber := .idle }

/-! ### The historical phase -/

/-- The run does not come beyond the historical phase. -/
def StaysHistorical (_ : Consumer P) (step : ConsumerStep) : Prop := step ≠ .step .connect

instance (q : Consumer P) (step : ConsumerStep) : Decidable (StaysHistorical q step) :=
  inferInstanceAs (Decidable (step ≠ .step .connect))

/-- The run at work has finished the historical phase. -/
def Finished (q : Consumer P) : Prop := ∃ seen, q.1.subscriber = .replaying seen []

/-- The replay that a consumer is in. -/
def replay (q : Consumer P) : Replay (EventEnvelope P) Int where
  checkpoint := q.1.checkpoint.getD (-1)
  phase :=
    match q.1.subscriber with
    | .loaded _ => .ready
    | .replaying _ _ => .ready
    | .replayed _ envelope _ => .handled envelope.globalPosition
    | _ => .idle
  history := q.2

/-- What the run at work relies on, by how far it has come. -/
def AtWork (events : List (EventEnvelope P)) (u : Subscription P) : Prop :=
  let above := Replay.above (fun e : EventEnvelope P => e.globalPosition) events
  match u.subscriber with
  | .idle => True
  | .loaded fromPosition => fromPosition = u.checkpoint.getD (-1)
  | .replaying _ rows => above (u.checkpoint.getD (-1)) = rows
  | .replayed _ envelope rows => above (u.checkpoint.getD (-1)) = envelope :: rows
  | _ => False

variable {events : List (EventEnvelope P)} {σ : State P} {q q' : Consumer P}

lemma eventsAfter_eq (db : Database P) (fromPosition : Int) : db.eventsAfter fromPosition
    = Replay.above (fun e : EventEnvelope P => e.globalPosition) db.events fromPosition := by
  simp only [Database.eventsAfter, Replay.above, Cursor.remaining, WithBot.coe_lt_coe]

/-! ### Steps of the historical phase -/

/-- The event that the handler is called with next is the first of the rows that are left, which
are those above the checkpoint. -/
lemma rows_of_pending (h : AtWork events q.1) {e : EventEnvelope P}
    (hpending : q.1.pending = some e) :
    ∃ seen rows, q.1.subscriber = .replaying seen (e :: rows) ∧ (replay q).phase = .ready ∧
      Replay.above (fun e : EventEnvelope P => e.globalPosition) events (replay q).checkpoint
        = e :: rows := by
  simp only [Subscription.pending] at hpending
  split at hpending
  · rename_i seen e' rows hsub
    obtain rfl := Option.some.inj hpending
    simp only [AtWork, hsub] at h
    exact ⟨seen, rows, hsub, by simp [replay, hsub], h⟩
  · rename_i hsub
    simp [AtWork, hsub] at h
  · cases hpending

/-- A step of a run that stays in the historical phase. -/
lemma effect_of_next (hkeys : (σ.db.events.map (·.globalPosition)).Nodup)
    (h : AtWork σ.db.events q.1) {step : SubscriberStep} (hstep : step ≠ .connect)
    {u : Subscription P} (hs : q.1.next σ step = some u) :
    AtWork σ.db.events u ∧ Replay.Effect (fun e : EventEnvelope P => e.globalPosition)
      σ.db.events (replay q) (replay (u, q.1.recorded step q.2)) := by
  cases step with
  | load =>
    simp only [Subscription.next] at hs
    split at hs
    · rename_i hsub
      obtain rfl := Option.some.inj hs
      exact ⟨rfl, .started (by simp [replay, hsub])⟩
    · cases hs
  | select =>
    simp only [Subscription.next] at hs
    split at hs
    · rename_i fromPosition hsub
      obtain rfl := Option.some.inj hs
      simp only [AtWork, hsub] at h
      refine ⟨?_, .of_eq (by simp [replay, Subscription.recorded, hsub])⟩
      rw [eventsAfter_eq, h]
      rfl
    · cases hs
  | handle =>
    simp only [Subscription.next] at hs
    split at hs
    · rename_i seen e rows hsub
      obtain rfl := Option.some.inj hs
      have hpending : q.1.pending = some e := by simp [Subscription.pending, hsub]
      obtain ⟨-, rows', -, hready, habove⟩ := rows_of_pending h hpending
      simp only [Subscription.recorded, hpending, Option.elim_some]
      simp only [AtWork, hsub] at h
      exact ⟨h, .handled e rows' hready habove⟩
    · rename_i hsub
      simp [AtWork, hsub] at h
    · cases hs
  | save =>
    simp only [Subscription.next] at hs
    split at hs
    · rename_i seen e rows hsub
      obtain rfl := Option.some.inj hs
      simp only [Subscription.recorded, hsub]
      simp only [AtWork, hsub] at h
      exact ⟨Replay.above_key hkeys h, .saved e.globalPosition (by simp [replay, hsub])⟩
    · rename_i hsub
      simp [AtWork, hsub] at h
    · cases hs
  | connect => exact absurd rfl hstep
  | stop =>
    obtain rfl := Option.some.inj hs
    exact ⟨trivial, .stopped⟩
  -- the other steps belong to the live phase
  | _ =>
    simp only [Subscription.next] at hs
    split at hs
    · rename_i hsub
      simp [AtWork, hsub] at h
    · cases hs

/-- Over fixed events the runs that stay in the historical phase are a replay. -/
lemma replays (hkeys : (σ.db.events.map (·.globalPosition)).Nodup) (checkpoint : Option Int) :
    Replay.Replays ((consumer P checkpoint).alone σ) StaysHistorical
      (fun e : EventEnvelope P => e.globalPosition) σ.db.events (checkpoint.getD (-1))
      (fun q => AtWork σ.db.events q.1) replay where
  init := by
    rintro ⟨u, history⟩ ⟨rfl, rfl⟩
    exact ⟨trivial, rfl⟩
  step := by
    intro q step q' h hstep hs
    cases step with
    | fail =>
      obtain ⟨e, hpending, rfl⟩ := Option.map_eq_some_iff.mp hs
      obtain ⟨-, rows, -, hready, habove⟩ := rows_of_pending h hpending
      exact ⟨trivial, .failed e rows hready habove⟩
    | step step =>
      obtain ⟨u, hu, rfl⟩ := Option.map_eq_some_iff.mp hs
      exact effect_of_next hkeys h (fun heq => hstep (congrArg RecordedStep.step heq)) hu

/-- A run that has finished has left nothing above the checkpoint. -/
lemma above_of_finished (h : AtWork events q.1) (hfinished : Finished q) :
    Replay.above (fun e : EventEnvelope P => e.globalPosition) events (replay q).checkpoint
      = [] := by
  obtain ⟨seen, hsub⟩ := hfinished
  simp only [AtWork, hsub] at h
  exact h

end EventSourcing.Postgres
