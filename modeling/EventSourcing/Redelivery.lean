import EventSourcing.Mongo.Replays
import EventSourcing.Postgres.Consumer

/-!
# Interrupted runs of a consumer

Neither store stores a checkpoint before the handler has succeeded, and both store it before the
next call. Over fixed events a consumer whose runs are interrupted in the historical phase
therefore skips nothing, and an interruption makes one call of the handler come again at most.
-/

namespace EventSourcing

open Concurrency

variable {P : Type}

/-- Over fixed events and any sequence of runs that stop in the historical phase, anywhere, for
both stores: each run passes to the handler the first events above the checkpoint it has loaded,
no event comes before the handler has succeeded on the earlier ones, and there are no more calls
than events above the first checkpoint and stopped runs; after a run that has finished the phase
the handler has succeeded on every one of these events. -/
theorem interrupted_runs (checkpoint : Option Int) :
    (∀ (σ : Mongo.State P) (q : Mongo.Consumer P), (Mongo.system P).Reachable σ →
      ((Mongo.consumer P checkpoint).alone σ).ReachBy Mongo.StaysHistorical q →
      Replay.Replayed (·.globalPosition) σ.db.events (checkpoint.getD (-1)) q.2 ∧
        (Mongo.Finished q → ∀ e ∈ σ.db.events, checkpoint.getD (-1) < e.globalPosition →
          (e, true) ∈ q.2.calls)) ∧
    ∀ (σ : Postgres.State P) (q : Postgres.Consumer P), (Postgres.system P).Reachable σ →
      ((Postgres.consumer P checkpoint).alone σ).ReachBy Postgres.StaysHistorical q →
      Replay.Replayed (·.globalPosition) σ.db.events (checkpoint.getD (-1)) q.2 ∧
        (Postgres.Finished q → ∀ e ∈ σ.db.events, checkpoint.getD (-1) < e.globalPosition →
          (e, true) ∈ q.2.calls) := by
  constructor
  · intro σ q hσ h
    have hinv := Mongo.inv_of_reachable hσ
    have hkeys : (σ.db.events.map (·.globalPosition)).Nodup :=
      (Mongo.positions_ascending hinv).imp ne_of_lt
    have hreplays := Mongo.replays hinv checkpoint
    obtain ⟨hreplayed, hall⟩ := hreplays.replayed hkeys h
    refine ⟨hreplayed, fun hfinished => hall ?_⟩
    exact Mongo.above_of_finished (hreplays.atWork h) hfinished
  · intro σ q hσ h
    have hkeys := Postgres.positions_nodup hσ
    have hreplays := Postgres.replays hkeys checkpoint
    obtain ⟨hreplayed, hall⟩ := hreplays.replayed hkeys h
    refine ⟨hreplayed, fun hfinished => hall ?_⟩
    exact Postgres.above_of_finished (hreplays.atWork h) hfinished

/-! ### Two interruptions -/

/-- The first run stops before it has stored a checkpoint, the handler fails in the second, and
the third finishes. -/
def mongoInterrupted : List Mongo.ConsumerStep :=
  [.step .load, .step .find, .step (.fetch 3), .step .handle, .step .stop,
    .step .load, .step .find, .step (.fetch 3), .fail,
    .step .load, .step .find, .step (.fetch 3), .step .handle, .step .save, .step .handle,
    .step .save]

def postgresInterrupted : List Postgres.ConsumerStep :=
  [.step .load, .step .select, .step .handle, .step .stop, .step .load, .step .select, .fail,
    .step .load, .step .select, .step .handle, .step .save, .step .handle, .step .save]

/-- Two events. -/
def mongoEvents : Mongo.State ℕ :=
  (Mongo.system ℕ).after (Mongo.appendSteps 0 ++ Mongo.appendSteps 1) .initial

def postgresEvents : Postgres.State ℕ :=
  (Postgres.system ℕ).after (Postgres.appendSteps 0 1 ++ Postgres.appendSteps 1 2) .initial

def mongoConsumer : Mongo.Consumer ℕ :=
  ((Mongo.consumer ℕ none).alone mongoEvents).after mongoInterrupted (⟨none, .idle, []⟩, .empty)

def postgresConsumer : Postgres.Consumer ℕ :=
  ((Postgres.consumer ℕ none).alone postgresEvents).after postgresInterrupted
    (⟨none, .idle, []⟩, .empty)

/-- Four calls for two events and two interruptions. -/
theorem interrupted_runs_twice :
    mongoConsumer.2.calls.map (fun call => (call.1.globalPosition, call.2))
        = [(0, true), (0, false), (0, true), (1, true)] ∧
      postgresConsumer.2.calls.map (fun call => (call.1.globalPosition, call.2))
        = [(1, true), (1, false), (1, true), (2, true)] ∧
      Replay.Replayed (·.globalPosition) mongoEvents.db.events (-1) mongoConsumer.2 ∧
      (∀ e ∈ mongoEvents.db.events, -1 < e.globalPosition → (e, true) ∈ mongoConsumer.2.calls) ∧
      Replay.Replayed (·.globalPosition) postgresEvents.db.events (-1) postgresConsumer.2 ∧
      ∀ e ∈ postgresEvents.db.events, -1 < e.globalPosition →
        (e, true) ∈ postgresConsumer.2.calls := by
  have hmongo := (interrupted_runs (P := ℕ) none).1 mongoEvents mongoConsumer
    (System.reachable_after _ rfl (by decide))
    (System.reachBy_after (M := (Mongo.consumer ℕ none).alone mongoEvents) mongoInterrupted
      ⟨rfl, rfl⟩ (by decide) (by decide))
  have hpostgres := (interrupted_runs (P := ℕ) none).2 postgresEvents postgresConsumer
    (System.reachable_after _ rfl (by decide))
    (System.reachBy_after (M := (Postgres.consumer ℕ none).alone postgresEvents)
      postgresInterrupted ⟨rfl, rfl⟩ (by decide) (by decide))
  refine ⟨by decide, by decide, hmongo.1, hmongo.2 (by decide), hpostgres.1, hpostgres.2 ?_⟩
  exact ⟨2, by rfl⟩

end EventSourcing
