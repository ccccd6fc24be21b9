import EventSourcing.Mongo.RelayLoop
import EventSourcing.Postgres.RelayLoop

/-!
# Shutting the relay loop down

The shutdown of `run_relay_loop` is not held back while a relay call is between its publish and
its mark: it drops the call there, and the published entry stays pending. In the runs in which
that does not happen nothing is published twice, and whatever has been published is dispatched
when the loop has returned.
-/

namespace EventSourcing

open Concurrency

variable {P : Type}

/-- In every run of the relay loop of either store in which no call ends between its publish and
its mark or commit, no entry is published twice, and every published entry is dispatched once the
loop has returned. A shutdown in such a run leaves every published entry dispatched if and only
if it does not drop a call there. -/
theorem shutdown_keeps_published (P : Type) :
    (∀ loop, (Mongo.relayStore P).loop.ReachBy Mongo.Uncut loop →
      loop.store.publishedIds.Nodup ∧
      (loop.running = false → Settled loop.store.db.outbox loop.store.publishedIds) ∧
      ∀ loop', loop.next (Mongo.relayStore P) .shutdown = some loop' →
        (Settled loop'.store.db.outbox loop'.store.publishedIds ↔ Mongo.Uncut loop .shutdown)) ∧
    (∀ loop, (Postgres.relayStore P).loop.ReachBy Postgres.Uncut loop →
      loop.store.published.Nodup ∧
      (loop.running = false → Settled loop.store.db.outbox loop.store.published) ∧
      ∀ loop', loop.next (Postgres.relayStore P) .shutdown = some loop' →
        (Settled loop'.store.db.outbox loop'.store.published ↔
          Postgres.Uncut loop .shutdown)) := by
  refine ⟨fun loop h => ?_, fun loop h => ?_⟩
  · obtain ⟨hnodup, hsettled⟩ := Mongo.relay_loop_settled h
    exact ⟨hnodup, hsettled, fun loop' hs => Mongo.shutdown_settled_iff h hs⟩
  · obtain ⟨hnodup, hsettled⟩ := Postgres.relay_loop_settled h
    exact ⟨hnodup, hsettled, fun loop' hs => Postgres.shutdown_settled_iff h hs⟩

/-- The loop over the MongoDB store has published the entry of an append and waits for the answer
of `update_one`. -/
def mongoPublished : List (LoopStep (ℕ × Mongo.CallStep ℕ) Mongo.RelayStep) :=
  [.environment (0, .invoke ⟨.appendWithOutbox, "order-1", "OrderPlaced", 1, some 0⟩),
    .environment (0, .advanceVersion), .environment (0, .advanceSeq),
    .environment (0, .insertEvent "e0" "t0"), .environment (0, .insertOutbox),
    .environment (0, .commit true), .relay (.find (some "e0")), .relay (.publish true)]

/-- The same over the PostgreSQL store, before the transaction commits. -/
def postgresPublished : List (LoopStep (Postgres.Environment ℕ) Postgres.RelayStep) :=
  [.environment (.call 0 (.invoke ⟨.appendWithOutbox, "order-1", "OrderPlaced", 1, some 0⟩)),
    .environment (.call 0 .advanceVersion), .environment (.call 0 (.drawPosition 1)),
    .environment (.call 0 (.insertEvent "e0" "t0")), .environment (.call 0 .insertOutbox),
    .environment (.call 0 (.commit true)), .relay .start, .relay .select, .relay (.publish true)]

def mongoLoopStart : RelayLoop (Mongo.State ℕ) := ⟨.initial, 0, true⟩

def postgresLoopStart : RelayLoop (Postgres.State ℕ) := ⟨.initial, 0, true⟩

/-- The entry is marked, and the loop is shut down in its next turn. -/
theorem shutdown_keeps_published_marked :
    let mongo := (Mongo.relayStore ℕ).loop.after
      (mongoPublished ++ [.relay (.mark "t" true), .again]) mongoLoopStart
    let postgres := (Postgres.relayStore ℕ).loop.after
      (postgresPublished ++ [.relay (.mark "t"), .relay (.commit true), .again]) postgresLoopStart
    (mongo.store.publishedIds = ["e0"] ∧
      ∃ loop, mongo.next (Mongo.relayStore ℕ) .shutdown = some loop ∧
        Settled loop.store.db.outbox loop.store.publishedIds) ∧
    (postgres.store.published = ["e0"] ∧
      ∃ loop, postgres.next (Postgres.relayStore ℕ) .shutdown = some loop ∧
        Settled loop.store.db.outbox loop.store.published) := by
  have hkeeps := shutdown_keeps_published ℕ
  refine ⟨⟨by decide, _, rfl, ?_⟩, ⟨by decide, _, rfl, ?_⟩⟩
  · have hreach := System.reachBy_after (M := (Mongo.relayStore ℕ).loop) (C := Mongo.Uncut)
      (mongoPublished ++ [.relay (.mark "t" true), .again]) (s := mongoLoopStart) ⟨rfl, rfl, rfl⟩
      (by decide) (by decide)
    exact ((hkeeps.1 _ hreach).2.2 _ rfl).mpr (by decide)
  · have hreach := System.reachBy_after (M := (Postgres.relayStore ℕ).loop) (C := Postgres.Uncut)
      (postgresPublished ++ [.relay (.mark "t"), .relay (.commit true), .again])
      (s := postgresLoopStart) ⟨rfl, rfl, rfl⟩ (by decide) (by decide)
    exact ((hkeeps.2 _ hreach).2.2 _ rfl).mpr (by decide)

/-- In either store a shutdown before that leaves the published entry pending; the next loop
publishes it again. -/
theorem shutdown_keeps_published_fails :
    (¬ ∀ loop, (Mongo.relayStore ℕ).loop.Reachable loop → loop.running = false →
      Settled loop.store.db.outbox loop.store.publishedIds) ∧
    (¬ ∀ loop, (Postgres.relayStore ℕ).loop.Reachable loop → loop.running = false →
      Settled loop.store.db.outbox loop.store.published) := by
  constructor
  · intro hclaim
    have hreach := System.reachable_after (M := (Mongo.relayStore ℕ).loop)
      (mongoPublished ++ [.shutdown]) (s := mongoLoopStart) ⟨rfl, rfl, rfl⟩ (by decide)
    exact absurd (hclaim _ hreach (by decide)) (by decide)
  · intro hclaim
    have hreach := System.reachable_after (M := (Postgres.relayStore ℕ).loop)
      (postgresPublished ++ [.shutdown]) (s := postgresLoopStart) ⟨rfl, rfl, rfl⟩ (by decide)
    exact absurd (hclaim _ hreach (by decide)) (by decide)

end EventSourcing
