import EventSourcing.KurrentDB.Benchmark
import EventSourcing.MongoClient.Benchmark
import EventSourcing.PostgresClient.Benchmark

/-!
# The numbers of the write benchmarks

The runners of the three backends have the loop, the tasks and the drain in common, so what
their numbers stand for does not depend on the calls the tasks make.
-/

namespace EventSourcing

open Bench

/-- In every state of every run of each of the three runners, whatever the configuration, the
schedule and the results of the writes: the writes in flight are bounded, and the numbers that
are read after `acquire_many` are those of the writes that returned `Ok`. -/
theorem write_benchmarks_account (config : BenchmarkConfig) :
    (∀ streams σ, (KurrentDB.benchmark config streams).Reachable σ → Accounts config σ) ∧
    (∀ collectionPrefix start σ,
      (MongoClient.benchmark config collectionPrefix start).Reachable σ → Accounts config σ) ∧
    (∀ streamPrefix σ,
      (PostgresClient.benchmark config streamPrefix).Reachable σ → Accounts config σ) := by
  refine ⟨?_, ?_, ?_⟩
  · intro streams σ h
    exact accounts_of_reachable h
  · intro collectionPrefix start σ h
    exact accounts_of_reachable h
  · intro streamPrefix σ h
    exact accounts_of_reachable h

/-- One permit and batches of two: the second tick is skipped, the second write fails. -/
def drainedRun : List (RunnerStep KurrentDB.AppendStep) :=
  [.tick, .tick, .write 0 (.append .done), .record 0 7, .count 0, .exit 0, .tick,
    .write 1 (.append .rejected), .stop, .exit 1, .acquireMany]

theorem write_benchmarks_account_drained :
    let σ := (KurrentDB.benchmark ⟨1, 2, false⟩ fun _ => .empty).after drainedRun
      { shared := { streams := fun _ => .empty, streamVersions := fun _ => none }
        permits := { free := 1, tasks := [] }
        seq := 0
        hist := []
        totalEvents := 0
        phase := .dispatching }
    σ.phase = .drained ∧ σ.totalEvents = 2 ∧ σ.hist = [7] ∧ Accounts ⟨1, 2, false⟩ σ := by
  have hinit : (KurrentDB.benchmark ⟨1, 2, false⟩ fun _ => .empty).init
      { shared := { streams := fun _ => .empty, streamVersions := fun _ => none }
        permits := { free := 1, tasks := [] }
        seq := 0
        hist := []
        totalEvents := 0
        phase := .dispatching } := ⟨by simp [KurrentDB.backend], rfl⟩
  refine ⟨by decide, by decide, by decide, ?_⟩
  exact (write_benchmarks_account ⟨1, 2, false⟩).1 _ _
    (Concurrency.System.reachable_after drainedRun hinit (by decide))

end EventSourcing
