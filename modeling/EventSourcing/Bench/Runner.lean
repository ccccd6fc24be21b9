import EventSourcing.Bench.Consumers
import EventSourcing.Concurrency.Permits

/-!
# The write benchmark runners

The `run` functions of the three `benchmark` modules have one shape: a loop dispatches a write
on every tick that finds a permit, each write is a task of its own that keeps its permit to its
end, and the numbers are read once every permit has been acquired. They differ in the call that
a task makes (`Backend`).
-/

namespace EventSourcing.Bench

open Concurrency

structure BenchmarkConfig where
  concurrency : UInt64
  batchSize : UInt64
  eventStoreMode : Bool

namespace BenchmarkConfig

variable (config : BenchmarkConfig)

/-- `config.batch_size.max(1)` -/
def batch : UInt64 := max config.batchSize 1

/-- `usize::try_from(config.concurrency).unwrap_or(usize::MAX).min(96)` -/
def maxInFlight : ℕ := min config.concurrency.toNat 96

end BenchmarkConfig

/-- `%` of `u64`, which panics on a divisor of zero. -/
def checkedRem (a b : UInt64) : Option UInt64 := if b = 0 then none else some (a % b)

/-- What the loop computes for the task it spawns. -/
structure Dispatch where
  seq : UInt64
  streamIdx : UInt64
  batchSize : UInt64
  deriving DecidableEq

namespace Dispatch

variable (d : Dispatch)

/-- `seq * batch_size` -/
def baseSeq : UInt64 := d.seq * d.batchSize

def events : List BenchmarkEvent :=
  (List.range d.batchSize.toNat).map fun i => ⟨d.baseSeq + .ofNat i, d.streamIdx⟩

end Dispatch

/-- The call of a task: `D` is what the tasks share, `W` a call in progress. A call ends with
whether it has returned `Ok`. -/
structure Backend (D W A : Type) where
  init : D → Prop
  start : Dispatch → W
  next : D → W → A → Option (D × (W ⊕ Bool))

inductive WriteTask (W : Type) where
  | writing (write : W)
  | returned (ok : Bool)
  /-- the latency is in the histogram -/
  | recorded
  /-- the batch is in the total -/
  | counted
  /-- the permit has been dropped -/
  | ended (ok : Bool)
  deriving DecidableEq

namespace WriteTask

variable {W : Type}

def running : WriteTask W → Bool
  | ended _ => false
  | _ => true

/-- The call has returned `Ok`. -/
def isOk : WriteTask W → Bool
  | writing _ => false
  | returned ok => ok
  | recorded => true
  | counted => true
  | ended ok => ok

/-- The call has returned `Ok` and its latency is in the histogram. -/
def isRecorded : WriteTask W → Bool
  | recorded => true
  | counted => true
  | ended ok => ok
  | _ => false

/-- The call has returned `Ok` and its batch is in the total. -/
def isCounted : WriteTask W → Bool
  | counted => true
  | ended ok => ok
  | _ => false

end WriteTask

inductive Phase where
  | dispatching
  | draining
  /-- `acquire_many` has returned and the counters are read -/
  | drained
  | panicked
  deriving DecidableEq

structure Runner (D W : Type) where
  shared : D
  permits : Permits (WriteTask W)
  seq : UInt64
  /-- the samples of the histogram -/
  hist : List UInt64
  totalEvents : UInt64
  phase : Phase

inductive RunnerStep (A : Type) where
  /-- a tick within the duration of the run -/
  | tick
  /-- a tick after it -/
  | stop
  | write (k : ℕ) (a : A)
  | record (k : ℕ) (latUs : UInt64)
  | count (k : ℕ)
  | exit (k : ℕ)
  | acquireMany
  deriving DecidableEq

namespace Runner

variable {D W A : Type} (B : Backend D W A) (config : BenchmarkConfig) (σ : Runner D W)

/-- WriteTask `k` moves on to `t`. -/
def moveTask (k : ℕ) (t : WriteTask W) : Runner D W :=
  { σ with permits := σ.permits.move WriteTask.running k t }

def next : RunnerStep A → Option (Runner D W)
  | .tick =>
    match σ.phase with
    | .dispatching =>
      -- without a free permit the tick is skipped
      if σ.permits.free = 0 then some σ
      else
        match checkedRem σ.seq config.concurrency with
        | none => some { σ with phase := .panicked }
        | some streamIdx =>
          (σ.permits.spawn (.writing (B.start ⟨σ.seq, streamIdx, config.batch⟩))).map
            fun permits => { σ with permits := permits, seq := σ.seq + 1 }
    | _ => none
  | .stop =>
    match σ.phase with
    | .dispatching => some { σ with phase := .draining }
    | _ => none
  | .write k a =>
    match σ.permits.tasks[k]? with
    | some (.writing write) =>
      (B.next σ.shared write a).map fun (shared, result) =>
        match result with
        | .inl write => { σ.moveTask k (.writing write) with shared := shared }
        | .inr ok => { σ.moveTask k (.returned ok) with shared := shared }
    | _ => none
  | .record k latUs =>
    match σ.permits.tasks[k]? with
    | some (.returned true) =>
      some { σ.moveTask k .recorded with hist := σ.hist ++ [latUs] }
    | _ => none
  | .count k =>
    match σ.permits.tasks[k]? with
    | some .recorded =>
      some { σ.moveTask k .counted with totalEvents := σ.totalEvents + config.batch }
    | _ => none
  | .exit k =>
    match σ.permits.tasks[k]? with
    | some .counted => some (σ.moveTask k (.ended true))
    | some (.returned false) => some (σ.moveTask k (.ended false))
    | _ => none
  | .acquireMany =>
    match σ.phase with
    | .draining =>
      -- the permits are dropped at once
      if config.maxInFlight ≤ σ.permits.free then some { σ with phase := .drained } else none
    | _ => none

end Runner

variable {D W A : Type} (B : Backend D W A) (config : BenchmarkConfig)

/-- A run of a write benchmark. -/
def benchmark : System (Runner D W) (RunnerStep A) where
  init σ := B.init σ.shared ∧ σ =
    { shared := σ.shared
      permits := { free := config.maxInFlight, tasks := [] }
      seq := 0
      hist := []
      totalEvents := 0
      phase := .dispatching }
  next := Runner.next B config

/-! ### What a step does -/

/-- A task moves from `u` to `t` and the shared state with it; `samples` go to the histogram and
`batches` to the total. -/
inductive Move (shared : D) : WriteTask W → D → WriteTask W → List UInt64 → ℕ → Prop where
  | call {write write' : W} {a : A} {shared' : D}
      (h : B.next shared write a = some (shared', .inl write')) :
      Move shared (.writing write) shared' (.writing write') [] 0
  | result {write : W} {a : A} {shared' : D} {ok : Bool}
      (h : B.next shared write a = some (shared', .inr ok)) :
      Move shared (.writing write) shared' (.returned ok) [] 0
  | record (latUs : UInt64) : Move shared (.returned true) shared .recorded [latUs] 0
  | count : Move shared .recorded shared .counted [] 1
  | exit : Move shared .counted shared (.ended true) [] 0
  | skip : Move shared (.returned false) shared (.ended false) [] 0

/-- What the steps of a runner do. -/
inductive Effect (σ : Runner D W) : Runner D W → Prop where
  | skipped : Effect σ σ
  | dispatched (d : Dispatch) (permits : Permits (WriteTask W)) (hphase : σ.phase = .dispatching)
      (hspawn : σ.permits.spawn (.writing (B.start d)) = some permits) :
      Effect σ { σ with permits := permits, seq := σ.seq + 1 }
  | panicked (hfree : σ.permits.free ≠ 0) (hzero : config.concurrency = 0) :
      Effect σ { σ with phase := .panicked }
  | stopped (hphase : σ.phase = .dispatching) : Effect σ { σ with phase := .draining }
  | drained (hfree : config.maxInFlight ≤ σ.permits.free) : Effect σ { σ with phase := .drained }
  | moved (k : ℕ) (u t : WriteTask W) (shared : D) (samples : List UInt64) (batches : ℕ)
      (hk : σ.permits.tasks[k]? = some u)
      (hmove : Move B σ.shared u shared t samples batches) :
      Effect σ { σ.moveTask k t with
        shared := shared
        hist := σ.hist ++ samples
        totalEvents := σ.totalEvents + config.batch * .ofNat batches }

variable {B config} {σ σ' : Runner D W}

lemma checkedRem_eq_none {a b : UInt64} : checkedRem a b = none ↔ b = 0 := by
  simp [checkedRem]

/-- A move that leaves the numbers alone. -/
lemma effect_of_move {k : ℕ} {u t : WriteTask W} {shared : D} (hk : σ.permits.tasks[k]? = some u)
    (hmove : Move B σ.shared u shared t [] 0) :
    Effect B config σ { σ.moveTask k t with shared := shared } := by
  have heffect : Effect B config σ _ := .moved k u t shared [] 0 hk hmove
  simpa [Runner.moveTask] using heffect

lemma effect_of_next {step : RunnerStep A} (hs : σ.next B config step = some σ') :
    Effect B config σ σ' := by
  cases step with
  | tick =>
    simp only [Runner.next] at hs
    split at hs
    · rename_i hphase
      split_ifs at hs with hfree
      · obtain rfl := Option.some.inj hs
        exact .skipped
      · split at hs
        · rename_i hrem
          obtain rfl := Option.some.inj hs
          exact .panicked hfree (checkedRem_eq_none.mp hrem)
        · obtain ⟨permits, hspawn, rfl⟩ := Option.map_eq_some_iff.mp hs
          exact .dispatched _ permits hphase hspawn
    · cases hs
  | stop =>
    simp only [Runner.next] at hs
    split at hs
    · rename_i hphase
      obtain rfl := Option.some.inj hs
      exact .stopped hphase
    · cases hs
  | write k a =>
    simp only [Runner.next] at hs
    split at hs
    · rename_i write hk
      obtain ⟨⟨shared, result⟩, hcall, rfl⟩ := Option.map_eq_some_iff.mp hs
      cases result with
      | inl write' => exact effect_of_move hk (.call hcall)
      | inr ok => exact effect_of_move hk (.result hcall)
    · cases hs
  | record k latUs =>
    simp only [Runner.next] at hs
    split at hs
    · rename_i hk
      obtain rfl := Option.some.inj hs
      have heffect : Effect B config σ _ := .moved k _ _ _ _ _ hk (.record latUs)
      simpa [Runner.moveTask] using heffect
    · cases hs
  | count k =>
    simp only [Runner.next] at hs
    split at hs
    · rename_i hk
      obtain rfl := Option.some.inj hs
      have heffect : Effect B config σ _ := .moved k _ _ _ _ _ hk .count
      simpa [Runner.moveTask] using heffect
    · cases hs
  | exit k =>
    simp only [Runner.next] at hs
    split at hs
    · rename_i hk
      obtain rfl := Option.some.inj hs
      exact effect_of_move hk .exit
    · rename_i hk
      obtain rfl := Option.some.inj hs
      exact effect_of_move hk .skip
    · cases hs
  | acquireMany =>
    simp only [Runner.next] at hs
    split at hs
    · split_ifs at hs with hfree
      obtain rfl := Option.some.inj hs
      exact .drained hfree
    · cases hs

/-! ### The counters -/

section Move

variable {shared shared' : D} {u t : WriteTask W} {samples : List UInt64} {batches : ℕ}

lemma Move.running (h : Move B shared u shared' t samples batches) : u.running = true := by
  cases h <;> rfl

lemma Move.recorded (h : Move B shared u shared' t samples batches) :
    samples.length + (if u.isRecorded then 1 else 0) = if t.isRecorded then 1 else 0 := by
  cases h <;> rfl

lemma Move.counted (h : Move B shared u shared' t samples batches) :
    batches + (if u.isCounted then 1 else 0) = if t.isCounted then 1 else 0 := by
  cases h <;> rfl

end Move

/-- What holds of the permits, the histogram and the total in every state. -/
structure Runner.Inv (config : BenchmarkConfig) (σ : Runner D W) : Prop where
  balanced : σ.permits.Balanced WriteTask.running config.maxInFlight
  hist : σ.hist.length = σ.permits.tasks.countP WriteTask.isRecorded
  total : σ.totalEvents = config.batch * .ofNat (σ.permits.tasks.countP WriteTask.isCounted)
  phase : σ.phase ≠ .panicked
  drained : σ.phase = .drained → ∀ t ∈ σ.permits.tasks, t.running = false

lemma Runner.Inv.moved (h : σ.Inv config) {k : ℕ} {u t : WriteTask W} {shared : D}
    {samples : List UInt64} {batches : ℕ} (hk : σ.permits.tasks[k]? = some u)
    (hmove : Move B σ.shared u shared t samples batches) :
    Runner.Inv config { σ.moveTask k t with
      shared := shared
      hist := σ.hist ++ samples
      totalEvents := σ.totalEvents + config.batch * .ofNat batches } where
  balanced := h.balanced.move hk hmove.running
  hist := by
    have hcount := Permits.countP_move (t := t) hk WriteTask.isRecorded
    have hrecorded := hmove.recorded
    have hhist := h.hist
    simp only [Runner.moveTask, Permits.move, List.length_append]
    omega
  total := by
    have hcount := Permits.countP_move (t := t) hk WriteTask.isCounted
    have hcounted := hmove.counted
    have hsum : (σ.permits.tasks.set k t).countP WriteTask.isCounted
        = σ.permits.tasks.countP WriteTask.isCounted + batches := by
      omega
    simp only [Runner.moveTask, Permits.move, hsum, h.total, UInt64.ofNat_add, UInt64.mul_add]
  phase := h.phase
  drained hphase := by
    -- every task has ended, so none can move
    have hended := h.drained hphase u (List.mem_of_getElem? hk)
    rw [hmove.running] at hended
    cases hended

lemma Runner.Inv.effect (h : σ.Inv config) (he : Effect B config σ σ') : σ'.Inv config := by
  cases he with
  | skipped => exact h
  | dispatched d permits hphase hspawn =>
    obtain ⟨-, rfl⟩ := Permits.spawn_eq_some hspawn
    refine ⟨h.balanced.spawn rfl hspawn, ?_, ?_, h.phase, ?_⟩
    · simpa [WriteTask.isRecorded] using h.hist
    · simpa [WriteTask.isCounted] using h.total
    · intro hdrained
      rw [hphase] at hdrained
      cases hdrained
  | panicked hfree hzero =>
    have hbalanced := h.balanced
    simp only [Permits.Balanced, BenchmarkConfig.maxInFlight, hzero] at hbalanced
    exact absurd hbalanced (by simp; omega)
  | stopped hphase =>
    refine ⟨h.balanced, h.hist, h.total, ?_, ?_⟩
    · intro hpanicked
      cases hpanicked
    · intro hdrained
      cases hdrained
  | drained hfree =>
    refine ⟨h.balanced, h.hist, h.total, ?_, fun _ => h.balanced.ended hfree⟩
    intro hpanicked
    cases hpanicked
  | moved k u t shared samples batches hk hmove => exact h.moved hk hmove

lemma inv_of_reachable (h : (benchmark B config).Reachable σ) : σ.Inv config := by
  refine System.ReachBy.invariant (P := Runner.Inv config) ?_ ?_ h
  · rintro σ ⟨-, hσ⟩
    rw [hσ]
    exact ⟨Permits.balanced_initial, rfl, by simp, nofun, nofun⟩
  · intro σ step σ' _ hinv _ hs
    exact hinv.effect (effect_of_next hs)

/-! ### What a runner reports -/

/-- The claims of a runner on its writes: the bound on those in flight, and what its numbers
stand for when they are read. -/
structure Accounts (config : BenchmarkConfig) (σ : Runner D W) : Prop where
  in_flight : σ.permits.tasks.countP WriteTask.running ≤ min config.concurrency.toNat 96
  ended : σ.phase = .drained → ∀ t ∈ σ.permits.tasks, t.running = false
  total : σ.phase = .drained →
    σ.totalEvents = max config.batchSize 1 * .ofNat (σ.permits.tasks.countP WriteTask.isOk)
  /-- the total does not wrap as long as it is a `u64` -/
  total_toNat : σ.phase = .drained →
    (max config.batchSize 1).toNat * σ.permits.tasks.countP WriteTask.isOk < 2 ^ 64 →
    σ.totalEvents.toNat = (max config.batchSize 1).toNat * σ.permits.tasks.countP WriteTask.isOk
  samples : σ.phase = .drained → σ.hist.length = σ.permits.tasks.countP WriteTask.isOk
  /-- the divisor of `seq % concurrency` was never zero -/
  divisor : σ.phase ≠ .panicked
  none_dispatched : config.concurrency = 0 → σ.permits.free = 0 ∧ σ.permits.tasks = []

/-- Where every task has ended, a write has returned `Ok` if its sample and its batch are in. -/
lemma countP_ended {tasks : List (WriteTask W)} (h : ∀ t ∈ tasks, t.running = false) :
    tasks.countP WriteTask.isRecorded = tasks.countP WriteTask.isOk ∧
      tasks.countP WriteTask.isCounted = tasks.countP WriteTask.isOk := by
  constructor
  · refine List.countP_congr fun t ht => ?_
    cases t with
    | ended ok => rfl
    | _ => cases h _ ht
  · refine List.countP_congr fun t ht => ?_
    cases t with
    | ended ok => rfl
    | _ => cases h _ ht

/-- Without concurrency there is no permit, so there never was a task. -/
lemma no_tasks (hzero : config.concurrency = 0) (h : (benchmark B config).Reachable σ) :
    σ.permits.free = 0 ∧ σ.permits.tasks = [] := by
  refine System.ReachBy.invariant
    (P := fun σ : Runner D W => σ.permits.free = 0 ∧ σ.permits.tasks = []) ?_ ?_ h
  · rintro σ ⟨-, hσ⟩
    rw [hσ]
    simp [BenchmarkConfig.maxInFlight, hzero]
  · intro σ step σ' _ ⟨hfree, htasks⟩ _ hs
    cases effect_of_next hs with
    | skipped => exact ⟨hfree, htasks⟩
    | dispatched d permits hphase hspawn => exact absurd hfree (Permits.spawn_eq_some hspawn).1
    | panicked hne => exact absurd hfree hne
    | stopped => exact ⟨hfree, htasks⟩
    | drained => exact ⟨hfree, htasks⟩
    | moved k u t shared samples batches hk => simp [htasks] at hk

lemma accounts_of_reachable (h : (benchmark B config).Reachable σ) : Accounts config σ := by
  have hinv := inv_of_reachable h
  have htotal : σ.phase = .drained →
      σ.totalEvents = max config.batchSize 1 * .ofNat (σ.permits.tasks.countP WriteTask.isOk) := by
    intro hdrained
    rw [hinv.total, (countP_ended (hinv.drained hdrained)).2]
    rfl
  refine ⟨hinv.balanced.running_le, hinv.drained, htotal, ?_, ?_, hinv.phase,
    fun hzero => no_tasks hzero h⟩
  · intro hdrained hlt
    rw [htotal hdrained, UInt64.toNat_mul, UInt64.toNat_ofNat', Nat.mul_mod_mod]
    exact Nat.mod_eq_of_lt hlt
  · intro hdrained
    rw [hinv.hist, (countP_ended (hinv.drained hdrained)).1]

/-! ### What the calls keep -/

/-- Every step of a call keeps `I` of the shared state and `J` of the call, and its result
meets `K`. -/
structure Backend.Keeps (B : Backend D W A) (I : D → Prop) (J : W → Prop) (K : Bool → Prop) :
    Prop where
  init : ∀ d, B.init d → I d
  start : ∀ d, J (B.start d)
  call : ∀ d w a d' w', I d → J w → B.next d w a = some (d', .inl w') → I d' ∧ J w'
  result : ∀ d w a d' ok, I d → J w → B.next d w a = some (d', .inr ok) → I d' ∧ K ok

/-- `J` of a call in progress, `K` of the result of one that has returned. -/
def WriteTask.Meets (J : W → Prop) (K : Bool → Prop) : WriteTask W → Prop
  | writing write => J write
  | returned ok => K ok
  | recorded => K true
  | counted => K true
  | ended ok => K ok

section Keeps

variable {I : D → Prop} {J : W → Prop} {K : Bool → Prop}

lemma Backend.Keeps.move (hB : B.Keeps I J K) {shared shared' : D} {u t : WriteTask W}
    {samples : List UInt64} {batches : ℕ} (hI : I shared) (hu : u.Meets J K)
    (h : Move B shared u shared' t samples batches) : I shared' ∧ t.Meets J K := by
  cases h with
  | call h => exact hB.call _ _ _ _ _ hI hu h
  | result h => exact hB.result _ _ _ _ _ hI hu h
  | record => exact ⟨hI, hu⟩
  | count => exact ⟨hI, hu⟩
  | exit => exact ⟨hI, hu⟩
  | skip => exact ⟨hI, hu⟩

/-- What the calls keep holds in every state of a run. -/
theorem Backend.Keeps.reachable (hB : B.Keeps I J K) (h : (benchmark B config).Reachable σ) :
    I σ.shared ∧ ∀ t ∈ σ.permits.tasks, t.Meets J K := by
  refine System.ReachBy.invariant (P := fun σ : Runner D W =>
    I σ.shared ∧ ∀ t ∈ σ.permits.tasks, t.Meets J K) ?_ ?_ h
  · rintro σ ⟨hinit, hσ⟩
    refine ⟨hB.init _ hinit, ?_⟩
    rw [hσ]
    exact fun t ht => absurd ht List.not_mem_nil
  · rintro σ step σ' - ⟨hI, htasks⟩ - hs
    cases effect_of_next hs with
    | skipped => exact ⟨hI, htasks⟩
    | dispatched d permits hphase hspawn =>
      obtain ⟨-, rfl⟩ := Permits.spawn_eq_some hspawn
      refine ⟨hI, fun t ht => ?_⟩
      rcases List.mem_append.mp ht with ht | ht
      · exact htasks t ht
      · obtain rfl := List.mem_singleton.mp ht
        exact hB.start d
    | panicked => exact ⟨hI, htasks⟩
    | stopped => exact ⟨hI, htasks⟩
    | drained => exact ⟨hI, htasks⟩
    | moved k u t shared samples batches hk hmove =>
      obtain ⟨hI', ht⟩ := hB.move hI (htasks u (List.mem_of_getElem? hk)) hmove
      refine ⟨hI', fun t' ht' => ?_⟩
      rcases List.mem_or_eq_of_mem_set ht' with ht' | rfl
      · exact htasks t' ht'
      · exact ht

end Keeps

end EventSourcing.Bench
