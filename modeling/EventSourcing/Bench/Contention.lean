import EventSourcing.Bench.Runner
import EventSourcing.Concurrency.System
import EventSourcing.Concurrency.Tally

/-!
# The contention phase

The `run` functions of the three `hot_stream_contention_bench` modules have one shape: every task
writes to a hot stream in a loop of attempts, or once to a cold stream, and adds to eight shared
counters. They differ in what they make of an answer for `hot_revisions` (`Backend`).

Where every task has ended, the counters are what the outcomes of the attempts add up to
(`counters_eq`). A hot write that ends with an error that is no conflict is counted as failed
twice and as exhausted (`totals_iff`), and retries are counted per conflict and once more in bulk
on success (`retries_iff`).
-/

namespace EventSourcing.Bench.Contention

open Concurrency Tally

structure Config where
  concurrency : UInt64
  hotStreams : UInt64
  coldStreams : UInt64
  maxRetries : UInt64

namespace Config

variable (config : Config)

/-- `usize::try_from(config.concurrency).unwrap_or(usize::MAX).min(96)` -/
def maxInFlight : ℕ := min config.concurrency.toNat 96

end Config

/-- What a task stores in `hot_revisions`. -/
structure Backend where
  /-- after an append, from the expected revision and the answer -/
  advance : (expected answer : UInt64) → UInt64
  /-- after a conflict, from the result of the read of the last version or event -/
  resync : Option (Option UInt64) → Option UInt64

/-- `expected + 1`; `current + 1` of a stream that has been read -/
def postgres : Backend where
  advance expected _ := expected + 1
  resync
    | some (some current) => some (current + 1)
    | _ => none

def mongodb : Backend where
  advance expected _ := expected + 1
  resync
    | some (some current) => some (current + 1)
    | _ => none

/-- `next_rev`; the revision of the last event, or zero -/
def kurrentdb : Backend where
  advance _ answer := answer
  resync
    | some (some current) => some current
    | _ => some 0

inductive Counter where
  | totalEvents
  | hotEvents
  | coldEvents
  | conflicts
  | retries
  | retrySuccesses
  | retryExhausted
  | failedWrites
  deriving DecidableEq

/-- How an attempt of a hot write ends. -/
inductive Attempt where
  | success
  | conflict
  | otherError
  deriving DecidableEq

/-- The write of a task: the attempts that have ended, or how the write to a cold stream has. -/
inductive Write where
  | undecided
  | hot (attempts : List Attempt)
  | cold (ok : Option Bool)
  deriving DecidableEq

/-- Where a task is. -/
inductive Point where
  | spawned
  /-- at the start of an attempt -/
  | loading (hotIdx attempt : ℕ)
  | appending (hotIdx attempt : ℕ) (expected : UInt64)
  /-- before the `compare_exchange` after a success -/
  | advancing (hotIdx attempt : ℕ) (expected next : UInt64)
  /-- before the read after a conflict -/
  | rereading (hotIdx attempt : ℕ)
  | storing (hotIdx attempt : ℕ) (revision : UInt64)
  | coldAppending
  /-- nothing is left but the additions to the counters -/
  | leaving
  /-- the permit has been dropped -/
  | ended
  deriving DecidableEq

structure Task where
  point : Point
  /-- the `fetch_add`s before the task goes on from its point -/
  pending : List (Counter × ℕ)
  write : Write
  /-- history: every `fetch_add` the task has come to -/
  issued : List (Counter × ℕ)
  deriving DecidableEq

namespace Task

def spawn : Task := ⟨.spawned, [], .undecided, []⟩

variable (t : Task)

def running : Bool := decide (t.point ≠ .ended)

/-- The task comes to `fetch_add`s and, after them, to a point. -/
def goto (point : Point) (write : Write) (adds : List (Counter × ℕ)) : Task where
  point := point
  pending := adds
  write := write
  issued := t.issued ++ adds

/-- One more attempt has ended. -/
def record (attempt : Attempt) : Write :=
  match t.write with
  | .hot attempts => .hot (attempts ++ [attempt])
  | write => write

end Task

/-- The additions when a hot write has succeeded. -/
def successAdds (attempt : ℕ) : List (Counter × ℕ) :=
  (if 0 < attempt then [(.retries, attempt), (.retrySuccesses, 1)] else []) ++ [(.totalEvents, 1)]

def conflictAdds : List (Counter × ℕ) := [(.conflicts, 1), (.retries, 1)]

/-- `if !wrote` -/
def notWroteAdds : List (Counter × ℕ) := [(.retryExhausted, 1), (.failedWrites, 1)]

inductive TaskStep where
  | pick (isHot : Bool) (hotIdx coldIdx : ℕ)
  | load
  | append (outcome : Attempt) (answer : UInt64)
  | exchange
  | reread (result : Option (Option UInt64))
  | store
  | appendCold (ok : Bool)
  | exit
  deriving DecidableEq

section Body

variable (B : Backend) (config : Config)

/-- `continue`: the next attempt, unless the loop is at its end. -/
def Task.continueLoop (t : Task) (hotIdx attempt : ℕ) : Task :=
  if attempt < config.maxRetries.toNat then t.goto (.loading hotIdx (attempt + 1)) t.write []
  else t.goto .leaving t.write notWroteAdds

/-- What a task does that has nothing to add: what becomes of `hot_revisions` and of the task. -/
def Task.next (t : Task) (revisions : ℕ → UInt64) : TaskStep → Option ((ℕ → UInt64) × Task)
  | .pick isHot hotIdx coldIdx =>
    match t.point with
    | .spawned =>
      if hotIdx < (max config.hotStreams 1).toNat ∧ coldIdx < (max config.coldStreams 1).toNat then
        some (revisions, if isHot then t.goto (.loading hotIdx 0) (.hot []) [(.hotEvents, 1)]
          else t.goto .coldAppending (.cold none) [(.coldEvents, 1)])
      else none
    | _ => none
  | .load =>
    match t.point with
    | .loading hotIdx attempt =>
      some (revisions, t.goto (.appending hotIdx attempt (revisions hotIdx)) t.write [])
    | _ => none
  | .append outcome answer =>
    match t.point with
    | .appending hotIdx attempt expected =>
      match outcome with
      | .success => some (revisions, t.goto
          (.advancing hotIdx attempt expected (B.advance expected answer)) (t.record .success) [])
      | .conflict => some (revisions,
          t.goto (.rereading hotIdx attempt) (t.record .conflict) conflictAdds)
      -- `break`, and then the code after the loop
      | .otherError => some (revisions,
          t.goto .leaving (t.record .otherError) ((.failedWrites, 1) :: notWroteAdds))
    | _ => none
  | .exchange =>
    match t.point with
    | .advancing hotIdx attempt expected next =>
      let revisions' :=
        if revisions hotIdx = expected then Function.update revisions hotIdx next else revisions
      some (revisions', t.goto .leaving t.write (successAdds attempt))
    | _ => none
  | .reread result =>
    match t.point with
    | .rereading hotIdx attempt =>
      match B.resync result with
      | some revision => some (revisions, t.goto (.storing hotIdx attempt revision) t.write [])
      | none => some (revisions, t.continueLoop config hotIdx attempt)
    | _ => none
  | .store =>
    match t.point with
    | .storing hotIdx attempt revision =>
      some (Function.update revisions hotIdx revision, t.continueLoop config hotIdx attempt)
    | _ => none
  | .appendCold ok =>
    match t.point with
    | .coldAppending => some (revisions, t.goto .leaving (.cold (some ok))
        [if ok then (.totalEvents, 1) else (.failedWrites, 1)])
    | _ => none
  | .exit =>
    match t.point with
    | .leaving => some (revisions, t.goto .ended t.write [])
    | _ => none

end Body

structure State where
  permits : Permits Task
  counters : Counter → ℕ
  hotRevisions : ℕ → UInt64
  phase : Phase

inductive Action where
  /-- a tick within the duration of the phase -/
  | tick
  /-- a tick after it -/
  | stop
  | acquireMany
  /-- task `k` makes its next `fetch_add` -/
  | add (k : ℕ)
  | step (k : ℕ) (s : TaskStep)
  deriving DecidableEq

namespace State

variable (B : Backend) (config : Config) (σ : State)

/-- Task `k` moves on to `t`. -/
def moveTask (k : ℕ) (t : Task) : State :=
  { σ with permits := σ.permits.move Task.running k t }

def next : Action → Option State
  | .tick =>
    match σ.phase with
    | .dispatching =>
      -- without a free permit the tick is skipped
      if σ.permits.free = 0 then some σ
      else (σ.permits.spawn .spawn).map fun permits => { σ with permits := permits }
    | _ => none
  | .stop =>
    match σ.phase with
    | .dispatching => some { σ with phase := .draining }
    | _ => none
  | .acquireMany =>
    match σ.phase with
    | .draining =>
      -- the permits are dropped at once
      if config.maxInFlight ≤ σ.permits.free then some { σ with phase := .drained } else none
    | _ => none
  | .add k =>
    match σ.permits.tasks[k]? with
    | some t =>
      match t.pending with
      | (c, n) :: rest =>
        some { σ.moveTask k { t with pending := rest } with
          counters := Function.update σ.counters c (σ.counters c + n) }
      | [] => none
    | none => none
  | .step k s =>
    match σ.permits.tasks[k]? with
    | some t =>
      if t.pending = [] then
        (t.next B config σ.hotRevisions s).map fun (revisions, t') =>
          { σ.moveTask k t' with hotRevisions := revisions }
      else none
    | none => none

end State

/-- The contention phase; the baseline before it leaves the counters alone. -/
def contention (B : Backend) (config : Config) : System State Action where
  init σ := (∀ c, σ.counters c = 0) ∧ σ =
    { permits := { free := config.maxInFlight, tasks := [] }
      counters := σ.counters
      hotRevisions := σ.hotRevisions
      phase := .dispatching }
  next := State.next B config

/-! ### The life of a task -/

/-- The additions of a hot write up to its `n`-th conflict. -/
def hotAdds (n : ℕ) : List (Counter × ℕ) :=
  (.hotEvents, 1) :: (List.replicate n conflictAdds).flatten

lemma hotAdds_succ (n : ℕ) : hotAdds (n + 1) = hotAdds n ++ conflictAdds := by
  rw [hotAdds, hotAdds, List.replicate_succ', List.flatten_append, List.cons_append]
  simp

/-- How a write ends, with all its additions. -/
inductive Finished (maxRetries : ℕ) : Write → List (Counter × ℕ) → Prop where
  | succeeded {n : ℕ} (h : n ≤ maxRetries) :
      Finished maxRetries (.hot (List.replicate n .conflict ++ [.success]))
        (hotAdds n ++ successAdds n)
  | exhausted :
      Finished maxRetries (.hot (List.replicate (maxRetries + 1) .conflict))
        (hotAdds (maxRetries + 1) ++ notWroteAdds)
  | erred {n : ℕ} (h : n ≤ maxRetries) :
      Finished maxRetries (.hot (List.replicate n .conflict ++ [.otherError]))
        (hotAdds n ++ (.failedWrites, 1) :: notWroteAdds)
  | cold (ok : Bool) :
      Finished maxRetries (.cold (some ok))
        [(.coldEvents, 1), if ok then (.totalEvents, 1) else (.failedWrites, 1)]

/-- What a task has done when it comes to its point: the attempts before the one in progress were
conflicts. -/
def Task.Ok (maxRetries : ℕ) (t : Task) : Prop :=
  match t.point with
  | .spawned => t.issued = []
  | .loading _ attempt | .appending _ attempt _ =>
    attempt ≤ maxRetries ∧ t.write = .hot (List.replicate attempt .conflict)
      ∧ t.issued = hotAdds attempt
  | .advancing _ attempt _ _ =>
    attempt ≤ maxRetries ∧ t.write = .hot (List.replicate attempt .conflict ++ [.success])
      ∧ t.issued = hotAdds attempt
  | .rereading _ attempt | .storing _ attempt _ =>
    attempt ≤ maxRetries ∧ t.write = .hot (List.replicate (attempt + 1) .conflict)
      ∧ t.issued = hotAdds (attempt + 1)
  | .coldAppending => t.issued = [(.coldEvents, 1)]
  | .leaving => Finished maxRetries t.write t.issued
  | .ended => Finished maxRetries t.write t.issued ∧ t.pending = []

variable {B : Backend} {config : Config} {t t' : Task} {maxRetries hotIdx attempt : ℕ}
  {revisions revisions' : ℕ → UInt64} {s : TaskStep}

@[simp] lemma goto_point (point : Point) (write : Write) (adds : List (Counter × ℕ)) :
    (t.goto point write adds).point = point := rfl

@[simp] lemma goto_write (point : Point) (write : Write) (adds : List (Counter × ℕ)) :
    (t.goto point write adds).write = write := rfl

@[simp] lemma goto_pending (point : Point) (write : Write) (adds : List (Counter × ℕ)) :
    (t.goto point write adds).pending = adds := rfl

@[simp] lemma goto_issued (point : Point) (write : Write) (adds : List (Counter × ℕ)) :
    (t.goto point write adds).issued = t.issued ++ adds := rfl

lemma record_of_hot {attempts : List Attempt} {a : Attempt} (h : t.write = .hot attempts) :
    t.record a = .hot (attempts ++ [a]) := by
  rw [Task.record, h]

/-- After its conflict an attempt is followed by the next one or by the end of the loop. -/
lemma ok_continueLoop (hle : attempt ≤ config.maxRetries.toNat)
    (hwrite : t.write = .hot (List.replicate (attempt + 1) .conflict))
    (hissued : t.issued = hotAdds (attempt + 1)) :
    (t.continueLoop config hotIdx attempt).Ok config.maxRetries.toNat := by
  rw [Task.continueLoop]
  split_ifs with hlt
  · exact ⟨hlt, hwrite, by rw [goto_issued, hissued, List.append_nil]⟩
  · have hlast : attempt = config.maxRetries.toNat := by omega
    subst hlast
    rw [Task.Ok, goto_point]
    simp only [goto_write, goto_issued, hwrite, hissued]
    exact .exhausted

/-- What the steps of a task do. -/
inductive Move (config : Config) (t : Task) : Task → Prop where
  | hot (hotIdx : ℕ) (hpoint : t.point = .spawned) :
      Move config t (t.goto (.loading hotIdx 0) (.hot []) [(.hotEvents, 1)])
  | cold (hpoint : t.point = .spawned) :
      Move config t (t.goto .coldAppending (.cold none) [(.coldEvents, 1)])
  | load {hotIdx attempt : ℕ} (expected : UInt64) (hpoint : t.point = .loading hotIdx attempt) :
      Move config t (t.goto (.appending hotIdx attempt expected) t.write [])
  | success {hotIdx attempt : ℕ} {expected : UInt64} (next : UInt64)
      (hpoint : t.point = .appending hotIdx attempt expected) :
      Move config t (t.goto (.advancing hotIdx attempt expected next) (t.record .success) [])
  | conflict {hotIdx attempt : ℕ} {expected : UInt64}
      (hpoint : t.point = .appending hotIdx attempt expected) :
      Move config t (t.goto (.rereading hotIdx attempt) (t.record .conflict) conflictAdds)
  | otherError {hotIdx attempt : ℕ} {expected : UInt64}
      (hpoint : t.point = .appending hotIdx attempt expected) :
      Move config t
        (t.goto .leaving (t.record .otherError) ((.failedWrites, 1) :: notWroteAdds))
  | exchange {hotIdx attempt : ℕ} {expected next : UInt64}
      (hpoint : t.point = .advancing hotIdx attempt expected next) :
      Move config t (t.goto .leaving t.write (successAdds attempt))
  | reread {hotIdx attempt : ℕ} (revision : UInt64) (hpoint : t.point = .rereading hotIdx attempt) :
      Move config t (t.goto (.storing hotIdx attempt revision) t.write [])
  | unread {hotIdx attempt : ℕ} (hpoint : t.point = .rereading hotIdx attempt) :
      Move config t (t.continueLoop config hotIdx attempt)
  | store {hotIdx attempt : ℕ} {revision : UInt64}
      (hpoint : t.point = .storing hotIdx attempt revision) :
      Move config t (t.continueLoop config hotIdx attempt)
  | appendCold (ok : Bool) (hpoint : t.point = .coldAppending) :
      Move config t (t.goto .leaving (.cold (some ok))
        [if ok then (.totalEvents, 1) else (.failedWrites, 1)])
  | exit (hpoint : t.point = .leaving) : Move config t (t.goto .ended t.write [])

lemma move_of_next (hs : t.next B config revisions s = some (revisions', t')) :
    Move config t t' := by
  cases s with
  | pick isHot hotIdx coldIdx =>
    simp only [Task.next] at hs
    split at hs
    · rename_i hpoint
      split_ifs at hs with hidx
      · obtain ⟨-, rfl⟩ := Prod.mk.inj (Option.some.inj hs)
        exact .hot hotIdx hpoint
      · obtain ⟨-, rfl⟩ := Prod.mk.inj (Option.some.inj hs)
        exact .cold hpoint
    · cases hs
  | load =>
    simp only [Task.next] at hs
    split at hs
    · rename_i hpoint
      obtain ⟨-, rfl⟩ := Prod.mk.inj (Option.some.inj hs)
      exact .load _ hpoint
    · cases hs
  | append outcome answer =>
    simp only [Task.next] at hs
    split at hs
    · rename_i hpoint
      cases outcome with
      | success =>
        obtain ⟨-, rfl⟩ := Prod.mk.inj (Option.some.inj hs)
        exact .success _ hpoint
      | conflict =>
        obtain ⟨-, rfl⟩ := Prod.mk.inj (Option.some.inj hs)
        exact .conflict hpoint
      | otherError =>
        obtain ⟨-, rfl⟩ := Prod.mk.inj (Option.some.inj hs)
        exact .otherError hpoint
    · cases hs
  | exchange =>
    simp only [Task.next] at hs
    split at hs
    · rename_i hpoint
      obtain ⟨-, rfl⟩ := Prod.mk.inj (Option.some.inj hs)
      exact .exchange hpoint
    · cases hs
  | reread result =>
    simp only [Task.next] at hs
    split at hs
    · rename_i hpoint
      split at hs
      · obtain ⟨-, rfl⟩ := Prod.mk.inj (Option.some.inj hs)
        exact .reread _ hpoint
      · obtain ⟨-, rfl⟩ := Prod.mk.inj (Option.some.inj hs)
        exact .unread hpoint
    · cases hs
  | store =>
    simp only [Task.next] at hs
    split at hs
    · rename_i hpoint
      obtain ⟨-, rfl⟩ := Prod.mk.inj (Option.some.inj hs)
      exact .store hpoint
    · cases hs
  | appendCold ok =>
    simp only [Task.next] at hs
    split at hs
    · rename_i hpoint
      obtain ⟨-, rfl⟩ := Prod.mk.inj (Option.some.inj hs)
      exact .appendCold ok hpoint
    · cases hs
  | exit =>
    simp only [Task.next] at hs
    split at hs
    · rename_i hpoint
      obtain ⟨-, rfl⟩ := Prod.mk.inj (Option.some.inj hs)
      exact .exit hpoint
    · cases hs

lemma Move.running (h : Move config t t') : t.running = true := by
  cases h <;> simp [Task.running, *]

/-- A task issues what it has to add. -/
lemma Move.issued (h : Move config t t') : t'.issued = t.issued ++ t'.pending := by
  have hcontinue : ∀ hotIdx attempt, (t.continueLoop config hotIdx attempt).issued
      = t.issued ++ (t.continueLoop config hotIdx attempt).pending := by
    intro hotIdx attempt
    rw [Task.continueLoop]
    split_ifs <;> rfl
  cases h with
  | unread => exact hcontinue _ _
  | store => exact hcontinue _ _
  | _ => rfl

/-- A step of a task takes it from what it has done to what it has done next. -/
lemma Move.ok (h : Move config t t') (hok : t.Ok config.maxRetries.toNat) :
    t'.Ok config.maxRetries.toNat := by
  cases h with
  | hot hotIdx hpoint =>
    simp only [Task.Ok, hpoint] at hok
    exact ⟨Nat.zero_le _, rfl, by rw [goto_issued, hok]; rfl⟩
  | cold hpoint =>
    simp only [Task.Ok, hpoint] at hok
    simp [Task.Ok, hok]
  | load expected hpoint =>
    simp only [Task.Ok, hpoint] at hok
    simpa [Task.Ok] using hok
  | success next hpoint =>
    simp only [Task.Ok, hpoint] at hok
    obtain ⟨hle, hwrite, hissued⟩ := hok
    simp [Task.Ok, hle, hissued, record_of_hot hwrite]
  | conflict hpoint =>
    simp only [Task.Ok, hpoint] at hok
    obtain ⟨hle, hwrite, hissued⟩ := hok
    simp [Task.Ok, hle, hissued, record_of_hot hwrite, hotAdds_succ, List.replicate_succ']
  | otherError hpoint =>
    simp only [Task.Ok, hpoint] at hok
    obtain ⟨hle, hwrite, hissued⟩ := hok
    simp only [Task.Ok, goto_point, goto_write, goto_issued, hissued, record_of_hot hwrite]
    exact .erred hle
  | exchange hpoint =>
    simp only [Task.Ok, hpoint] at hok
    obtain ⟨hle, hwrite, hissued⟩ := hok
    simp only [Task.Ok, goto_point, goto_write, goto_issued, hissued, hwrite]
    exact .succeeded hle
  | reread revision hpoint =>
    simp only [Task.Ok, hpoint] at hok
    simpa [Task.Ok] using hok
  | unread hpoint =>
    simp only [Task.Ok, hpoint] at hok
    exact ok_continueLoop hok.1 hok.2.1 hok.2.2
  | store hpoint =>
    simp only [Task.Ok, hpoint] at hok
    exact ok_continueLoop hok.1 hok.2.1 hok.2.2
  | appendCold ok hpoint =>
    simp only [Task.Ok, hpoint] at hok
    simp only [Task.Ok, goto_point, goto_write, goto_issued, hok]
    exact .cold ok
  | exit hpoint =>
    simp only [Task.Ok, hpoint] at hok
    simpa [Task.Ok] using hok

/-- An addition leaves the task where it is. -/
lemma Task.Ok.add {c : Counter} {n : ℕ} {rest : List (Counter × ℕ)} (h : t.Ok maxRetries)
    (hpending : t.pending = (c, n) :: rest) :
    t.running = true ∧ ({ t with pending := rest } : Task).Ok maxRetries := by
  have hpoint : t.point ≠ .ended := by
    intro hended
    simp only [Task.Ok, hended, hpending] at h
    cases h.2
  refine ⟨by simp [Task.running, hpoint], ?_⟩
  simp only [Task.Ok] at h ⊢
  split <;> simp_all

/-! ### The whole phase -/

variable {σ σ' : State} {action : Action}

/-- What holds of the permits, the counters and the tasks in every state. -/
structure State.Inv (config : Config) (σ : State) : Prop where
  balanced : σ.permits.Balanced Task.running config.maxInFlight
  settled : Settled σ.counters Task.issued Task.pending σ.permits.tasks
  ok : ∀ t ∈ σ.permits.tasks, t.Ok config.maxRetries.toNat
  drained : σ.phase = .drained → ∀ t ∈ σ.permits.tasks, t.running = false

/-- A task that runs moves on, and with it what the tasks have issued and added. -/
lemma State.Inv.moved (h : σ.Inv config) {k : ℕ} {u t : Task} {counters : Counter → ℕ}
    {revisions : ℕ → UInt64} (hk : σ.permits.tasks[k]? = some u) (hu : u.running = true)
    (ht : t.Ok config.maxRetries.toNat)
    (hsettled : Settled counters Task.issued Task.pending (σ.permits.tasks.set k t)) :
    State.Inv config
      { σ.moveTask k t with counters := counters, hotRevisions := revisions } where
  balanced := h.balanced.move hk hu
  settled := hsettled
  ok t' ht' := by
    rcases List.mem_or_eq_of_mem_set ht' with ht' | rfl
    · exact h.ok t' ht'
    · exact ht
  drained hphase := by
    -- every task has ended, so none can move
    have hended := h.drained hphase u (List.mem_of_getElem? hk)
    rw [hu] at hended
    cases hended

lemma State.Inv.next (h : σ.Inv config) (hs : σ.next B config action = some σ') :
    σ'.Inv config := by
  cases action with
  | tick =>
    simp only [State.next] at hs
    split at hs
    · rename_i hphase
      split_ifs at hs with hfree
      · obtain rfl := Option.some.inj hs
        exact h
      · obtain ⟨permits, hspawn, rfl⟩ := Option.map_eq_some_iff.mp hs
        obtain ⟨-, rfl⟩ := Permits.spawn_eq_some hspawn
        refine ⟨h.balanced.spawn rfl hspawn, h.settled.spawn rfl rfl, ?_, ?_⟩
        · intro t ht
          rcases List.mem_append.mp ht with ht | ht
          · exact h.ok t ht
          · obtain rfl := List.mem_singleton.mp ht
            rfl
        · intro hdrained
          rw [hphase] at hdrained
          cases hdrained
    · cases hs
  | stop =>
    simp only [State.next] at hs
    split at hs
    · obtain rfl := Option.some.inj hs
      exact ⟨h.balanced, h.settled, h.ok, nofun⟩
    · cases hs
  | acquireMany =>
    simp only [State.next] at hs
    split at hs
    · split_ifs at hs with hfree
      obtain rfl := Option.some.inj hs
      exact ⟨h.balanced, h.settled, h.ok, fun _ => h.balanced.ended hfree⟩
    · cases hs
  | add k =>
    simp only [State.next] at hs
    split at hs
    · rename_i t hk
      split at hs
      · rename_i c n rest hpending
        obtain rfl := Option.some.inj hs
        obtain ⟨hrunning, hok⟩ := (h.ok t (List.mem_of_getElem? hk)).add hpending
        exact h.moved hk hrunning hok (h.settled.add hk rfl hpending)
      · cases hs
    · cases hs
  | step k s =>
    simp only [State.next] at hs
    split at hs
    · rename_i t hk
      split_ifs at hs with hpending
      obtain ⟨⟨revisions, t'⟩, hnext, rfl⟩ := Option.map_eq_some_iff.mp hs
      have hmove := move_of_next hnext
      refine h.moved hk hmove.running (hmove.ok (h.ok t (List.mem_of_getElem? hk))) ?_
      exact h.settled.issue hk hmove.issued (by rw [hpending, List.nil_append])
    · cases hs

lemma inv_of_reachable (h : (contention B config).Reachable σ) : σ.Inv config := by
  refine System.ReachBy.invariant (P := State.Inv config) ?_ ?_ h
  · rintro σ ⟨hzero, hσ⟩
    have hcounters : σ.counters = fun _ => 0 := funext hzero
    rw [hσ, hcounters]
    exact ⟨Permits.balanced_initial, settled_nil, nofun, nofun⟩
  · intro σ action σ' _ hinv _ hs
    exact hinv.next hs

/-! ### What the outcomes of a write add up to -/

namespace Write

variable (maxRetries : ℕ) (w : Write)

def attempts : Write → List Attempt
  | hot attempts => attempts
  | _ => []

def succeeded : Write → Bool
  | hot attempts => decide (.success ∈ attempts)
  | cold ok => decide (ok = some true)
  | undecided => false

/-- Every one of the `max_retries + 1` attempts has ended in a conflict. -/
def exhausted : Bool :=
  decide (w.attempts.length = maxRetries + 1 ∧ ∀ a ∈ w.attempts, a = .conflict)

/-- A hot write that has ended with an error that is no conflict. -/
def erred : Bool := decide (.otherError ∈ w.attempts)

def succeededAfterConflict : Bool := decide (.success ∈ w.attempts ∧ .conflict ∈ w.attempts)

/-- The retries that are counted and were none: every retry of a success once more, and the last
conflict of a write that gives up. -/
def surplus : ℕ :=
  (if w.succeededAfterConflict then w.attempts.count .conflict else 0)
    + if w.exhausted maxRetries then 1 else 0

end Write

section Amounts

variable {w : Write} {adds : List (Counter × ℕ)} (c : Counter)

@[simp] lemma amount_hotAdds (n : ℕ) :
    amount c (hotAdds n) = (if .hotEvents = c then 1 else 0) + n * amount c conflictAdds := by
  rw [hotAdds, amount_cons, amount_replicate]

lemma amount_successAdds (n : ℕ) : amount c (successAdds n)
    = (if .totalEvents = c then 1 else 0) + (if .retries = c then n else 0)
      + if .retrySuccesses = c ∧ 0 < n then 1 else 0 := by
  rw [successAdds]
  by_cases hn : 0 < n
  · simp only [if_pos hn, amount_append, amount_cons, amount_nil, and_iff_left hn]
    omega
  · have hzero : n = 0 := by omega
    simp [hzero]

/-- A write that has ended otherwise has not been given up. -/
lemma exhausted_concat (n : ℕ) {a : Attempt} (ha : a ≠ .conflict) :
    (Write.hot (List.replicate n .conflict ++ [a])).exhausted maxRetries = false := by
  refine decide_eq_false fun h => ha ?_
  exact h.2 a (List.mem_append_right _ (List.mem_singleton_self a))

lemma exhausted_replicate :
    (Write.hot (List.replicate (maxRetries + 1) .conflict)).exhausted maxRetries = true :=
  decide_eq_true ⟨List.length_replicate, fun _ => List.eq_of_mem_replicate⟩

lemma exhausted_cold (ok : Option Bool) : (Write.cold ok).exhausted maxRetries = false :=
  decide_eq_false fun h => by simp [Write.attempts] at h

/-- The additions of one write to the totals. -/
lemma Finished.totals (h : Finished maxRetries w adds) :
    amount .hotEvents adds + amount .coldEvents adds = 1
      ∧ amount .totalEvents adds = (if w.succeeded then 1 else 0)
      ∧ amount .failedWrites adds
        = (if !w.succeeded then 1 else 0) + (if w.erred then 1 else 0)
      ∧ amount .retryExhausted adds
        = (if w.exhausted maxRetries then 1 else 0) + if w.erred then 1 else 0 := by
  cases h with
  | succeeded h =>
    rw [exhausted_concat _ (by decide)]
    simp [amount_successAdds, conflictAdds, Write.succeeded, Write.erred, Write.attempts]
  | exhausted =>
    rw [exhausted_replicate]
    simp [notWroteAdds, conflictAdds, Write.succeeded, Write.erred, Write.attempts]
  | erred h =>
    rw [exhausted_concat _ (by decide)]
    simp [notWroteAdds, conflictAdds, Write.succeeded, Write.erred, Write.attempts]
  | cold ok =>
    rw [exhausted_cold]
    cases ok <;> simp [Write.succeeded, Write.erred, Write.attempts]

/-- The additions of one write to the counters of retries. -/
lemma Finished.retries (h : Finished maxRetries w adds) :
    amount .conflicts adds = w.attempts.count .conflict
      ∧ amount .retries adds = (w.attempts.length - 1) + w.surplus maxRetries
      ∧ amount .retrySuccesses adds = if w.succeededAfterConflict then 1 else 0 := by
  cases h with
  | @succeeded n h =>
    rw [Write.surplus, exhausted_concat _ (by decide)]
    by_cases hn : n = 0
    · simp [hn, amount_successAdds, conflictAdds, Write.succeededAfterConflict, Write.attempts]
    · have hpos : 0 < n := Nat.pos_of_ne_zero hn
      simp [hn, hpos, amount_successAdds, conflictAdds, Write.succeededAfterConflict,
        Write.attempts]
  | exhausted =>
    rw [Write.surplus, exhausted_replicate]
    simp [notWroteAdds, conflictAdds, Write.succeededAfterConflict, Write.attempts]
  | erred h =>
    rw [Write.surplus, exhausted_concat _ (by decide)]
    simp [notWroteAdds, conflictAdds, Write.succeededAfterConflict, Write.attempts]
  | cold ok =>
    rw [Write.surplus, exhausted_cold]
    cases ok <;> simp [Write.succeededAfterConflict, Write.attempts]

/-- Retries are counted right where none is counted for a success or for a write given up. -/
lemma surplus_eq_zero_iff : w.surplus maxRetries = 0
    ↔ w.succeededAfterConflict = false ∧ w.exhausted maxRetries = false := by
  rw [Write.surplus, Nat.add_eq_zero_iff]
  constructor
  · rintro ⟨hsuccess, hexhausted⟩
    constructor
    · by_contra hafter
      rw [Bool.not_eq_false] at hafter
      rw [if_pos hafter, List.count_eq_zero] at hsuccess
      exact hsuccess (of_decide_eq_true hafter).2
    · by_contra hup
      rw [Bool.not_eq_false] at hup
      rw [if_pos hup] at hexhausted
      cases hexhausted
  · rintro ⟨hafter, hup⟩
    simp [hafter, hup]

end Amounts

/-! ### The counters at the end -/

lemma Task.Ok.finished (h : t.Ok maxRetries) (hended : t.running = false) :
    Finished maxRetries t.write t.issued ∧ t.pending = [] := by
  have hpoint : t.point = .ended := by simpa [Task.running] using hended
  simpa [Task.Ok, hpoint] using h

/-- The counters hold what the writes have issued. -/
lemma counters_eq (h : (contention B config).Reachable σ)
    (hended : ∀ t ∈ σ.permits.tasks, t.running = false) (c : Counter) :
    (∀ t ∈ σ.permits.tasks, Finished config.maxRetries.toNat t.write t.issued)
      ∧ σ.counters c = sumOver (fun t => amount c t.issued) σ.permits.tasks := by
  have hinv := inv_of_reachable h
  have hfinished := fun t ht => (hinv.ok t ht).finished (hended t ht)
  exact ⟨fun t ht => (hfinished t ht).1,
    hinv.settled.counters_eq (fun t ht => (hfinished t ht).2) c⟩

/-- Every dispatched write counts once, as a success or as a failure, and the writes that were given
up are those whose every attempt ended in a conflict. -/
structure Totals (config : Config) (σ : State) : Prop where
  balance : σ.counters .hotEvents + σ.counters .coldEvents
    = σ.counters .totalEvents + σ.counters .failedWrites
  successes : σ.counters .totalEvents = σ.permits.tasks.countP fun t => t.write.succeeded
  failures : σ.counters .failedWrites = σ.permits.tasks.countP fun t => !t.write.succeeded
  exhausted : σ.counters .retryExhausted
    = σ.permits.tasks.countP fun t => t.write.exhausted config.maxRetries.toNat

/-- When all tasks have finished, the totals are right if and only if no hot write has ended with an
error that is no conflict. -/
theorem totals_iff (h : (contention B config).Reachable σ)
    (hended : ∀ t ∈ σ.permits.tasks, t.running = false) :
    Totals config σ ↔ ∀ t ∈ σ.permits.tasks, t.write.erred = false := by
  have hfinished := (counters_eq h hended .totalEvents).1
  have hcounter := fun c => (counters_eq h hended c).2
  have hdispatched : σ.counters .hotEvents + σ.counters .coldEvents = σ.permits.tasks.length := by
    rw [hcounter, hcounter, ← sumOver_add, ← sumOver_one]
    exact sumOver_congr fun t ht => (hfinished t ht).totals.1
  have hsuccesses : σ.counters .totalEvents
      = σ.permits.tasks.countP fun t => t.write.succeeded := by
    rw [hcounter, countP_eq_over]
    exact sumOver_congr fun t ht => (hfinished t ht).totals.2.1
  have hfailures : σ.counters .failedWrites = (σ.permits.tasks.countP fun t => !t.write.succeeded)
      + σ.permits.tasks.countP fun t => t.write.erred := by
    rw [hcounter, countP_eq_over, countP_eq_over, ← sumOver_add]
    exact sumOver_congr fun t ht => (hfinished t ht).totals.2.2.1
  have hexhausted : σ.counters .retryExhausted
      = (σ.permits.tasks.countP fun t => t.write.exhausted config.maxRetries.toNat)
        + σ.permits.tasks.countP fun t => t.write.erred := by
    rw [hcounter, countP_eq_over, countP_eq_over, ← sumOver_add]
    exact sumOver_congr fun t ht => (hfinished t ht).totals.2.2.2
  have hnone : (∀ t ∈ σ.permits.tasks, t.write.erred = false)
      ↔ (σ.permits.tasks.countP fun t => t.write.erred) = 0 := by
    rw [List.countP_eq_zero]
    simp
  have hboth : σ.permits.tasks.length = (σ.permits.tasks.countP fun t => t.write.succeeded)
      + σ.permits.tasks.countP fun t => !t.write.succeeded := by
    rw [List.length_eq_countP_add_countP fun t : Task => t.write.succeeded]
    simp
  rw [hnone]
  constructor
  · intro htotals
    have := htotals.exhausted
    omega
  · intro hzero
    constructor
    · omega
    · exact hsuccesses
    · omega
    · omega

/-- One task at a time, up to ten retries. -/
def oneTask : Config := ⟨1, 1, 1, 10⟩

def start (config : Config) : State where
  permits := { free := config.maxInFlight, tasks := [] }
  counters _ := 0
  hotRevisions _ := 0
  phase := .dispatching

lemma start_init : (contention B config).init (start config) := ⟨fun _ => rfl, rfl⟩

/-- A hot write that succeeds at its second attempt. -/
def secondAttempt : List Action :=
  [.tick, .step 0 (.pick true 0 0), .add 0, .step 0 .load, .step 0 (.append .conflict 0), .add 0,
    .add 0, .step 0 (.reread (some (some 0))), .step 0 .store, .step 0 .load,
    .step 0 (.append .success 2), .step 0 .exchange, .add 0, .add 0, .add 0, .step 0 .exit]

/-- The write counts once, whatever it took, for each backend. -/
theorem totals_secondAttempt :
    Totals oneTask ((contention postgres oneTask).after secondAttempt (start oneTask)) ∧
      Totals oneTask ((contention mongodb oneTask).after secondAttempt (start oneTask)) ∧
      Totals oneTask ((contention kurrentdb oneTask).after secondAttempt (start oneTask)) := by
  have hpostgres := (contention postgres oneTask).reachable_after secondAttempt
    start_init (by decide)
  have hmongodb := (contention mongodb oneTask).reachable_after secondAttempt
    start_init (by decide)
  have hkurrentdb := (contention kurrentdb oneTask).reachable_after secondAttempt
    start_init (by decide)
  exact ⟨(totals_iff hpostgres (by decide)).mpr (by decide),
    (totals_iff hmongodb (by decide)).mpr (by decide),
    (totals_iff hkurrentdb (by decide)).mpr (by decide)⟩

/-- A hot write whose first attempt ends with an error that is no conflict. -/
def erredAttempt : List Action :=
  [.tick, .step 0 (.pick true 0 0), .add 0, .step 0 .load, .step 0 (.append .otherError 0),
    .add 0, .add 0, .add 0, .step 0 .exit]

/-- It counts as two failures and as a write that was given up. -/
theorem totals_fails :
    ¬ ∀ (config : Config) (σ : State), (contention postgres config).Reachable σ →
      (∀ t ∈ σ.permits.tasks, t.running = false) → Totals config σ := by
  intro h
  have hreach := (contention postgres oneTask).reachable_after erredAttempt
    start_init (by decide)
  have hbalance := (h oneTask _ hreach (by decide)).balance
  exact absurd hbalance (by decide)

/-- What the counters of conflicts and retries are to hold: the rejected attempts, the attempts
beyond the first of each write, and the writes that succeeded after a conflict. -/
structure Retries (σ : State) : Prop where
  conflicts : σ.counters .conflicts
    = sumOver (fun t => t.write.attempts.count .conflict) σ.permits.tasks
  retries : σ.counters .retries = sumOver (fun t => t.write.attempts.length - 1) σ.permits.tasks
  successes : σ.counters .retrySuccesses
    = σ.permits.tasks.countP fun t => t.write.succeededAfterConflict

/-- When all tasks have finished, these counters are right if and only if no hot write has succeeded
after a conflict and none was given up. -/
theorem retries_iff (h : (contention B config).Reachable σ)
    (hended : ∀ t ∈ σ.permits.tasks, t.running = false) :
    Retries σ ↔ ∀ t ∈ σ.permits.tasks, t.write.succeededAfterConflict = false
      ∧ t.write.exhausted config.maxRetries.toNat = false := by
  have hfinished := (counters_eq h hended .retries).1
  have hcounter := fun c => (counters_eq h hended c).2
  have hconflicts : σ.counters .conflicts
      = sumOver (fun t => t.write.attempts.count .conflict) σ.permits.tasks := by
    rw [hcounter]
    exact sumOver_congr fun t ht => (hfinished t ht).retries.1
  have hretries : σ.counters .retries
      = sumOver (fun t => t.write.attempts.length - 1) σ.permits.tasks
        + sumOver (fun t => t.write.surplus config.maxRetries.toNat) σ.permits.tasks := by
    rw [hcounter, ← sumOver_add]
    exact sumOver_congr fun t ht => (hfinished t ht).retries.2.1
  have hsuccesses : σ.counters .retrySuccesses
      = σ.permits.tasks.countP fun t => t.write.succeededAfterConflict := by
    rw [hcounter, countP_eq_over]
    exact sumOver_congr fun t ht => (hfinished t ht).retries.2.2
  have hnone : (∀ t ∈ σ.permits.tasks, t.write.succeededAfterConflict = false
        ∧ t.write.exhausted config.maxRetries.toNat = false)
      ↔ sumOver (fun t => t.write.surplus config.maxRetries.toNat) σ.permits.tasks = 0 := by
    rw [sumOver_eq_zero_iff]
    exact forall₂_congr fun t _ => surplus_eq_zero_iff.symm
  rw [hnone]
  constructor
  · intro hcounters
    have := hcounters.retries
    omega
  · intro hzero
    rw [hzero, Nat.add_zero] at hretries
    exact ⟨hconflicts, hretries, hsuccesses⟩

/-- A hot write with a conflict, whose second attempt ends with an error that is none. -/
def erredRetry : List Action :=
  [.tick, .step 0 (.pick true 0 0), .add 0, .step 0 .load, .step 0 (.append .conflict 0), .add 0,
    .add 0, .step 0 (.reread (some (some 0))), .step 0 .store, .step 0 .load,
    .step 0 (.append .otherError 0), .add 0, .add 0, .add 0, .step 0 .exit]

/-- The conflict and the retry count once. -/
theorem retries_erredRetry :
    Retries ((contention postgres oneTask).after erredRetry (start oneTask)) := by
  have hreach := (contention postgres oneTask).reachable_after erredRetry
    start_init (by decide)
  exact (retries_iff hreach (by decide)).mpr (by decide)

/-- Its one retry is counted twice. -/
theorem retries_fails :
    ¬ ∀ (config : Config) (σ : State), (contention postgres config).Reachable σ →
      (∀ t ∈ σ.permits.tasks, t.running = false) → Retries σ := by
  intro h
  have hreach := (contention postgres oneTask).reachable_after secondAttempt
    start_init (by decide)
  have hretries := (h oneTask _ hreach (by decide)).retries
  exact absurd hretries (by decide)

end EventSourcing.Bench.Contention
