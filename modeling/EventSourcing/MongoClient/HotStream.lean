import EventSourcing.Concurrency.Ledger
import EventSourcing.Concurrency.System
import EventSourcing.MongoClient.Database

/-!
# The contention phase on a hot stream

Tasks append to one stream under the version they load from `hot_rev`. The unique index turns
all but one insert of a version away; nothing checks that a version is the next one. No task
ever holds a version ahead of the stream, though, since `hot_rev` is moved to the successor of
a stored version only, and so an insert succeeds just at the end of the stream
(`Inv.write`). A task draws its position after it has loaded its version, which all lower
versions have been stored before.
-/

namespace EventSourcing.MongoClient.HotStream

open Bench Concurrency
open scoped List

variable {P : Type}

/-- How far a task has come; `attempt` is the variable of its loop. -/
inductive Task where
  | loading (attempt : ℕ)
  | loaded (attempt : ℕ) (expected : Int)
  | positioned (attempt : ℕ) (expected globalPosition : Int)
  /-- `append_with_stream_version` has returned `Ok` -/
  | inserted (expected : Int)
  /-- it has returned an error that the loop takes for a conflict -/
  | conflicted (attempt : ℕ)
  | reread (attempt : ℕ) (current : Int)
  | ended
  deriving DecidableEq

namespace Task

/-- `continue`, where the loop has attempts left. -/
def retry (maxRetries attempt : ℕ) : Task :=
  if attempt < maxRetries then loading (attempt + 1) else ended

/-- An error ends the task unless its message reads like a conflict. -/
def failed (attempt : ℕ) (isConflict : Bool) : Task :=
  if isConflict then conflicted attempt else ended

end Task

structure State (P : Type) where
  db : Database P
  hotRev : ℕ
  tasks : List Task
  /-- history: the documents that the tasks have stored -/
  written : List (BenchDocument P)

inductive Action (P : Type) where
  | spawn
  /-- a writer of another stream draws positions -/
  | elsewhere (n : ℕ)
  | load (k : ℕ)
  | draw (k : ℕ) (outcome : Outcome) (isConflict : Bool)
  | insert (k : ℕ) (id : String) (payload : P) (outcome : Outcome) (isConflict : Bool)
  | compareExchange (k : ℕ)
  | read (k : ℕ) (outcome : Outcome)
  | store (k : ℕ)

/-- A step of the phase on the stream `name`. -/
def State.next (name : String) (maxRetries : ℕ) (σ : State P) : Action P → Option (State P)
  | .spawn => some { σ with tasks := σ.tasks ++ [.loading 0] }
  | .elsewhere n => some { σ with db := σ.db.incGlobalSeq n }
  | .load k =>
    match σ.tasks[k]? with
    | some (.loading attempt) =>
      some { σ with tasks := σ.tasks.set k (.loaded attempt σ.hotRev) }
    | _ => none
  | .draw k outcome isConflict =>
    match σ.tasks[k]? with
    | some (.loaded attempt expected) =>
      match outcome.run (some (σ.db.incGlobalSeq 1)) σ.db with
      | (true, db) =>
        some { σ with
          db := db, tasks := σ.tasks.set k (.positioned attempt expected σ.db.sequence) }
      | (false, db) =>
        some { σ with db := db, tasks := σ.tasks.set k (.failed attempt isConflict) }
    | _ => none
  | .insert k id payload outcome isConflict =>
    match σ.tasks[k]? with
    | some (.positioned attempt expected globalPosition) =>
      let doc := explicitDocument name "BenchmarkEvent" id payload expected globalPosition
      match outcome, σ.db.insertOne name doc with
      | .done, some db =>
        some { σ with
          db := db, tasks := σ.tasks.set k (.inserted expected), written := σ.written ++ [doc] }
      | .unacknowledged, some db =>
        some { σ with
          db := db, tasks := σ.tasks.set k (.failed attempt isConflict)
          written := σ.written ++ [doc] }
      -- the duplicate key is reported as "wrong expected version"
      | .done, none => some { σ with tasks := σ.tasks.set k (.conflicted attempt) }
      | _, _ => some { σ with tasks := σ.tasks.set k (.failed attempt isConflict) }
    | _ => none
  | .compareExchange k =>
    match σ.tasks[k]? with
    | some (.inserted expected) =>
      some { σ with
        hotRev := if (σ.hotRev : Int) = expected then (expected + 1).toNat else σ.hotRev
        tasks := σ.tasks.set k .ended }
    | _ => none
  | .read k outcome =>
    match σ.tasks[k]? with
    | some (.conflicted attempt) =>
      match outcome, σ.db.readLastStreamVersion name with
      | .done, some current => some { σ with tasks := σ.tasks.set k (.reread attempt current) }
      | _, _ => some { σ with tasks := σ.tasks.set k (.retry maxRetries attempt) }
    | _ => none
  | .store k =>
    match σ.tasks[k]? with
    | some (.reread attempt current) =>
      some { σ with
        hotRev := (current + 1).toNat
        tasks := σ.tasks.set k (.retry maxRetries attempt) }
    | _ => none

variable (P) in
/-- The phase on a stream whose versions are `0, …, b - 1`. -/
def system (name : String) (maxRetries b : ℕ) : System (State P) (Action P) where
  init σ := Mongo.uqStreamVersion ∈ σ.db.indexes name ∧ σ.db.versions name ~ numbers 0 b ∧
    σ.hotRev = 0 ∧ σ.tasks = [] ∧ σ.written = []
  next := State.next name maxRetries

/-! ### The invariant -/

/-- What a task holds, where the next version of the stream is `next`. -/
def Task.Sound (next : Int) (written : List (BenchDocument P)) (sequence : Int) : Task → Prop
  | .loaded _ expected => 0 ≤ expected ∧ expected ≤ next
  | .positioned _ expected globalPosition =>
    0 ≤ expected ∧ expected ≤ next ∧ globalPosition < sequence ∧
      ∀ d ∈ written, d.streamVersion < expected → d.globalPosition < globalPosition
  | .inserted expected => 0 ≤ expected ∧ expected < next
  | .reread _ current => 0 ≤ current ∧ current < next
  | _ => True

structure Inv (name : String) (b : ℕ) (σ : State P) : Prop where
  unique : Mongo.uqStreamVersion ∈ σ.db.indexes name
  versions : σ.db.versions name ~ numbers 0 (b + σ.written.length)
  /-- what the tasks have stored continues the stream -/
  written : σ.written.map (·.streamVersion) = numbers b σ.written.length
  ascending : (σ.written.map (·.globalPosition)).Pairwise (· < ·)
  drawn : ∀ d ∈ σ.written, d.globalPosition < σ.db.sequence
  hotRev : σ.hotRev ≤ b + σ.written.length
  tasks : ∀ task ∈ σ.tasks,
    task.Sound ((b + σ.written.length : ℕ) : Int) σ.written σ.db.sequence

variable {name : String} {maxRetries b k attempt : ℕ} {σ σ' : State P} {task : Task}
  {next next' sequence sequence' : Int} {written written' : List (BenchDocument P)}

@[simp] lemma sound_retry : (Task.retry maxRetries attempt).Sound next written sequence := by
  rw [Task.retry]
  split_ifs <;> trivial

@[simp] lemma sound_failed {isConflict : Bool} :
    (Task.failed attempt isConflict).Sound next written sequence := by
  rw [Task.failed]
  split_ifs <;> trivial

/-- What a task holds stays sound while the stream and the counter grow. -/
lemma Task.Sound.mono (h : task.Sound next written sequence) (hnext : next ≤ next')
    (hsequence : sequence ≤ sequence')
    (hwritten : ∀ d ∈ written', d ∈ written ∨ next ≤ d.streamVersion) :
    task.Sound next' written' sequence' := by
  cases task with
  | loaded attempt expected => exact ⟨h.1, h.2.trans hnext⟩
  | positioned attempt expected globalPosition =>
    obtain ⟨hpos, hle, hlt, habove⟩ := h
    refine ⟨hpos, hle.trans hnext, hlt.trans_le hsequence, ?_⟩
    intro d hd hversion
    rcases hwritten d hd with hd | hnew
    · exact habove d hd hversion
    · omega
  | inserted expected => exact ⟨h.1, h.2.trans_le hnext⟩
  | reread attempt current => exact ⟨h.1, h.2.trans_le hnext⟩
  | _ => trivial

/-- A task moves on; `hot_rev` may move with it. -/
lemma Inv.set {hotRev : ℕ} (h : Inv name b σ) (hhot : hotRev ≤ b + σ.written.length)
    (htask : task.Sound ((b + σ.written.length : ℕ) : Int) σ.written σ.db.sequence) :
    Inv name b { σ with hotRev := hotRev, tasks := σ.tasks.set k task } where
  unique := h.unique
  versions := h.versions
  written := h.written
  ascending := h.ascending
  drawn := h.drawn
  hotRev := hhot
  tasks t ht := by
    rcases List.mem_or_eq_of_mem_set ht with ht | rfl
    · exact h.tasks t ht
    · exact htask

lemma Inv.incGlobalSeq (h : Inv name b σ) (n : ℕ) :
    Inv name b { σ with db := σ.db.incGlobalSeq n } := by
  have hsequence : σ.db.sequence ≤ (σ.db.incGlobalSeq n).sequence := by
    simp [Database.sequence, Database.incGlobalSeq, increment]
  exact {
    unique := h.unique
    versions := h.versions
    written := h.written
    ascending := h.ascending
    drawn := fun d hd => (h.drawn d hd).trans_le hsequence
    hotRev := h.hotRev
    tasks := fun t ht => (h.tasks t ht).mono (le_refl _) hsequence fun _ => .inl }

/-- An insert that meets no duplicate key is one at the end of the stream. -/
lemma Inv.expected_eq (h : Inv name b σ) {id : String} {payload : P}
    {expected globalPosition : Int} {db : Database P} (hpos : 0 ≤ expected)
    (hle : expected ≤ (b + σ.written.length : ℕ))
    (hdb : σ.db.insertOne name
      (explicitDocument name "BenchmarkEvent" id payload expected globalPosition) = some db) :
    expected = (b + σ.written.length : ℕ) := by
  obtain ⟨hdup, -⟩ := Database.insertOne_eq_some hdb
  by_contra hne
  have hmem : expected ∈ σ.db.versions name :=
    h.versions.symm.subset (mem_numbers.mpr ⟨hpos, by omega⟩)
  obtain ⟨d, hd, hversion⟩ := List.mem_map.mp hmem
  obtain ⟨hd, hstream⟩ := List.mem_filter.mp hd
  exact hdup ⟨d, hd, .inr ⟨h.unique, of_decide_eq_true hstream, hversion⟩⟩

/-- The document joins the stream, and its position is above those of the phase. -/
lemma Inv.write (h : Inv name b σ) {id : String} {payload : P} {expected globalPosition : Int}
    {db : Database P} (hk : σ.tasks[k]? = some (.positioned attempt expected globalPosition))
    (hdb : σ.db.insertOne name
      (explicitDocument name "BenchmarkEvent" id payload expected globalPosition) = some db)
    (htask : task = .inserted expected ∨ ∃ isConflict, task = .failed attempt isConflict) :
    Inv name b
      { σ with
        db := db, tasks := σ.tasks.set k task
        written := σ.written
          ++ [explicitDocument name "BenchmarkEvent" id payload expected globalPosition] } := by
  obtain ⟨hpos, hle, hlt, habove⟩ := h.tasks _ (List.mem_of_getElem? hk)
  obtain rfl := h.expected_eq hpos hle hdb
  obtain ⟨-, rfl⟩ := Database.insertOne_eq_some hdb
  generalize hdoc : explicitDocument name "BenchmarkEvent" id payload
    ((b + σ.written.length : ℕ) : Int) globalPosition = doc
  have hversion : doc.streamVersion = (b + σ.written.length : ℕ) := by rw [← hdoc]; rfl
  have hposition : doc.globalPosition = globalPosition := by rw [← hdoc]; rfl
  have hstream : doc.streamId = name := by rw [← hdoc]; rfl
  have hbelow : ∀ d ∈ σ.written, d.globalPosition < globalPosition := by
    intro d hd
    have hmem : d.streamVersion ∈ numbers b σ.written.length :=
      h.written ▸ List.mem_map_of_mem hd
    exact habove d hd (by have := mem_numbers.mp hmem; omega)
  constructor
  · exact h.unique
  · rw [List.length_append, List.length_singleton, ← Nat.add_assoc, numbers_succ, Int.zero_add,
      ← hversion, Database.versions_update hstream]
    exact h.versions.append_right _
  · rw [List.map_append, h.written, List.length_append, List.length_singleton, numbers_succ,
      List.map_singleton, hversion, Int.natCast_add]
  · rw [List.map_append, List.pairwise_append]
    refine ⟨h.ascending, List.pairwise_singleton .., ?_⟩
    intro g hg g' hg'
    obtain ⟨d, hd, rfl⟩ := List.mem_map.mp hg
    obtain rfl : g' = doc.globalPosition := by simpa using hg'
    rw [hposition]
    exact hbelow d hd
  · intro d hd
    rcases List.mem_append.mp hd with hd | hd
    · exact h.drawn d hd
    · obtain rfl := List.mem_singleton.mp hd
      rw [hposition]
      exact hlt
  · have := h.hotRev
    simp only [List.length_append, List.length_singleton]
    omega
  · intro t ht
    rw [List.length_append, List.length_singleton]
    rcases List.mem_or_eq_of_mem_set ht with ht | rfl
    · refine (h.tasks t ht).mono (by omega) (le_refl _) ?_
      intro d hd
      refine (List.mem_append.mp hd).imp_right ?_
      intro hd
      obtain rfl := List.mem_singleton.mp hd
      exact hversion.ge
    · rcases htask with rfl | ⟨isConflict, rfl⟩
      · exact ⟨hpos, by omega⟩
      · exact sound_failed

/-- The position a task draws is above those of all that is stored. -/
lemma Inv.draw {expected : Int} {outcome : Outcome} {acknowledged : Bool} {db : Database P}
    (h : Inv name b σ) (isConflict : Bool) (hk : σ.tasks[k]? = some (.loaded attempt expected))
    (hrun : outcome.run (some (σ.db.incGlobalSeq 1)) σ.db = (acknowledged, db)) :
    Inv name b
      { σ with
        db := db
        tasks := σ.tasks.set k
          (if acknowledged then .positioned attempt expected σ.db.sequence
            else .failed attempt isConflict) } := by
  cases acknowledged with
  | true =>
    obtain ⟨-, hdb⟩ := Outcome.run_eq_true.mp hrun
    obtain rfl := Option.some.inj hdb
    obtain ⟨hpos, hle⟩ := h.tasks _ (List.mem_of_getElem? hk)
    refine (h.incGlobalSeq 1).set h.hotRev ⟨hpos, hle, ?_, fun d hd _ => h.drawn d hd⟩
    simp [Database.sequence, Database.incGlobalSeq, increment]
  | false =>
    rcases Outcome.run_eq_false.mp hrun with ⟨-, hdb⟩ | ⟨-, rfl⟩
    · obtain rfl := Option.some.inj hdb
      exact (h.incGlobalSeq 1).set h.hotRev sound_failed
    · exact h.set h.hotRev sound_failed

lemma Inv.read_bounds (h : Inv name b σ) {current : Int}
    (hcurrent : σ.db.readLastStreamVersion name = some current) :
    0 ≤ current ∧ current < (b + σ.written.length : ℕ) := by
  have hmem := mem_numbers.mp (h.versions.subset (List.max?_mem hcurrent))
  exact ⟨hmem.1, by omega⟩

lemma inv_next {a : Action P} (h : Inv name b σ) (hs : σ.next name maxRetries a = some σ') :
    Inv name b σ' := by
  cases a with
  | spawn =>
    obtain rfl := Option.some.inj hs
    refine ⟨h.unique, h.versions, h.written, h.ascending, h.drawn, h.hotRev, ?_⟩
    intro t ht
    rcases List.mem_append.mp ht with ht | ht
    · exact h.tasks t ht
    · obtain rfl := List.mem_singleton.mp ht
      trivial
  | elsewhere n =>
    obtain rfl := Option.some.inj hs
    exact h.incGlobalSeq n
  | load k =>
    simp only [State.next] at hs
    split at hs
    · obtain rfl := Option.some.inj hs
      have := h.hotRev
      exact h.set h.hotRev ⟨by omega, by omega⟩
    · cases hs
  | draw k outcome isConflict =>
    simp only [State.next] at hs
    split at hs
    · rename_i attempt expected hk
      split at hs
      · rename_i db hrun
        obtain rfl := Option.some.inj hs
        exact h.draw isConflict hk hrun
      · rename_i db hrun
        obtain rfl := Option.some.inj hs
        exact h.draw isConflict hk hrun
    · cases hs
  | insert k id payload outcome isConflict =>
    simp only [State.next] at hs
    split at hs
    · rename_i attempt expected globalPosition hk
      split at hs
      · rename_i db hdb
        obtain rfl := Option.some.inj hs
        exact h.write hk hdb (.inl rfl)
      · rename_i db hdb
        obtain rfl := Option.some.inj hs
        exact h.write hk hdb (.inr ⟨isConflict, rfl⟩)
      · obtain rfl := Option.some.inj hs
        exact h.set h.hotRev trivial
      · obtain rfl := Option.some.inj hs
        exact h.set h.hotRev sound_failed
    · cases hs
  | compareExchange k =>
    simp only [State.next] at hs
    split at hs
    · rename_i expected hk
      obtain rfl := Option.some.inj hs
      obtain ⟨hpos, hlt⟩ := h.tasks _ (List.mem_of_getElem? hk)
      refine h.set ?_ trivial
      have := h.hotRev
      split_ifs <;> omega
    · cases hs
  | read k outcome =>
    simp only [State.next] at hs
    split at hs
    · split at hs
      · rename_i current hcurrent
        obtain rfl := Option.some.inj hs
        exact h.set h.hotRev (h.read_bounds hcurrent)
      · obtain rfl := Option.some.inj hs
        exact h.set h.hotRev sound_retry
    · cases hs
  | store k =>
    simp only [State.next] at hs
    split at hs
    · rename_i attempt current hk
      obtain rfl := Option.some.inj hs
      obtain ⟨hpos, hlt⟩ := h.tasks _ (List.mem_of_getElem? hk)
      exact h.set (by omega) sound_retry
    · cases hs

lemma inv_of_reachable (h : (system P name maxRetries b).Reachable σ) : Inv name b σ := by
  refine System.ReachBy.invariant (P := Inv name b) ?_
    (fun _ _ _ _ hinv _ hs => inv_next hinv hs) h
  rintro ⟨db, hotRev, tasks, written⟩ ⟨hunique, hversions, rfl, rfl, rfl⟩
  refine ⟨hunique, hversions, rfl, List.Pairwise.nil, ?_, Nat.zero_le _, ?_⟩
  · intro d hd
    cases hd
  · intro t ht
    cases ht

/-- The stream grows without a hole or a duplicate, `hot_rev` stays behind its end, and the
documents of the phase have their positions in the order of their versions. -/
theorem hot_stream_consecutive (h : (system P name maxRetries b).Reachable σ) :
    σ.db.versions name ~ numbers 0 (b + σ.written.length) ∧
    σ.hotRev ≤ b + σ.written.length ∧
    ∀ d ∈ σ.written, ∀ d' ∈ σ.written,
      d.streamVersion < d'.streamVersion → d.globalPosition < d'.globalPosition := by
  have hinv := inv_of_reachable h
  refine ⟨hinv.versions, hinv.hotRev, ?_⟩
  intro d hd d' hd' hlt
  -- a document stands at the place of its version
  have hat : ∀ (i : ℕ) (hi : i < σ.written.length), σ.written[i].streamVersion = b + i := by
    intro i hi
    have hget := congrArg (·[i]?) hinv.written
    simpa [numbers, hi] using hget
  obtain ⟨i, hi, rfl⟩ := List.getElem_of_mem hd
  obtain ⟨j, hj, rfl⟩ := List.getElem_of_mem hd'
  rw [hat i hi, hat j hj] at hlt
  have hascending := List.pairwise_iff_getElem.mp (List.pairwise_map.mp hinv.ascending)
  exact hascending i j hi hj (by omega)

/-! ### Two tasks on a stream with one event -/

def hotDocument : BenchDocument ℕ := explicitDocument "hot-0" "BenchmarkEvent" "z" 0 0 0

def hotStart : State ℕ where
  db :=
    { collections := ["hot-0"]
      indexes := fun _ => [Mongo.uqStreamVersion]
      globalSeq := some 1
      streamVersions := fun _ => some 1
      docs := fun name => if name = "hot-0" then [hotDocument] else [] }
  hotRev := 0
  tasks := []
  written := []

/-- Both load version `0` and conflict; the first retries and writes version `1`. -/
def hotRun : List (Action ℕ) :=
  [.spawn, .spawn, .load 0, .load 1, .draw 0 .done false, .draw 1 .done false,
    .insert 0 "a" 1 .done false, .insert 1 "b" 2 .done false, .read 0 .done, .store 0, .load 0,
    .draw 0 .done false, .insert 0 "c" 1 .done false, .compareExchange 0]

theorem hot_stream_consecutive_conflict :
    let σ := (system ℕ "hot-0" 3 1).after hotRun hotStart
    σ.written.length = 1 ∧ σ.db.versions "hot-0" ~ numbers 0 (1 + σ.written.length) ∧
      σ.hotRev = 2 := by
  have h := hot_stream_consecutive (System.reachable_after (M := system ℕ "hot-0" 3 1) hotRun
    (s := hotStart) ⟨by decide, .refl _, rfl, rfl, rfl⟩ (by decide))
  exact ⟨by decide, h.1, by decide⟩

end EventSourcing.MongoClient.HotStream
