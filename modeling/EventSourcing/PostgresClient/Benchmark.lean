import EventSourcing.Bench.Runner
import EventSourcing.PostgresClient.Versions

/-!
# The write benchmark of PostgreSQL

The calls of its tasks, on the table with versions in event-store mode and on the plain table
otherwise. The column `seq` of a row is computed from the number that the call passes for its
batch, apart from the event that the column `payload` holds: the two agree where the number is
that of the first event (`Batch.Aligned`), and only there.
-/

namespace EventSourcing.PostgresClient

open Bench Concurrency

/-! ### The column `seq` -/

section SeqColumn

variable {batch : Batch BenchmarkEvent} {v : Int} {draws : Draws}

/-- The column `seq` is the field `seq` of the event in the payload, as a `BIGINT`. -/
def SeqAgrees (row : BenchEvent BenchmarkEvent) : Prop := row.seq = row.payload.seq.toInt64

instance (row : BenchEvent BenchmarkEvent) : Decidable (SeqAgrees row) :=
  inferInstanceAs (Decidable (_ = _))

/-- The events of a batch count on from the number passed for it. -/
def Batch.Aligned (batch : Batch BenchmarkEvent) : Prop :=
  ∀ i : ℕ, ∀ event ∈ batch.payloads[i]?, event.seq = batch.baseSeq + .ofNat i

lemma Batch.Aligned.rows (h : batch.Aligned) : ∀ row ∈ batch.rows v draws, SeqAgrees row := by
  intro row hrow
  obtain ⟨i, hi, rfl⟩ := List.mem_mapIdx.mp hrow
  have hseq := h i batch.payloads[i] (by simp [hi])
  simp only [SeqAgrees, hseq]

/-- A batch whose rows agree is aligned. -/
lemma Batch.aligned_of_rows (h : ∀ row ∈ batch.rows v draws, SeqAgrees row) : batch.Aligned := by
  intro i event hevent
  obtain ⟨hi, rfl⟩ := List.getElem?_eq_some_iff.mp hevent
  have hrow := h _ (List.mem_mapIdx.mpr ⟨i, hi, rfl⟩)
  simp only [SeqAgrees] at hrow
  have heq := congrArg Int64.toUInt64 hrow
  simpa using heq.symm

end SeqColumn

/-! ### The calls of the tasks -/

/-- A row of the table without versions. -/
structure PlainEvent (P : Type) where
  eventId : String
  streamId : String
  eventType : String
  seq : Int64
  taskId : Int64
  payload : P
  deriving DecidableEq

/-- `bench_events` in either mode. -/
structure BenchTables (P : Type) where
  versioned : Tables P
  plain : List (PlainEvent P)

variable {P : Type}

/-- The rows of `append_batch`. -/
def Batch.plainRows (batch : Batch P) (draws : Draws) : List (PlainEvent P) :=
  batch.payloads.mapIdx fun i payload =>
    { eventId := draws.eventId i
      streamId := batch.streamId
      eventType := batch.eventType
      seq := (batch.baseSeq + .ofNat i).toInt64
      taskId := batch.taskId.toInt64
      payload := payload }

/-- The `INSERT` of `append_batch`, which binds six parameters for each row. -/
def BenchTables.insertPlain (shared : BenchTables P) (batch : Batch P) (draws : Draws) :
    Option (BenchTables P) :=
  let ids := (shared.plain.map (·.eventId)) ++ (batch.plainRows draws).map (·.eventId)
  if Tables.maxBinds < 6 * batch.payloads.length ∨ ¬ ids.Nodup then none
  else some { shared with plain := shared.plain ++ batch.plainRows draws }

/-- How far the call of a task has come. -/
inductive Write where
  /-- `append_batch` -/
  | appending (batch : Batch BenchmarkEvent)
  /-- `append_batch_versioned` -/
  | counting (batch : Batch BenchmarkEvent)
  /-- the `INSERT` of a batch, after its counter update -/
  | inserting (batch : Batch BenchmarkEvent) (startVersion : Int)

/-- What is drawn for a statement and what becomes of it. -/
structure WriteStep where
  draws : Draws
  outcome : Outcome

namespace Write

def next (shared : BenchTables BenchmarkEvent) (step : WriteStep) :
    Write → Option (BenchTables BenchmarkEvent × (Write ⊕ Bool))
  | appending batch =>
    match batch.payloads with
    | [] => some (shared, .inr true)
    | _ =>
      let (ok, shared) := step.outcome.run (shared.insertPlain batch step.draws) shared
      some (shared, .inr ok)
  | counting batch =>
    let db := shared.versioned
    match batch.payloads with
    | [] => some (shared, .inr true)
    | [_] =>
      let (ok, db) := step.outcome.run (db.upsertAndInsert batch step.draws) db
      some ({ shared with versioned := db }, .inr ok)
    | _ =>
      let startVersion := db.version batch.streamId
      match step.outcome.run (some (db.upsertVersion batch.streamId batch.payloads.length)) db with
      | (true, db) => some ({ shared with versioned := db }, .inl (.inserting batch startVersion))
      | (false, db) => some ({ shared with versioned := db }, .inr false)
  | inserting batch startVersion =>
    let db := shared.versioned
    let (ok, db) := step.outcome.run (db.insertBatch batch startVersion step.draws) db
    some ({ shared with versioned := db }, .inr ok)

end Write

/-- The batch of a task. -/
def dispatchBatch (streamPrefix : String) (d : Dispatch) : Batch BenchmarkEvent where
  streamId := streamPrefix ++ "-" ++ toString d.streamIdx
  eventType := "BenchmarkEvent"
  payloads := d.events
  baseSeq := d.baseSeq
  taskId := d.streamIdx

/-- The calls of a run, which starts on a new table. -/
def backend (config : BenchmarkConfig) (streamPrefix : String) :
    Backend (BenchTables BenchmarkEvent) Write WriteStep where
  init shared := shared.versioned.benchEvents = [] ∧ shared.plain = []
  start d :=
    if config.eventStoreMode then .counting (dispatchBatch streamPrefix d)
    else .appending (dispatchBatch streamPrefix d)
  next shared write step := write.next shared step

/-- `benchmark::run` of PostgreSQL. -/
abbrev benchmark (config : BenchmarkConfig) (streamPrefix : String) :
    System (Runner (BenchTables BenchmarkEvent) Write) (RunnerStep WriteStep) :=
  Bench.benchmark (backend config streamPrefix) config

/-! ### What the calls write -/

/-- The columns `seq` of both tables agree with the payloads. -/
structure BenchTables.Agrees (shared : BenchTables BenchmarkEvent) : Prop where
  versioned : ∀ row ∈ shared.versioned.benchEvents, SeqAgrees row
  plain : ∀ row ∈ shared.plain, row.seq = row.payload.seq.toInt64

/-- The batch of a call in progress. -/
def Write.batch : Write → Batch BenchmarkEvent
  | appending batch => batch
  | counting batch => batch
  | inserting batch _ => batch

lemma aligned_dispatchBatch (streamPrefix : String) (d : Dispatch) :
    (dispatchBatch streamPrefix d).Aligned := by
  intro i event hevent
  simp only [dispatchBatch, Dispatch.events, List.getElem?_map, Option.mem_def,
    Option.map_eq_some_iff] at hevent
  obtain ⟨j, hj, rfl⟩ := hevent
  obtain ⟨hlt, rfl⟩ := List.getElem?_eq_some_iff.mp hj
  simp [dispatchBatch]

section Calls

variable {db db' : Tables BenchmarkEvent} {shared shared' : BenchTables BenchmarkEvent}
  {batch : Batch BenchmarkEvent} {v : Int} {draws : Draws} {outcome : Outcome} {ok : Bool}

/-- A statement leaves what it leads to or what was there before. -/
lemma outcome_run_cases {S : Type} {after : Option S} {before s : S}
    (h : outcome.run after before = (ok, s)) : after = some s ∨ before = s := by
  cases ok with
  | true => exact .inl (Outcome.run_eq_true.mp h).2
  | false =>
    rcases Outcome.run_eq_false.mp h with ⟨-, hafter⟩ | ⟨-, hbefore⟩
    · exact .inl hafter
    · exact .inr hbefore

lemma agrees_insert {rows : List (BenchEvent BenchmarkEvent)}
    (h : ∀ row ∈ db.benchEvents, SeqAgrees row) (hrows : ∀ row ∈ rows, SeqAgrees row)
    (hs : db.insert rows = some db') : ∀ row ∈ db'.benchEvents, SeqAgrees row := by
  obtain ⟨-, rfl⟩ := Tables.insert_eq_some hs
  intro row hrow
  rcases List.mem_append.mp hrow with hrow | hrow
  · exact h row hrow
  · exact hrows row hrow

lemma agrees_upsertAndInsert (h : ∀ row ∈ db.benchEvents, SeqAgrees row) (hbatch : batch.Aligned)
    (hs : db.upsertAndInsert batch draws = some db') : ∀ row ∈ db'.benchEvents, SeqAgrees row := by
  have hupserted : ∀ row ∈ (db.upsertVersion batch.streamId 1).benchEvents, SeqAgrees row := h
  exact agrees_insert hupserted hbatch.rows hs

lemma agrees_insertBatch (h : ∀ row ∈ db.benchEvents, SeqAgrees row) (hbatch : batch.Aligned)
    (hs : db.insertBatch batch v draws = some db') : ∀ row ∈ db'.benchEvents, SeqAgrees row := by
  simp only [Tables.insertBatch] at hs
  split_ifs at hs
  exact agrees_insert h hbatch.rows hs

lemma agrees_insertPlain (h : shared.Agrees) (hbatch : batch.Aligned)
    (hs : shared.insertPlain batch draws = some shared') : shared'.Agrees := by
  simp only [BenchTables.insertPlain] at hs
  split_ifs at hs
  obtain rfl := Option.some.inj hs
  refine ⟨h.versioned, fun row hrow => ?_⟩
  rcases List.mem_append.mp hrow with hrow | hrow
  · exact h.plain row hrow
  · obtain ⟨i, hi, rfl⟩ := List.mem_mapIdx.mp hrow
    have hseq := hbatch i batch.payloads[i] (by simp [hi])
    simp only [hseq]

/-- A statement on the table with versions, whatever becomes of it. -/
lemma BenchTables.Agrees.run (h : shared.Agrees) {after : Option (Tables BenchmarkEvent)}
    (hafter : ∀ db, after = some db → ∀ row ∈ db.benchEvents, SeqAgrees row)
    (hs : outcome.run after shared.versioned = (ok, db)) :
    BenchTables.Agrees { shared with versioned := db } := by
  rcases outcome_run_cases hs with hdb | rfl
  · exact ⟨hafter db hdb, h.plain⟩
  · exact h

end Calls

/-- Every call of a run passes an aligned batch, so the rows it writes agree. -/
lemma keeps_agrees (config : BenchmarkConfig) (streamPrefix : String) :
    (backend config streamPrefix).Keeps BenchTables.Agrees (fun write => write.batch.Aligned)
      (fun _ => True) where
  init shared hinit := by
    obtain ⟨hversioned, hplain⟩ := hinit
    refine ⟨?_, ?_⟩
    · rw [hversioned]
      exact fun row hrow => absurd hrow List.not_mem_nil
    · rw [hplain]
      exact fun row hrow => absurd hrow List.not_mem_nil
  start d := by
    simp only [backend]
    split_ifs
    · exact aligned_dispatchBatch streamPrefix d
    · exact aligned_dispatchBatch streamPrefix d
  call shared write step shared' write' h hbatch hs := by
    cases write with
    | appending batch =>
      simp only [backend, Write.next] at hs
      split at hs <;> cases hs
    | counting batch =>
      simp only [backend, Write.next] at hs
      split at hs
      · cases hs
      · cases hs
      · split at hs
        · rename_i db hrun
          obtain ⟨rfl, hwrite⟩ := Prod.mk.inj (Option.some.inj hs)
          obtain rfl := Sum.inl.inj hwrite
          refine ⟨h.run ?_ hrun, hbatch⟩
          rintro _ heq
          obtain rfl := Option.some.inj heq
          exact h.versioned
        · cases hs
    | inserting batch startVersion => cases hs
  result shared write step shared' ok h hbatch hs := by
    cases write with
    | appending batch =>
      simp only [backend, Write.next] at hs
      split at hs
      · obtain ⟨rfl, -⟩ := Prod.mk.inj (Option.some.inj hs)
        exact ⟨h, trivial⟩
      · obtain ⟨rfl, -⟩ := Prod.mk.inj (Option.some.inj hs)
        refine ⟨?_, trivial⟩
        generalize hrun : step.outcome.run (shared.insertPlain batch step.draws) shared = result
        rcases outcome_run_cases hrun with hinsert | rfl
        · exact agrees_insertPlain h hbatch hinsert
        · exact h
    | counting batch =>
      simp only [backend, Write.next] at hs
      split at hs
      · obtain ⟨rfl, -⟩ := Prod.mk.inj (Option.some.inj hs)
        exact ⟨h, trivial⟩
      · obtain ⟨rfl, -⟩ := Prod.mk.inj (Option.some.inj hs)
        refine ⟨h.run ?_ (Prod.eta _).symm, trivial⟩
        exact fun db hdb => agrees_upsertAndInsert h.versioned hbatch hdb
      · split at hs
        · cases hs
        · rename_i db hrun
          obtain ⟨rfl, -⟩ := Prod.mk.inj (Option.some.inj hs)
          refine ⟨h.run ?_ hrun, trivial⟩
          rintro _ heq
          obtain rfl := Option.some.inj heq
          exact h.versioned
    | inserting batch startVersion =>
      obtain ⟨rfl, -⟩ := Prod.mk.inj (Option.some.inj hs)
      refine ⟨h.run ?_ (Prod.eta _).symm, trivial⟩
      exact fun db hdb => agrees_insertBatch h.versioned hbatch hdb

/-- In every state of every run of the benchmark the columns `seq` agree. -/
theorem benchmark_agrees {config : BenchmarkConfig} {streamPrefix : String}
    {σ : Runner (BenchTables BenchmarkEvent) Write}
    (h : (benchmark config streamPrefix).Reachable σ) : σ.shared.Agrees :=
  ((keeps_agrees config streamPrefix).reachable h).1

end EventSourcing.PostgresClient
