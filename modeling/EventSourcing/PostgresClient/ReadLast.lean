import EventSourcing.Concurrency.Numbering
import EventSourcing.Events
import EventSourcing.Fold.Window
import EventSourcing.PostgresClient.Versions

/-!
# Reading the last events of a stream back

`append_batch_versioned` spreads an event over the columns of a row: its number, its task id
and, in the column `payload`, the JSON of the whole event; the column `created_at` is filled by
the server. `read_last_n_stream_bench_events` returns the right rows in the right order, with
the numbers and task ids of the events, but takes the JSON for the payload of the event and the
time of the insert for that of the event.
-/

namespace EventSourcing.PostgresClient

open Bench
open Concurrency (ascending_of_range ascending_append)

/-- `bench_events` with its column `created_at`, by the primary key of the row. -/
structure TimedTables where
  tables : Tables (List UInt8)
  createdAt : String → DateTime

/-- A call of `append_batch_versioned` for a batch of events, with what is drawn for its rows
and the time of the transaction. -/
structure AppendCall where
  events : List Events.BenchmarkEvent
  taskId : UInt64
  draws : Draws
  now : DateTime

namespace AppendCall

/-- The arguments of the call; `base_seq` is the number of the first event. -/
def batch (streamId : String) (call : AppendCall) : Batch (List UInt8) where
  streamId := streamId
  eventType := "BenchmarkEvent"
  payloads := call.events.map Events.BenchmarkEvent.toVec
  baseSeq := (call.events.head?.map (·.seq)).getD 0
  taskId := call.taskId

/-- The events of the batch count on from the first one and are those of its task. -/
def Uniform (call : AppendCall) : Prop :=
  ∀ i : ℕ, ∀ event ∈ call.events[i]?,
    event.seq = (call.events.head?.map (·.seq)).getD 0 + .ofNat i ∧ event.taskId = call.taskId

end AppendCall

namespace TimedTables

variable (db : TimedTables) (streamId : String)

/-- A call, if it succeeds; the column `created_at` has its default, `NOW()`. -/
def append (call : AppendCall) : Option TimedTables :=
  let batch := call.batch streamId
  match db.tables.appendBatchVersioned batch call.draws .done .done with
  | (.ok _, tables) =>
    some {
      tables := tables
      createdAt := fun id =>
        if id ∈ (List.range call.events.length).map call.draws.eventId then call.now
        else db.createdAt id }
  | (.error _, _) => none

/-- A sequence of calls that all succeed. -/
def appendAll (streamId : String) : TimedTables → List AppendCall → Option TimedTables
  | db, [] => some db
  | db, call :: calls => (db.append streamId call).bind fun db => appendAll streamId db calls

/-- The event that the reader makes of a row. -/
def eventOf (row : BenchEvent (List UInt8)) : Events.BenchmarkEvent where
  seq := row.seq.toUInt64
  taskId := row.taskId.toUInt64
  payload := row.payload
  createdAt := db.createdAt row.eventId

/-- The rows of a stream. -/
def rows : List (BenchEvent (List UInt8)) :=
  db.tables.benchEvents.filter fun row => row.streamId = streamId

/-- `read_last_n_stream_bench_events`: `ORDER BY stream_version DESC LIMIT $2`, reversed. -/
def readLastNStreamBenchEvents (n : Int) : Except String (List Events.BenchmarkEvent) :=
  if n < 0 then .error "read_last_n_stream_bench_events failed"
  else
    let newest := (db.rows streamId).insertionSort fun row row' =>
      row'.streamVersion ≤ row.streamVersion
    .ok ((newest.take n.toNat).map db.eventOf).reverse

end TimedTables

/-- The last `n` of a list. -/
def lastN {α : Type} (n : ℕ) (l : List α) : List α := l.drop (l.length - n)

/-- The events of a sequence of calls. -/
def appended (calls : List AppendCall) : List Events.BenchmarkEvent := calls.flatMap (·.events)

variable {db db' : TimedTables} {streamId : String} {call : AppendCall} {calls : List AppendCall}

/-! ### The rows of the stream -/

/-- The rows of a stream are those of its counter from `start` on, in the order of their
versions. -/
def Ascends (db : TimedTables) (streamId : String) : Prop :=
  ((db.rows streamId).map (·.streamVersion)).Pairwise (· < ·) ∧
    ∀ row ∈ db.rows streamId, row.streamVersion < db.tables.version streamId

lemma rows_append (h : db.append streamId call = some db') :
    db'.rows streamId = db.rows streamId
        ++ (call.batch streamId).rows (db.tables.version streamId) call.draws ∧
      db'.tables.version streamId = db.tables.version streamId + call.events.length := by
  simp only [TimedTables.append] at h
  generalize hcall : db.tables.appendBatchVersioned (call.batch streamId) call.draws .done .done
    = result at h
  obtain ⟨result, tables⟩ := result
  cases result with
  | error msg => cases h
  | ok k =>
    obtain rfl := Option.some.inj h
    have hlength : (call.batch streamId).payloads.length = call.events.length := by
      simp [AppendCall.batch]
    rcases Tables.appendBatchVersioned_ok hcall with ⟨hnil, rfl⟩ | ⟨-, rfl⟩
    · have hevents : call.events = [] := by simpa [AppendCall.batch] using hnil
      simp [TimedTables.rows, Batch.rows, hnil, hevents]
    · constructor
      · simp only [TimedTables.rows, List.filter_append]
        congr 1
        exact List.filter_eq_self.mpr fun row hrow => by
          simp [Batch.streamId_of_mem hrow, AppendCall.batch]
      · rw [← hlength]
        simp [Tables.version, Tables.upsertVersion, AppendCall.batch]

lemma ascends_append (h : Ascends db streamId) (hs : db.append streamId call = some db') :
    Ascends db' streamId := by
  obtain ⟨hrows, hversion⟩ := rows_append hs
  have hnew : ((call.batch streamId).rows (db.tables.version streamId) call.draws).map
      (·.streamVersion)
      = (List.range call.events.length).map fun i : ℕ => db.tables.version streamId + i := by
    rw [Batch.versions_rows]
    simp [AppendCall.batch]
  obtain ⟨hascending, hdrawn⟩ := ascending_of_range hnew
  rw [Ascends, hrows, hversion]
  exact ascending_append h.1 h.2 hascending hdrawn (by omega)

lemma appendAll_cons {calls : List AppendCall} :
    db.appendAll streamId (call :: calls) = some db' ↔
      ∃ db₁, db.append streamId call = some db₁ ∧ db₁.appendAll streamId calls = some db' := by
  simp [TimedTables.appendAll, Option.bind_eq_some_iff]

lemma ascends_appendAll (h : Ascends db streamId) (hs : db.appendAll streamId calls = some db') :
    Ascends db' streamId := by
  induction calls generalizing db with
  | nil =>
    obtain rfl := Option.some.inj hs
    exact h
  | cons call calls ih =>
    obtain ⟨db₁, hcall, hs⟩ := appendAll_cons.mp hs
    exact ih (ascends_append h hcall) hs

/-- What is read off the rows of a batch is read off the rows of the stream in the end. -/
lemma map_rows_appendAll {α : Type} {f : BenchEvent (List UInt8) → α}
    {g : Events.BenchmarkEvent → α}
    (hbatch : ∀ call ∈ calls, ∀ v, ((call.batch streamId).rows v call.draws).map f
      = call.events.map g)
    (hs : db.appendAll streamId calls = some db') :
    (db'.rows streamId).map f = (db.rows streamId).map f ++ (appended calls).map g := by
  induction calls generalizing db with
  | nil =>
    obtain rfl := Option.some.inj hs
    simp [appended]
  | cons call calls ih =>
    obtain ⟨db₁, hcall, hs⟩ := appendAll_cons.mp hs
    have hrest := ih (fun c hc => hbatch c (List.mem_cons_of_mem _ hc)) hs
    rw [hrest, (rows_append hcall).1, List.map_append, hbatch call List.mem_cons_self]
    simp [appended]

/-- The column `payload` of a batch is the JSON of its events. -/
lemma payload_batch (call : AppendCall) (v : Int) :
    ((call.batch streamId).rows v call.draws).map (·.payload)
      = call.events.map Events.BenchmarkEvent.toVec := by
  apply List.ext_getElem <;> simp [Batch.rows, AppendCall.batch]

/-- The columns `seq` and `task_id` of a uniform batch are the fields of its events. -/
lemma numbers_batch {call : AppendCall} (h : call.Uniform) (v : Int) :
    ((call.batch streamId).rows v call.draws).map
        (fun row => (row.seq.toUInt64, row.taskId.toUInt64))
      = call.events.map fun event => (event.seq, event.taskId) := by
  apply List.ext_getElem
  · simp [Batch.rows, AppendCall.batch]
  · intro i hi hi'
    have hlt : i < call.events.length := by simpa using hi'
    have huniform := h i call.events[i] (by simp [hlt])
    simp [Batch.rows, AppendCall.batch, huniform.1, huniform.2]

/-! ### The read -/

/-- The rows sorted from the newest version are the rows in reverse. -/
lemma newest_eq_reverse (h : Ascends db streamId) :
    (db.rows streamId).insertionSort (fun row row' => row'.streamVersion ≤ row.streamVersion)
      = (db.rows streamId).reverse :=
  Fold.insertionSort_newest h.1

/-- The read returns the last `n` rows, oldest first. -/
lemma readLastN_eq (h : Ascends db streamId) (n : ℕ) :
    db.readLastNStreamBenchEvents streamId n
      = .ok ((lastN n (db.rows streamId)).map db.eventOf) := by
  rw [TimedTables.readLastNStreamBenchEvents, if_neg (by omega), newest_eq_reverse h]
  simp only [Int.toNat_natCast, List.take_reverse, List.map_reverse, List.reverse_reverse, lastN]

lemma map_lastN {α β : Type} (f : α → β) (n : ℕ) (l : List α) :
    (lastN n l).map f = lastN n (l.map f) := by
  rw [lastN, lastN, List.map_drop, List.length_map]

lemma getLast?_lastN {α : Type} {n : ℕ} (hn : n ≠ 0) (l : List α) :
    (lastN n l).getLast? = l.getLast? := by
  rw [lastN, List.getLast?_drop]
  split_ifs with hle
  · obtain rfl : l = [] := List.length_eq_zero_iff.mp (by omega)
    rfl
  · rfl

/-- The calls started on a stream without rows. -/
lemma ascends_of_empty (h : db.rows streamId = []) : Ascends db streamId := by
  simp [Ascends, h]

/-- After calls with uniform batches the read returns as many events as it should, in the right
order, with the right numbers and task ids. -/
theorem read_last_n_numbers (hempty : db.rows streamId = [])
    (hs : db.appendAll streamId calls = some db') (huniform : ∀ call ∈ calls, call.Uniform)
    (n : ℕ) : ∃ events, db'.readLastNStreamBenchEvents streamId n = .ok events ∧
      events.map (fun event => (event.seq, event.taskId))
        = lastN n ((appended calls).map fun event => (event.seq, event.taskId)) := by
  refine ⟨_, readLastN_eq (ascends_appendAll (ascends_of_empty hempty) hs) n, ?_⟩
  have hnumbers := map_rows_appendAll (fun call hc => numbers_batch (huniform call hc)) hs
  rw [hempty, List.map_nil, List.nil_append] at hnumbers
  rw [List.map_map, ← hnumbers, ← map_lastN]
  rfl

/-- After any sequence of calls that succeed, on a stream without rows before, the read returns
the last events that were appended if and only if it returns none: `n` is zero or there is no
event. -/
theorem read_last_n_events (streamId : String) (db db' : TimedTables) (calls : List AppendCall)
    (hempty : db.rows streamId = []) (hs : db.appendAll streamId calls = some db') (n : ℕ) :
    db'.readLastNStreamBenchEvents streamId n = .ok (lastN n (appended calls)) ↔
      n = 0 ∨ appended calls = [] := by
  have hpayloads := map_rows_appendAll (fun call _ => payload_batch call) hs
  rw [hempty, List.map_nil, List.nil_append] at hpayloads
  rw [readLastN_eq (ascends_appendAll (ascends_of_empty hempty) hs) n, Except.ok.injEq]
  constructor
  · intro heq
    by_contra hnot
    obtain ⟨hn, hevents⟩ := not_or.mp hnot
    -- the last event that is returned has the JSON for its payload
    have hlast : lastN n ((appended calls).map Events.BenchmarkEvent.toVec)
        = lastN n ((appended calls).map Events.BenchmarkEvent.payload) := by
      rw [← map_lastN Events.BenchmarkEvent.payload, ← heq, List.map_map, ← hpayloads, ← map_lastN]
      rfl
    have hlast := congrArg List.getLast? hlast
    rw [getLast?_lastN hn, getLast?_lastN hn, List.getLast?_map, List.getLast?_map,
      List.getLast?_eq_some_getLast hevents] at hlast
    exact Events.toVec_ne_payload _ (Option.some.inj hlast)
  · rintro (rfl | hnil)
    · simp [lastN]
    · have hrows : db'.rows streamId = [] := by simpa [hnil] using hpayloads
      simp [hrows, hnil, lastN]

/-- Tables without rows. -/
def noRows : TimedTables where
  tables := ⟨fun _ => none, []⟩
  createdAt _ := ⟨2026, 1, 1, 0, 0, 0, 0, by decide, DateTime.epoch.time⟩

/-- An event with one byte of payload, created a second before it is appended. -/
def singleEvent : AppendCall where
  events := [⟨1, 0, [171], ⟨2026, 1, 1, 0, 0, 0, 0, by decide, DateTime.epoch.time⟩⟩]
  taskId := 0
  draws := ⟨fun _ => "e0", fun _ => 1⟩
  now := ⟨2026, 1, 1, 0, 0, 1, 0, by decide, by decide⟩

lemma uniform_singleEvent : singleEvent.Uniform := by
  intro i event hevent
  cases i with
  | zero =>
    obtain rfl := Option.some.inj hevent
    exact ⟨rfl, rfl⟩
  | succ i => cases hevent

theorem read_last_n_events_single : ∃ db, noRows.appendAll "orders" [singleEvent] = some db ∧
    db.readLastNStreamBenchEvents "orders" 1 ≠ .ok singleEvent.events := by
  obtain ⟨db, hdb⟩ : ∃ db, noRows.appendAll "orders" [singleEvent] = some db :=
    Option.isSome_iff_exists.mp rfl
  refine ⟨db, hdb, fun heq => ?_⟩
  have hnone := (read_last_n_events "orders" noRows db [singleEvent] rfl hdb 1).mp heq
  exact absurd hnone (by decide)

/-- The payload that is read is the JSON of the event, and its time that of the insert. -/
theorem read_last_n_events_fails : ¬ ∀ (streamId : String) (db db' : TimedTables)
    (calls : List AppendCall) (n : ℕ), db.rows streamId = [] →
    (∀ call ∈ calls, call.Uniform) → db.appendAll streamId calls = some db' →
    db'.readLastNStreamBenchEvents streamId n = .ok (lastN n (appended calls)) := by
  intro hclaim
  obtain ⟨db, hdb⟩ : ∃ db, noRows.appendAll "orders" [singleEvent] = some db :=
    Option.isSome_iff_exists.mp rfl
  have hread := hclaim "orders" noRows db [singleEvent] 1 rfl (by simp [uniform_singleEvent]) hdb
  have hascends := ascends_appendAll (ascends_of_empty rfl) hdb
  rw [readLastN_eq (n := 1) hascends] at hread
  have hrows : db = (noRows.appendAll "orders" [singleEvent]).getD noRows := by rw [hdb]; rfl
  rw [hrows] at hread
  exact absurd hread (by decide)

end EventSourcing.PostgresClient
