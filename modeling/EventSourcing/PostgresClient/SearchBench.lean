import EventSourcing.PostgresClient.PollingBench
import EventSourcing.PostgresClient.SearchIndexer

/-!
# The search bench on PostgreSQL

`search_bench::run_postgres` waits for the number of events that its indexer has passed, and that
number counts the events of a batch whose `index_batch` has failed as well. So the queries that
follow the last wait run over the rows of all events that have been written except those of the
batches lost (`search_bench_index`).
-/

namespace EventSourcing.PostgresClient

open Bench Concurrency
open scoped List

/-! ### The bench -/

/-- A batch with the payloads in another form. -/
def Batch.map {P Q : Type} (f : P → Q) (batch : Batch P) : Batch Q where
  streamId := batch.streamId
  eventType := batch.eventType
  payloads := batch.payloads.map f
  baseSeq := batch.baseSeq
  taskId := batch.taskId

def Workload.map {P Q : Type} (f : P → Q) (w : Workload P) : Workload Q where
  streamName := w.streamName
  seed := w.seed.map (Batch.map f)
  live := w.live.map (Batch.map f)
  onStream := by
    intro batch hbatch
    rw [← List.map_append] at hbatch
    obtain ⟨old, hold, rfl⟩ := List.mem_map.mp hbatch
    exact w.onStream old hold
  single := by
    intro batch hbatch
    obtain ⟨old, hold, rfl⟩ := List.mem_map.mp hbatch
    exact (List.length_map _).trans (w.single old hold)

lemma Workload.seqs_map {P Q : Type} (f : P → Q) (w : Workload P) : (w.map f).seqs = w.seqs := by
  have hbatch (batch : Batch P) : (batch.map f).seqs = batch.seqs := by
    simp [seqs_eq, Batch.map]
  rw [Workload.seqs, Workload.seqs, Workload.map, ← List.map_append, List.flatMap_map]
  simp only [hbatch]

/-- `BenchmarkEvent::new`, by the instant at which the event is made. -/
def newEvent (instants : UInt64 → DateTime) (event : BenchmarkEvent) : Events.BenchmarkEvent where
  seq := event.seq
  taskId := event.taskId
  payload := List.replicate 256 0xAB
  createdAt := instants event.seq

def searchWorkload (args : ReaderArgs) (instants : UInt64 → DateTime) : Workload (List UInt8) :=
  (readerWorkload args 200).map fun event => (newEvent instants event).toVec

/-- `search_bench::run_postgres` -/
def searchBenchRun (args : ReaderArgs) (instants : UInt64 → DateTime)
    (createdAt : String → DateTime) :
    System (PollingBench (List UInt8) SearchIndexer)
      (PollingStep (List UInt8) ⊕ SearchIndexerStep) :=
  pollingRun (searchWorkload args instants)
    { init := fun u => u = .initial
      next := fun db u b => SearchIndexer.next createdAt args.streamName ⟨db, 0, []⟩ u b }
    SearchIndexer.processed

/-- The event that the indexer makes of a row, with its position. -/
def polledOf (createdAt : String → DateTime) (row : BenchEvent (List UInt8)) : Polled :=
  (row.globalPosition, TimedTables.eventOf ⟨⟨fun _ => none, []⟩, createdAt⟩ row)

/-- The events of the stream, as the indexer sees them. -/
def streamEvents (createdAt : String → DateTime) (streamName : String)
    (σ : PollingBench (List UInt8) SearchIndexer) : List Polled :=
  (σ.db.stream streamName).map (polledOf createdAt)

/-- Every `index_batch` takes effect. -/
def BatchesTakeEffect (_ : PollingBench (List UInt8) SearchIndexer) :
    PollingStep (List UInt8) ⊕ SearchIndexerStep → Prop
  | .inl _ => True
  | .inr step => step ≠ .index .rejected

/-! ### What the indexer has been given -/

namespace SearchIndexer

variable {createdAt : String → DateTime} {streamName : String} {db : Tables (List UInt8)}
  {rows new : List (BenchEvent (List UInt8))} {u u' : SearchIndexer}

/-- The indexer has passed the first `processed` rows and goes on with the next ones. -/
structure Follows (createdAt : String → DateTime) (streamName : String)
    (rows : List (BenchEvent (List UInt8))) (u : SearchIndexer) : Prop where
  checkpoint : CheckpointAt rows u.processed u.checkpoint
  passed : u.passed = (rows.take u.processed).map (polledOf createdAt)
  fetched : ∃ batch, batch <+: rows.drop u.processed ∧ u.stage.rows = batch.map (polledOf createdAt)
  nonempty : u.stage ≠ .polling → u.stage.rows ≠ []
  inv : u.Inv streamName
  lost : (u.kept ++ u.lost) ~ u.settled

lemma follows_initial : Follows createdAt streamName rows .initial :=
  ⟨.start, rfl, ⟨[], List.nil_prefix, rfl⟩, fun h => absurd rfl h, inv_initial, .refl _⟩

lemma Follows.grows (h : u.Follows createdAt streamName rows) :
    u.Follows createdAt streamName (rows ++ new) := by
  refine ⟨h.checkpoint.grows, ?_, ?_, h.nonempty, h.inv, h.lost⟩
  · rw [List.take_append_of_le_length h.checkpoint.handled]
    exact h.passed
  · obtain ⟨batch, hfront, hrows⟩ := h.fetched
    rw [List.drop_append_of_le_length h.checkpoint.handled]
    exact ⟨batch, hfront.trans (List.prefix_append ..), hrows⟩

/-- A poll that is answered returns the next rows, at most 200 of them. -/
lemma Follows.poll (h : u.Follows createdAt streamName (db.stream streamName))
    (hascending : ((db.stream streamName).map (·.globalPosition)).Pairwise (· < ·))
    (hpos : ∀ e ∈ db.stream streamName, 0 < e.globalPosition) :
    db.pollEventsForIndexing createdAt streamName u.checkpoint 200
      = (((db.stream streamName).drop u.processed).take 200).map (polledOf createdAt) := by
  rw [Tables.pollEventsForIndexing, h.checkpoint.remaining hascending hpos]
  rfl

lemma Follows.next {b : SearchIndexerStep}
    (h : u.Follows createdAt streamName (db.stream streamName))
    (hascending : ((db.stream streamName).map (·.globalPosition)).Pairwise (· < ·))
    (hpos : ∀ e ∈ db.stream streamName, 0 < e.globalPosition)
    (hs : u.next createdAt streamName ⟨db, 0, []⟩ b = some u') :
    u'.Follows createdAt streamName (db.stream streamName) := by
  have hinv := h.inv.next (σ := ⟨db, 0, []⟩) (hascending.imp ne_of_lt) hs
  cases b with
  | poll answered =>
    simp only [SearchIndexer.next, h.poll hascending hpos] at hs
    split at hs
    · rename_i hstage
      have hsettled : u.settled = u.passed := by simp [SearchIndexer.settled, hstage]
      split at hs
      · split at hs
        · obtain rfl := Option.some.inj hs
          exact h
        · rename_i hne
          obtain rfl := Option.some.inj hs
          refine ⟨h.checkpoint, h.passed, ⟨_, List.take_prefix .., rfl⟩, fun _ => hne, hinv, ?_⟩
          exact hsettled ▸ h.lost
      · obtain rfl := Option.some.inj hs
        exact h
    · cases hs
  | index outcome =>
    simp only [SearchIndexer.next] at hs
    split at hs
    · rename_i batch hstage
      have hsettled : u.settled = u.passed := by simp [SearchIndexer.settled, hstage]
      have hlost := h.lost
      have hfetched := h.fetched
      have hnonempty := h.nonempty (by simp [hstage])
      rw [hsettled] at hlost
      rw [hstage] at hfetched hnonempty
      split_ifs at hs
      · obtain rfl := Option.some.inj hs
        refine ⟨h.checkpoint, h.passed, hfetched, fun _ => hnonempty, hinv, ?_⟩
        rw [← List.append_assoc]
        exact hlost.append_right batch
      · obtain rfl := Option.some.inj hs
        refine ⟨h.checkpoint, h.passed, hfetched, fun _ => hnonempty, hinv, ?_⟩
        rw [List.append_assoc]
        refine (List.perm_append_comm.append_left u.kept).trans ?_
        rw [← List.append_assoc]
        exact hlost.append_right batch
    · cases hs
  | advance =>
    simp only [SearchIndexer.next] at hs
    split at hs
    · rename_i polled hstage
      obtain rfl := Option.some.inj hs
      obtain ⟨batch, hbatch, hpolled⟩ := h.fetched
      rw [hstage] at hpolled
      obtain rfl : polled = batch.map (polledOf createdAt) := hpolled
      have hsettled : u.settled = u.passed ++ batch.map (polledOf createdAt) := by
        simp [SearchIndexer.settled, hstage]
      refine ⟨?_, ?_, ⟨[], List.nil_prefix, rfl⟩, fun hpolling => absurd rfl hpolling, hinv,
        hsettled ▸ h.lost⟩
      · have hadvance := h.checkpoint.advance hbatch
        rw [List.length_map, List.getLast?_map, Option.map_map]
        exact hadvance
      · rw [List.length_map, List.take_add, ← List.prefix_iff_eq_take.mp hbatch, List.map_append,
          h.passed]
    · cases hs

lemma processed_le {σ : Appends.State (List UInt8)} {b : SearchIndexerStep}
    (hs : u.next createdAt streamName σ b = some u') : u.processed ≤ u'.processed := by
  cases b with
  | poll answered =>
    simp only [SearchIndexer.next] at hs
    split at hs
    · split at hs
      · split at hs <;> obtain rfl := Option.some.inj hs <;> exact le_refl _
      · obtain rfl := Option.some.inj hs
        exact le_refl _
    · cases hs
  | index outcome =>
    simp only [SearchIndexer.next] at hs
    split at hs
    · split_ifs at hs <;> obtain rfl := Option.some.inj hs <;> exact le_refl _
    · cases hs
  | advance =>
    simp only [SearchIndexer.next] at hs
    split at hs
    · obtain rfl := Option.some.inj hs
      exact Nat.le_add_right ..
    · cases hs

/-- What the indexer still has to do for the rows of the stream. -/
def distance (rows : List (BenchEvent (List UInt8))) (u : SearchIndexer) : ℕ :=
  3 * (rows.length - u.processed) + match u.stage with
    | .polling => 2
    | .polled _ => 1
    | .indexed _ => 0

/-- There is always a step that gets the indexer closer to the end of the stream. -/
lemma Follows.closer (h : u.Follows createdAt streamName (db.stream streamName))
    (hascending : ((db.stream streamName).map (·.globalPosition)).Pairwise (· < ·))
    (hpos : ∀ e ∈ db.stream streamName, 0 < e.globalPosition)
    (hbehind : u.processed < (db.stream streamName).length) :
    ∃ b u', b ≠ .index .rejected ∧ u.next createdAt streamName ⟨db, 0, []⟩ b = some u' ∧
      u'.distance (db.stream streamName) < u.distance (db.stream streamName) := by
  cases hstage : u.stage with
  | polling =>
    have hpoll := h.poll hascending hpos
    have hne : (((db.stream streamName).drop u.processed).take 200).map (polledOf createdAt)
        ≠ [] := by
      simpa using hbehind
    obtain ⟨e, rest, hrows⟩ := List.exists_cons_of_ne_nil hne
    refine ⟨.poll true, { u with stage := .polled (e :: rest) }, by simp, ?_, ?_⟩
    · simp only [SearchIndexer.next, hstage, hpoll, hrows, if_true]
    · simp only [distance, hstage]
      omega
  | polled rows =>
    refine ⟨.index .done, _, by simp, by simp only [SearchIndexer.next, hstage]; rfl, ?_⟩
    simp only [distance, hstage]
    omega
  | indexed rows =>
    refine ⟨.advance, _, by simp, by simp only [SearchIndexer.next, hstage]; rfl, ?_⟩
    have hne := h.nonempty (by simp [hstage])
    rw [hstage] at hne
    have hlength := List.length_pos_iff.mpr hne
    simp only [distance, hstage, Stage.rows] at *
    omega

/-- An indexer that has passed every row holds the rows of all events except the lost ones. -/
lemma Follows.index (h : u.Follows createdAt streamName rows) (hall : u.processed = rows.length) :
    u.index = rowsOf streamName
        ((rows.map (polledOf createdAt)).filter fun e => e ∉ u.lost) ∧
      u.lost.length + u.index.length = rows.length := by
  have hpassed : u.passed = rows.map (polledOf createdAt) := by
    rw [h.passed, hall, List.take_length]
  have hsettled : u.settled = u.passed := by
    obtain ⟨batch, hbatch, hrows⟩ := h.fetched
    rw [hall, List.drop_length, List.prefix_nil] at hbatch
    have hpolling : u.stage = .polling := by
      by_contra hne
      exact h.nonempty hne (by rw [hrows, hbatch]; rfl)
    rw [SearchIndexer.settled, hpolling]
  have hkept := h.inv.kept
  have hlost := h.lost
  rw [hsettled, hpassed] at hkept hlost
  have hsame : u.kept = (rows.map (polledOf createdAt)).filter fun e => e ∉ u.lost := by
    have hself : u.kept.filter (fun e => e ∉ u.lost) = u.kept :=
      List.filter_eq_self.mpr fun e he => decide_eq_true (h.inv.apart e he)
    have hsublist := hself ▸ hkept.filter fun e => decide (e ∉ u.lost)
    refine hsublist.eq_of_length ?_
    have hcount := (hlost.filter fun e => decide (e ∉ u.lost)).length_eq
    have hnone : u.lost.filter (fun e => e ∉ u.lost) = [] :=
      List.filter_eq_nil_iff.mpr fun e he => by simpa using he
    rwa [List.filter_append, hself, hnone, List.append_nil] at hcount
  refine ⟨h.inv.index.trans (congrArg _ hsame), ?_⟩
  have hlength := hlost.length_eq
  rw [List.length_append, List.length_map] at hlength
  rw [h.inv.index, rowsOf, List.length_map, ← hlength, Nat.add_comm]

end SearchIndexer

section

variable {args : ReaderArgs} {instants : UInt64 → DateTime} {createdAt : String → DateTime}
  {σ : PollingBench (List UInt8) SearchIndexer}

lemma searchBench_follows (h : (searchBenchRun args instants createdAt).Reachable σ) :
    σ.phase = .failed ∨ σ.Rows (searchWorkload args instants) ∧
      σ.reader.Follows createdAt args.streamName (σ.db.stream args.streamName) ∧
      σ.Reached SearchIndexer.processed := by
  refine PollingBench.follows_of_reachable
    (F := fun rows u => u.Follows createdAt args.streamName rows) ?_ ?_ ?_ h
  · rintro u rfl
    exact SearchIndexer.follows_initial
  · exact fun rows new u hu => hu.grows
  · intro σ b u hrows hfollows hs
    exact ⟨hfollows.next hrows.ascending (fun e he => (hrows.drawn e he).1) hs,
      SearchIndexer.processed_le hs⟩

lemma searchBench_lost (h : (searchBenchRun args instants createdAt).ReachBy BatchesTakeEffect σ) :
    σ.reader.lost = [] := by
  induction h with
  | init h => rw [show _ = SearchIndexer.initial from h.1]; rfl
  | @step σ σ' a _ htakes hs ih =>
    cases a with
    | inl a => exact (congrArg SearchIndexer.lost (PollingBench.reader_main hs)).trans ih
    | inr b =>
      simp only [searchBenchRun, pollingRun] at hs
      split_ifs at hs
      obtain ⟨u, hu, rfl⟩ := Option.map_eq_some_iff.mp hs
      exact (SearchIndexer.lost_next htakes hu).trans ih

lemma searchWorkload_seqs (h : σ.Rows (searchWorkload args instants)) :
    (σ.db.stream args.streamName).map (fun e => e.seq.toUInt64)
      = args.seqs.take (σ.db.stream args.streamName).length := by
  have hseqs := h.seqs
  rwa [searchWorkload, Workload.seqs_map, reader_seqs] at hseqs

/-- Once a wait has ended, the indexer has passed every row. -/
lemma searchBench_passed (h : (searchBenchRun args instants createdAt).Reachable σ) {expected : ℕ}
    (hpassed : σ.phase.passed = some expected) :
    σ.Rows (searchWorkload args instants) ∧
      expected = (σ.db.stream args.streamName).length ∧
      σ.reader.index = rowsOf args.streamName
        ((streamEvents createdAt args.streamName σ).filter fun e => e ∉ σ.reader.lost) ∧
      σ.reader.lost.length + σ.reader.index.length = expected := by
  obtain ⟨hrows, hfollows, hreached⟩ := (searchBench_follows h).resolve_left fun hfailed => by
    simp [hfailed, PollingPhase.passed] at hpassed
  have hlength : expected = (σ.db.stream args.streamName).length := hrows.passed hpassed
  have hall : σ.reader.processed = (σ.db.stream args.streamName).length :=
    le_antisymm hfollows.checkpoint.handled (hlength ▸ hreached expected hpassed)
  obtain ⟨hkept, hcount⟩ := hfollows.index hall
  exact ⟨hrows, hlength, hkept, hcount.trans hlength.symm⟩

/-- What the index holds whenever a wait has ended: the rows of all events written so far except
those of the batches lost, and where no batch is lost their numbers are the first of those that the
bench writes. A wait that has not ended can end, unless the indexer could not connect: then it
never does. -/
theorem search_bench_index (args : ReaderArgs) (instants : UInt64 → DateTime)
    (createdAt : String → DateTime) :
    (∀ σ, (searchBenchRun args instants createdAt).Reachable σ →
      ∀ expected, σ.phase.passed = some expected →
        σ.reader.index = rowsOf args.streamName
            ((streamEvents createdAt args.streamName σ).filter fun e => e ∉ σ.reader.lost) ∧
          σ.reader.lost.length + σ.reader.index.length = expected ∧
          (∀ n, σ.phase = .done n → n = args.seqs.length)) ∧
    (∀ σ, (searchBenchRun args instants createdAt).ReachBy BatchesTakeEffect σ →
      ∀ expected, σ.phase.passed = some expected →
        σ.reader.index.map (fun row => row.seq.toUInt64) = args.seqs.take expected) ∧
    ∀ σ, (searchBenchRun args instants createdAt).Reachable σ →
      ∀ expected live, σ.phase = .waiting expected live →
        (σ.link ≠ .panicked ∨ expected ≤ σ.reader.processed →
          ∃ σ', (searchBenchRun args instants createdAt).Later σ σ' ∧ σ'.db = σ.db ∧
            σ'.phase.passed = some expected) ∧
        (σ.link = .panicked → σ.reader.processed < expected →
          ∀ σ', (searchBenchRun args instants createdAt).Later σ σ' →
            σ'.phase = .waiting expected live) := by
  refine ⟨?_, ?_, ?_⟩
  · intro σ h expected hpassed
    obtain ⟨hrows, -, hkept, hcount⟩ := searchBench_passed h hpassed
    refine ⟨hkept, hcount, fun n hdone => ?_⟩
    rw [hrows.done hdone, searchWorkload, Workload.seqs_map, reader_seqs]
  · intro σ h expected hpassed
    obtain ⟨hrows, hlength, hkept, -⟩ := searchBench_passed h.reachable hpassed
    have hnone : ∀ e ∈ streamEvents createdAt args.streamName σ, e ∉ ([] : List Polled) :=
      fun e _ => List.not_mem_nil
    rw [hkept, searchBench_lost h, hlength, ← searchWorkload_seqs hrows,
      List.filter_eq_self.mpr fun e he => decide_eq_true (hnone e he)]
    simp [rowsOf, streamEvents, polledOf, searchRow, TimedTables.eventOf]
  · intro σ h expected live hwaiting
    obtain ⟨hrows, hfollows, -⟩ := (searchBench_follows h).resolve_left fun hfailed => by
      simp [hfailed] at hwaiting
    have hexpects := hrows.expects
    rw [hwaiting] at hexpects
    have hpos : ∀ e ∈ σ.db.stream args.streamName, 0 < e.globalPosition :=
      fun e he => (hrows.drawn e he).1
    refine PollingBench.wait_ends_or_hangs (SearchIndexer.distance (σ.db.stream args.streamName)) h
      hwaiting hfollows fun u hu hbehind => ?_
    rw [hexpects.1] at hbehind
    obtain ⟨b, u', -, hs, hlt⟩ := SearchIndexer.Follows.closer hu hrows.ascending hpos hbehind
    exact ⟨b, u', hs, hu.next hrows.ascending hpos hs, hlt⟩

end

/-- A seed event, whose batch is lost or not, and a live write. -/
def searchBenchSteps (outcome : Outcome) : List (PollingStep (List UInt8) ⊕ SearchIndexerStep) :=
  [.inl (.append ⟨⟨fun _ => "a", fun _ => 1⟩, .done, .done⟩), .inl .spawn, .inl (.connect true),
    .inr (.poll true),
    .inr (.index outcome), .inr .advance, .inl .pass,
    .inl (.append ⟨⟨fun _ => "b", fun _ => 2⟩, .done, .done⟩), .inr (.poll true),
    .inr (.index .done), .inr .advance, .inl .pass]

def searchBenchStart : PollingBench (List UInt8) SearchIndexer :=
  ⟨⟨fun _ => none, []⟩, 0, .seeding (searchWorkload ⟨"search", 1, 1⟩ fun _ => .epoch).seed,
    .initial, .connecting⟩

/-- The bench gets to its end either way; the index has one row or two. -/
theorem search_bench_index_single :
    let run := searchBenchRun ⟨"search", 1, 1⟩ (fun _ => .epoch) atEpoch
    let lossy := run.after (searchBenchSteps .rejected) searchBenchStart
    let lossless := run.after (searchBenchSteps .done) searchBenchStart
    lossy.reader.lost.length + lossy.reader.index.length = 2 ∧
      lossless.reader.index.map (fun row => row.seq.toUInt64) = [0, 2] := by
  have hbench := search_bench_index ⟨"search", 1, 1⟩ (fun _ => .epoch) atEpoch
  have hinit : (searchBenchRun ⟨"search", 1, 1⟩ (fun _ => .epoch) atEpoch).init searchBenchStart :=
    ⟨rfl, _, rfl⟩
  constructor
  · have hreach := System.reachable_after (searchBenchSteps .rejected) hinit (by decide)
    exact (hbench.1 _ hreach 2 (by decide)).2.1
  · have hreach := System.reachBy_after (C := BatchesTakeEffect) (searchBenchSteps .done) hinit
      ?_ (by decide)
    · exact (hbench.2.1 _ hreach 2 (by decide)).trans (by decide)
    · exact System.along_of_forall (by simp [searchBenchSteps, BatchesTakeEffect])

end EventSourcing.PostgresClient
