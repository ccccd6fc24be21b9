import EventSourcing.Bench.SearchQueries
import EventSourcing.KurrentDB.SearchIndexer
import EventSourcing.PostgresClient.SearchBench

/-!
# All events are searchable

What the queries of `search_bench` find once its waits have ended. On PostgreSQL they find the
events that the bench has written, on KurrentDB the first events of the stream, as many as whole
buffers hold, whoever has written them; those of lost batches they do not find
(`search_queries`). A stream that is new to KurrentDB is searched only if the seed fills whole
buffers and nothing follows it.
-/

namespace EventSourcing

open Bench Concurrency

/-- The events of the stream that no lost batch held. -/
def PostgresClient.foundEvents (createdAt : String → DateTime) (streamName : String)
    (σ : PollingBench (List UInt8) SearchIndexer) : List Polled :=
  (streamEvents createdAt streamName σ).filter fun e => e ∉ σ.reader.lost

namespace KurrentDB

/-- The events of the stream that have been sent to the index in a batch that was not lost. -/
def foundEvents (σ : ReaderBench SearchIndexer) : List (Int × Events.BenchmarkEvent) :=
  ((numbered 0 σ.stream).take σ.reader.processed).filter fun e => e ∉ σ.reader.lost

variable {args : ReaderArgs} {streamId : String} {old : List Decoded}
  {σ σ' : ReaderBench SearchIndexer}

/-- What is sent is the beginning of the stream, and what is lost is a part of it. -/
lemma SearchIndexer.Inv.take_eq {stream : List Decoded} {t : SearchIndexer}
    (h : t.Inv streamId stream) :
    t.processed ≤ (numbered 0 stream).length ∧
      t.lost.Sublist ((numbered 0 stream).take t.processed) ∧
      t.index = rowsOf streamId
        (((numbered 0 stream).take t.processed).filter fun e => e ∉ t.lost) := by
  obtain ⟨sent, hnumbered, hprocessed, hlost, hindex⟩ := h.sent
  have hall : numbered 0 stream
      = sent ++ (t.buf ++ numbered (0 + (stream.take t.sub.next).length)
          (stream.drop t.sub.next)) := by
    rw [← List.append_assoc, ← hnumbered, ← numbered_append, List.take_append_drop]
  rw [hall, hprocessed, List.take_left, List.length_append]
  exact ⟨Nat.le_add_right _ _, hlost, hindex⟩

lemma SearchIndexer.Inv.foundEvents_length (h : σ.reader.Inv streamId σ.stream) :
    σ.reader.lost.length + (foundEvents σ).length = σ.reader.processed := by
  obtain ⟨hle, hlost, -⟩ := h.take_eq
  have hpositions : ((numbered 0 σ.stream).map (·.1)).Nodup := numbered_ascending.imp ne_of_lt
  have hnodup := hpositions.of_map.sublist (List.take_sublist σ.reader.processed _)
  have hsame : (((numbered 0 σ.stream).take σ.reader.processed).filter
      fun e => e ∈ σ.reader.lost).Perm σ.reader.lost := by
    rw [List.perm_ext_iff_of_nodup (hnodup.filter _) (hnodup.sublist hlost)]
    intro e
    rw [List.mem_filter, decide_eq_true_iff]
    exact ⟨fun hmem => hmem.2, fun hmem => ⟨hlost.subset hmem, hmem⟩⟩
  have hcount := (List.filter_append_perm (fun e => decide (e ∈ σ.reader.lost))
    ((numbered 0 σ.stream).take σ.reader.processed)).length_eq
  rw [List.length_append, hsame.length_eq, List.length_take_of_le hle] at hcount
  simpa [foundEvents] using hcount

/-- How the main task moves from phase to phase while so many events have been sent. -/
inductive Moves (args : ReaderArgs) (processed : ℕ) : Phase → Phase → Prop where
  | seeded {batches rest : List ℕ} : Moves args processed (.seeding batches) (.seeding rest)
  | spawned : Moves args processed (.seeding []) (.waiting args.seedEvents args.liveEvents)
  | passed {expected live : ℕ} (hsent : expected ≤ processed) :
      Moves args processed (.waiting expected (live + 1)) (.writing expected live)
  | written {expected live : ℕ} :
      Moves args processed (.writing expected live) (.waiting (expected + 1) live)
  | ended {expected : ℕ} (hsent : expected ≤ processed) :
      Moves args processed (.waiting expected 0) .done
  | failed {phase : Phase} : Moves args processed phase .failed

lemma moves_main {a : MainStep} (hs : σ.mainNext args SearchIndexer.processed a = some σ') :
    Moves args σ.reader.processed σ.phase σ'.phase := by
  cases a with
  | append now outcome =>
    simp only [ReaderBench.mainNext] at hs
    split at hs
    · rename_i n batches hphase
      obtain rfl := Option.some.inj hs
      rw [hphase, ReaderBench.append_phase]
      split_ifs
      · exact .seeded
      · exact .failed
    · rename_i expected live hphase
      obtain rfl := Option.some.inj hs
      rw [hphase, ReaderBench.append_phase]
      split_ifs
      · exact .written
      · exact .failed
    · cases hs
  | spawn =>
    simp only [ReaderBench.mainNext] at hs
    split at hs
    · rename_i hphase
      obtain rfl := Option.some.inj hs
      rw [hphase]
      exact .spawned
    · cases hs
  | pass =>
    simp only [ReaderBench.mainNext] at hs
    split at hs
    · rename_i expected live hphase
      rw [hphase]
      split_ifs at hs with hsent
      split at hs
      · obtain rfl := Option.some.inj hs
        exact .ended hsent
      · obtain rfl := Option.some.inj hs
        exact .passed hsent
    · cases hs

/-- The bench ends when all of its events could have been sent. -/
lemma done_processed (h : (searchRun args streamId old).Reachable σ) (hdone : σ.phase = .done) :
    args.seedEvents + args.liveEvents ≤ σ.reader.processed := by
  revert hdone
  refine System.ReachBy.invariant (P := fun σ => σ.phase = .done →
    args.seedEvents + args.liveEvents ≤ σ.reader.processed) ?_ ?_ h
  · rintro σ ⟨-, hstart⟩ hdone
    rw [hstart] at hdone
    cases hdone
  · intro σ a σ' hreach hinv _ hs hdone
    cases a with
    | inl a =>
      obtain ⟨⟨written, -, hat⟩, -⟩ := ReaderBench.inv_of_reachable hreach
      have hmoves := moves_main hs
      rw [hdone] at hmoves
      rw [(ReaderBench.stream_main hs).1]
      generalize hphase : σ.phase = phase at hmoves hat
      cases hmoves with
      | ended hsent =>
        obtain ⟨rfl, -, htotal⟩ := hat
        omega
    | inr b =>
      obtain ⟨hreading, t, -, rfl⟩ := ReaderBench.readerRun_inr hs
      rw [show σ.phase = .done from hdone] at hreading
      exact hreading.elim

/-- Where a bench on a new stream can be, by the number of its seed events. -/
def OnNewStream (args : ReaderArgs) : Phase → Prop
  | .waiting expected live => (expected = args.seedEvents ∧ live = args.liveEvents) ∨
      (expected = args.seedEvents + 1 ∧ 200 ∣ args.seedEvents)
  | .writing expected _ => expected = args.seedEvents ∧ 200 ∣ args.seedEvents
  | .done => args.liveEvents = 0 ∧ 200 ∣ args.seedEvents
  | _ => True

/-- A wait on a new stream ends only with the seed, if that fills whole buffers. -/
lemma OnNewStream.passed {expected live processed : ℕ}
    (h : OnNewStream args (.waiting expected live)) (hfull : 200 ∣ processed)
    (hsent : processed = expected) :
    expected = args.seedEvents ∧ live = args.liveEvents ∧ 200 ∣ args.seedEvents := by
  subst hsent
  rcases h with ⟨hseed, hlive⟩ | ⟨hnext, hwhole⟩
  · exact ⟨hseed, hlive, hseed ▸ hfull⟩
  · rw [hnext] at hfull
    have hone : 200 ∣ 1 := (Nat.dvd_add_right hwhole).mp hfull
    exact absurd hone (by decide)

lemma onNewStream (h : (searchRun args streamId []).Reachable σ) :
    OnNewStream args σ.phase := by
  refine System.ReachBy.invariant (P := fun σ => OnNewStream args σ.phase) ?_ ?_ h
  · rintro σ ⟨-, hstart⟩
    rw [hstart]
    trivial
  · intro σ a σ' hreach hinv _ hs
    cases a with
    | inl a =>
      -- a wait that ends is about all that has been written, and whole buffers are sent
      obtain ⟨⟨written, hstream, hat⟩, -⟩ := ReaderBench.inv_of_reachable hreach
      have hreader := SearchIndexer.inv_of_reachable hreach
      have hsent := hreader.take_eq.1
      rw [length_numbered, hstream, ReaderBench.countP_stream, List.countP_nil,
        Nat.zero_add] at hsent
      have hfull := hreader.full
      have hmoves := moves_main hs
      generalize σ.phase = phase at hmoves hat hinv
      generalize σ'.phase = phase' at hmoves
      cases hmoves with
      | seeded => trivial
      | spawned => exact .inl ⟨rfl, rfl⟩
      | failed => trivial
      | written => exact .inr ⟨congrArg (· + 1) hinv.1, hinv.2⟩
      | passed hle =>
        obtain ⟨rfl, -, -⟩ := hat
        obtain ⟨hseed, -, hwhole⟩ := hinv.passed hfull (le_antisymm hsent hle)
        exact ⟨hseed, hwhole⟩
      | ended hle =>
        obtain ⟨rfl, -, -⟩ := hat
        obtain ⟨-, hlive, hwhole⟩ := hinv.passed hfull (le_antisymm hsent hle)
        exact ⟨hlive.symm, hwhole⟩
    | inr b =>
      obtain ⟨-, t, -, rfl⟩ := ReaderBench.readerRun_inr hs
      exact hinv

/-- A bench without live events can be done if the stream and the seed fill whole buffers. -/
lemma done_of_whole (hwhole : 200 ∣ old.countP (·.isSome) + args.seedEvents)
    (hlive : args.liveEvents = 0) : ∃ σ, (searchRun args streamId old).Reachable σ ∧
      σ.phase = .done ∧ σ.reader.lost = [] ∧
      σ.reader.processed = old.countP (·.isSome) + args.seedEvents := by
  obtain ⟨σ, hreach, hidle, hphase, hcount⟩ :=
    @SearchIndexer.idle_after_seed streamId args old
  have huptodate := (SearchIndexer.idle_iff hreach hidle).mpr (hcount ▸ hwhole)
  have hlost := SearchIndexer.lost_eq_nil hreach
  rw [hlive] at hphase
  have hpass : σ.mainNext args SearchIndexer.processed .pass
      = some { σ with phase := .done } := by
    simp [ReaderBench.mainNext, hphase, huptodate.wait _ _ hphase]
  exact ⟨_, hreach.reachable.step (a := .inl .pass) trivial hpass, rfl,
    hlost, huptodate.progress.trans hcount⟩

end KurrentDB

/-- On PostgreSQL the queries find, whenever a wait has ended, the events written so far except
those of lost batches, and where no batch is lost these are numbered as the bench numbers them. On
KurrentDB they find the first events of the stream in whole buffers, again except those of lost
batches, and the bench is done when no fewer have been sent than it has written; on a new stream it
is done only if the seed fills whole buffers and there are no live events. Such a bench can always
be done with nothing lost, whatever the stream held, if that fills whole buffers with the seed. -/
theorem search_queries (now : ℕ → DateTime) :
    (∀ args instants createdAt σ,
      (PostgresClient.searchBenchRun args instants createdAt).Reachable σ →
      ∀ expected, σ.phase.passed = some expected →
        Finds (PostgresClient.foundEvents createdAt args.streamName σ) now σ.reader.index ∧
          σ.reader.lost.length
            + (PostgresClient.foundEvents createdAt args.streamName σ).length = expected) ∧
    (∀ args instants createdAt σ,
      (PostgresClient.searchBenchRun args instants createdAt).ReachBy
        PostgresClient.BatchesTakeEffect σ →
      ∀ expected, σ.phase.passed = some expected →
        (PostgresClient.foundEvents createdAt args.streamName σ).map (·.2.seq)
          = args.seqs.take expected) ∧
    (∀ args streamId old σ,
      (KurrentDB.searchRun args streamId old).Reachable σ →
        Finds (KurrentDB.foundEvents σ) now σ.reader.index ∧
          σ.reader.lost.length + (KurrentDB.foundEvents σ).length = σ.reader.processed ∧
          200 ∣ σ.reader.processed ∧
          (σ.phase = .done → args.seedEvents + args.liveEvents ≤ σ.reader.processed ∧
            (old = [] → args.liveEvents = 0 ∧ 200 ∣ args.seedEvents))) ∧
    ∀ (args : KurrentDB.ReaderArgs) (streamId : String) (old : List KurrentDB.Decoded),
      200 ∣ old.countP (·.isSome) + args.seedEvents → args.liveEvents = 0 →
        ∃ σ, (KurrentDB.searchRun args streamId old).Reachable σ ∧ σ.phase = .done ∧
          σ.reader.lost = [] ∧
          σ.reader.processed = old.countP (·.isSome) + args.seedEvents := by
  refine ⟨?_, ?_, ?_, fun args streamId old => KurrentDB.done_of_whole⟩
  · intro args instants createdAt σ h expected hpassed
    obtain ⟨-, -, hindex, hcount⟩ := PostgresClient.searchBench_passed h hpassed
    rw [hindex, rowsOf, List.length_map] at hcount
    rw [hindex]
    exact ⟨finds_rowsOf _ _ now, hcount⟩
  · intro args instants createdAt σ h expected hpassed
    obtain ⟨hrows, hlength, -, -⟩ := PostgresClient.searchBench_passed h.reachable hpassed
    rw [PostgresClient.foundEvents, PostgresClient.searchBench_lost h,
      List.filter_eq_self.mpr fun e _ => decide_eq_true List.not_mem_nil, hlength,
      ← PostgresClient.searchWorkload_seqs hrows, PostgresClient.streamEvents, List.map_map]
    rfl
  · intro args streamId old σ h
    have hinv := KurrentDB.SearchIndexer.inv_of_reachable h
    rw [hinv.take_eq.2.2]
    refine ⟨finds_rowsOf _ _ now, hinv.foundEvents_length, hinv.full, ?_⟩
    intro hdone
    refine ⟨KurrentDB.done_processed h hdone, ?_⟩
    rintro rfl
    have hat := KurrentDB.onNewStream h
    rwa [hdone] at hat

/-- A seed that fills a buffer, and its batch. -/
def fullBuffer (outcome : Outcome) : List (KurrentDB.MainStep ⊕ KurrentDB.SearchIndexerStep) :=
  [.inl (.append (fun _ => .epoch) .done), .inl .spawn] ++
    List.replicate 200 (.inr .deliver) ++ [.inr (.flush outcome), .inl .pass]

/-- The batch is lost, and the bench is done all the same. -/
def lossyBench : KurrentDB.ReaderBench KurrentDB.SearchIndexer :=
  (KurrentDB.searchRun ⟨200, 0⟩ "search" []).after (fullBuffer .rejected)
    (.start ⟨200, 0⟩ 200 .initial [])

lemma lossyBench_reachable : (KurrentDB.searchRun ⟨200, 0⟩ "search" []).Reachable lossyBench :=
  System.reachable_after (fullBuffer .rejected) ⟨rfl, rfl⟩ (by decide +kernel)

theorem search_queries_single :
    let run := PostgresClient.searchBenchRun ⟨"search", 1, 1⟩ (fun _ => .epoch)
      PostgresClient.atEpoch
    let lossy := run.after (PostgresClient.searchBenchSteps .rejected)
      PostgresClient.searchBenchStart
    let lossless := run.after (PostgresClient.searchBenchSteps .done)
      PostgresClient.searchBenchStart
    Finds (PostgresClient.foundEvents PostgresClient.atEpoch "search" lossy) (fun _ => .epoch)
        lossy.reader.index ∧
      (PostgresClient.foundEvents PostgresClient.atEpoch "search" lossless).map (·.2.seq)
        = [0, 2] ∧
      (lossyBench.phase = .done ∧ lossyBench.reader.lost.length = 200 ∧
        Finds (KurrentDB.foundEvents lossyBench) (fun _ => .epoch) lossyBench.reader.index) ∧
      ∃ full, (KurrentDB.searchRun ⟨200, 0⟩ "search" []).Reachable full ∧ full.phase = .done ∧
        (KurrentDB.foundEvents full).length = 200 ∧
        Finds (KurrentDB.foundEvents full) (fun _ => .epoch) full.reader.index := by
  have hqueries := search_queries fun _ => .epoch
  have hinit : (PostgresClient.searchBenchRun ⟨"search", 1, 1⟩ (fun _ => .epoch)
      PostgresClient.atEpoch).init PostgresClient.searchBenchStart := ⟨rfl, _, rfl⟩
  refine ⟨?_, ?_, ⟨by decide +kernel, by decide +kernel, ?_⟩, ?_⟩
  · have hreach := System.reachable_after (PostgresClient.searchBenchSteps .rejected) hinit
      (by decide)
    exact (hqueries.1 ⟨"search", 1, 1⟩ _ _ _ hreach 2 (by decide)).1
  · have hreach := System.reachBy_after (C := PostgresClient.BatchesTakeEffect)
      (PostgresClient.searchBenchSteps .done) hinit ?_ (by decide)
    · exact (hqueries.2.1 ⟨"search", 1, 1⟩ _ _ _ hreach 2 (by decide)).trans (by decide)
    · exact System.along_of_forall
        (by simp [PostgresClient.searchBenchSteps, PostgresClient.BatchesTakeEffect])
  · exact (hqueries.2.2.1 _ _ _ lossyBench lossyBench_reachable).1
  · obtain ⟨full, hreach, hdone, hlost, hprocessed⟩ :=
      hqueries.2.2.2 ⟨200, 0⟩ "search" [] (by decide) rfl
    obtain ⟨hfinds, hlength, -, -⟩ := hqueries.2.2.1 _ _ _ full hreach
    rw [hlost, hprocessed] at hlength
    exact ⟨full, hreach, hdone, by simpa using hlength, hfinds⟩

end EventSourcing
