import EventSourcing.Bench.SearchIndex
import EventSourcing.KurrentDB.ReaderBench

/-!
# The search indexer of KurrentDB

The indexer of `search_bench::run_kurrentdb` sends its buffer to the index when it holds 200
events, and reports progress only then. Events beyond the last full buffer stay in it until more
are delivered, while the main task writes no more before they are reported.
-/

namespace EventSourcing.KurrentDB

open Bench Concurrency

structure SearchIndexer where
  sub : Subscription
  buf : List (Int × Events.BenchmarkEvent)
  gpos : Int
  /-- also the progress it has sent -/
  processed : ℕ
  index : List SearchRow
  /-- history: the events of batches without an effect -/
  lost : List (Int × Events.BenchmarkEvent)

inductive SearchIndexerStep where
  | deliver
  /-- `index_batch` over a full buffer -/
  | flush (outcome : Outcome)
  /-- the subscription ends with an error -/
  | fail
  deriving DecidableEq

namespace SearchIndexer

/-- The index is truncated before the bench starts. -/
def initial : SearchIndexer where
  sub := .start
  buf := []
  gpos := 0
  processed := 0
  index := []
  lost := []

/-- An event joins the buffer if it is a `BenchmarkEvent`. -/
def buffer (event : Decoded) (t : SearchIndexer) : SearchIndexer :=
  { t with
    gpos := t.gpos + 1
    buf := t.buf ++ (event.map fun event => (t.gpos + 1, event)).toList }

/-- `index_batch`, whose result is dropped, over the buffer. -/
def flush (streamId : String) (outcome : Outcome) (t : SearchIndexer) : SearchIndexer :=
  { t with
    index := (outcome.run (some (indexBatch streamId t.buf t.index)) t.index).2
    processed := t.processed + t.buf.length
    buf := []
    lost := if outcome = .rejected then t.lost ++ t.buf else t.lost }

def next (streamId : String) (stream : List Decoded) (t : SearchIndexer) :
    SearchIndexerStep → Option SearchIndexer
  | .deliver =>
    if t.buf.length < 200 then
      (t.sub.deliver stream).map fun (event, sub) => { t.buffer event with sub := sub }
    else none
  | .flush outcome => if 200 ≤ t.buf.length then some (t.flush streamId outcome) else none
  | .fail =>
    if t.buf.length < 200 then some { t with sub := { t.sub with ended := true } } else none

end SearchIndexer

def searchIndexer (streamId : String) :
    Observer (List Decoded) SearchIndexer SearchIndexerStep where
  init t := t = .initial
  next := SearchIndexer.next streamId

/-- The runs of `search_bench::run_kurrentdb` on a stream that holds `old`. -/
abbrev searchRun (args : ReaderArgs) (streamId : String) (old : List Decoded) :
    System (ReaderBench SearchIndexer) (MainStep ⊕ SearchIndexerStep) :=
  readerRun args 200 (searchIndexer streamId) SearchIndexer.processed old

/-- Every `index_batch` takes effect. -/
def IndexTakesEffect (_ : ReaderBench SearchIndexer) : MainStep ⊕ SearchIndexerStep → Prop
  | .inl _ => True
  | .inr step => step ≠ .flush .rejected

instance (σ : ReaderBench SearchIndexer) :
    (a : MainStep ⊕ SearchIndexerStep) → Decidable (IndexTakesEffect σ a)
  | .inl _ => isTrue trivial
  | .inr step => inferInstanceAs (Decidable (step ≠ .flush .rejected))

namespace ReaderBench

/-- The subscription has delivered everything and the indexer waits for the next event. -/
def Idle (σ : ReaderBench SearchIndexer) : Prop :=
  σ.phase.Reading ∧ σ.reader.sub = ⟨σ.stream.length, false⟩ ∧ σ.reader.buf.length < 200

instance (σ : ReaderBench SearchIndexer) : Decidable σ.Idle :=
  inferInstanceAs (Decidable (_ ∧ _ ∧ _))

/-- Every `BenchmarkEvent` of the stream is in the index and reported, and the main task does not
wait for more. -/
structure UpToDate (streamId : String) (σ : ReaderBench SearchIndexer) : Prop where
  indexed : ∀ (i : ℕ) event, σ.stream[i]? = some (some event) →
    searchRow streamId (i + 1) event ∈ σ.reader.index
  progress : σ.reader.processed = σ.stream.countP (·.isSome)
  wait : ∀ expected live, σ.phase = .waiting expected live → expected ≤ σ.reader.processed

end ReaderBench

/-! ### The events with their positions -/

/-- The `BenchmarkEvent`s of a stream, numbered from `gpos` on. -/
def numbered (gpos : Int) : List Decoded → List (Int × Events.BenchmarkEvent)
  | [] => []
  | event :: stream =>
    (event.map fun event => (gpos + 1, event)).toList ++ numbered (gpos + 1) stream

variable {gpos : Int} {stream more : List Decoded} {streamId : String}

lemma numbered_append : numbered gpos (stream ++ more)
    = numbered gpos stream ++ numbered (gpos + stream.length) more := by
  induction stream generalizing gpos with
  | nil => simp [numbered]
  | cons event stream ih =>
    rw [List.cons_append, numbered, ih, numbered, List.append_assoc, List.length_cons]
    congr 3
    push_cast
    ring

lemma length_numbered : (numbered gpos stream).length = stream.countP (·.isSome) := by
  induction stream generalizing gpos with
  | nil => rfl
  | cons event stream ih =>
    rw [numbered, List.length_append, ih, List.countP_cons]
    cases event <;> simp [Nat.add_comm]

lemma lt_numbered : ∀ e ∈ numbered gpos stream, gpos < e.1 := by
  induction stream generalizing gpos with
  | nil => exact fun e he => absurd he List.not_mem_nil
  | cons event stream ih =>
    intro e he
    rcases List.mem_append.mp he with he | he
    · cases event with
      | none => cases he
      | some event =>
        obtain rfl := List.mem_singleton.mp he
        exact Int.lt_succ gpos
    · exact (Int.lt_succ gpos).trans (ih e he)

lemma numbered_ascending : ((numbered gpos stream).map (·.1)).Pairwise (· < ·) := by
  induction stream generalizing gpos with
  | nil => exact .nil
  | cons event stream ih =>
    rw [numbered, List.map_append, List.pairwise_append]
    refine ⟨?_, ih, ?_⟩
    · cases event <;> simp
    · intro g hg g' hg'
      obtain ⟨e', he', rfl⟩ := List.mem_map.mp hg'
      have hlt := lt_numbered e' he'
      cases event with
      | none => cases hg
      | some event =>
        obtain rfl := List.mem_singleton.mp hg
        exact hlt

lemma mem_numbered (gpos : Int) {i : ℕ} {event : Events.BenchmarkEvent}
    (h : stream[i]? = some (some event)) :
    (gpos + i + 1, event) ∈ numbered gpos stream := by
  induction stream generalizing gpos i with
  | nil => cases h
  | cons first stream ih =>
    rw [numbered, List.mem_append]
    cases i with
    | zero =>
      obtain rfl : first = some event := by simpa using h
      exact .inl (by simp)
    | succ i =>
      have hmem := @ih (gpos + 1) i (by simpa using h)
      refine .inr ?_
      convert hmem using 2
      push_cast
      ring

/-! ### What the indexer has done -/

namespace SearchIndexer

variable {t t' : SearchIndexer}

/-- What has been delivered is sent to the index or in the buffer, only full buffers are sent, and
the index has what is sent and not lost. -/
structure Inv (streamId : String) (stream : List Decoded) (t : SearchIndexer) : Prop where
  next : t.sub.next ≤ stream.length
  gpos : t.gpos = t.sub.next
  full : 200 ∣ t.processed
  buf : t.buf.length ≤ 200
  sent : ∃ sent, numbered 0 (stream.take t.sub.next) = sent ++ t.buf ∧
    t.processed = sent.length ∧ t.lost.Sublist sent ∧
    t.index = rowsOf streamId (sent.filter fun e => e ∉ t.lost)

lemma Inv.append (h : t.Inv streamId stream) : t.Inv streamId (stream ++ more) where
  next := h.next.trans (by simp)
  gpos := h.gpos
  full := h.full
  buf := h.buf
  sent := by
    rw [List.take_append_of_le_length h.next]
    exact h.sent

lemma Inv.deliver (h : t.Inv streamId stream)
    (hs : t.next streamId stream .deliver = some t') : t'.Inv streamId stream := by
  simp only [SearchIndexer.next] at hs
  split_ifs at hs with hbuf
  obtain ⟨⟨event, sub⟩, hdeliver, rfl⟩ := Option.map_eq_some_iff.mp hs
  obtain ⟨hget, hnext, hle, htake⟩ := Subscription.deliver_eq_some hdeliver
  obtain ⟨sent, hnumbered, hprocessed, hlost, hindex⟩ := h.sent
  refine ⟨hle, ?_, h.full, ?_, sent, ?_, hprocessed, hlost, hindex⟩
  · simp only [buffer, hnext, h.gpos, Nat.cast_succ]
  · have hone : (event.map fun event => (t.gpos + 1, event)).toList.length ≤ 1 := by
      cases event <;> simp
    simp only [buffer, List.length_append]
    omega
  · have hlength : (stream.take t.sub.next).length = t.sub.next := List.length_take_of_le h.next
    show numbered 0 (stream.take sub.next) = sent ++ (t.buf ++ _)
    rw [htake, numbered_append, hnumbered, hlength, List.append_assoc, h.gpos]
    simp [numbered]

/-- Of the events that are sent, a batch without an effect adds none. -/
lemma filter_batch_lost {sent buf lost : List (Int × Events.BenchmarkEvent)}
    (hapart : ∀ e ∈ sent, e ∉ buf) :
    ((sent ++ buf).filter fun e => e ∉ lost ++ buf) = sent.filter fun e => e ∉ lost := by
  have hnone : (buf.filter fun e => e ∉ lost ++ buf) = [] :=
    List.filter_eq_nil_iff.mpr fun e he => by simp [he]
  rw [List.filter_append, hnone, List.append_nil]
  refine List.filter_congr fun e he => ?_
  simp [hapart e he]

/-- Any other batch adds its events. -/
lemma filter_batch_kept {sent buf lost : List (Int × Events.BenchmarkEvent)}
    (hapart : ∀ e ∈ sent, e ∉ buf) (hlost : lost.Sublist sent) :
    ((sent ++ buf).filter fun e => e ∉ lost) = (sent.filter fun e => e ∉ lost) ++ buf := by
  have hall : (buf.filter fun e => e ∉ lost) = buf :=
    List.filter_eq_self.mpr fun e he =>
      decide_eq_true fun hmem => hapart e (hlost.subset hmem) he
  rw [List.filter_append, hall]

lemma Inv.flush {outcome : Outcome} (h : t.Inv streamId stream)
    (hs : t.next streamId stream (.flush outcome) = some t') : t'.Inv streamId stream := by
  simp only [SearchIndexer.next] at hs
  split_ifs at hs with hbuf
  obtain rfl := Option.some.inj hs
  obtain ⟨sent, hnumbered, hprocessed, hlost, hindex⟩ := h.sent
  have hlength : t.buf.length = 200 := le_antisymm h.buf hbuf
  have hpositions : ((sent ++ t.buf).map (·.1)).Nodup :=
    hnumbered ▸ numbered_ascending.imp ne_of_lt
  have hapart : ∀ e ∈ sent, e ∉ t.buf := fun e he hbuf =>
    (List.nodup_append.mp hpositions.of_map).2.2 e he e hbuf rfl
  have hfull : 200 ∣ t.processed + t.buf.length := Nat.dvd_add h.full (hlength ▸ dvd_rfl)
  have hsent : t.processed + t.buf.length = (sent ++ t.buf).length := by simp [hprocessed]
  refine ⟨h.next, h.gpos, hfull, Nat.zero_le _, sent ++ t.buf,
    hnumbered.trans (List.append_nil _).symm, hsent, ?_⟩
  by_cases houtcome : outcome = .rejected
  · subst houtcome
    refine ⟨hlost.append (.refl _), hindex.trans (congrArg _ ?_)⟩
    exact (filter_batch_lost hapart).symm
  · have hkept : (((sent.filter fun e => e ∉ t.lost) ++ t.buf).map (·.1)).Nodup :=
      hpositions.sublist ((List.filter_sublist.append (.refl _)).map _)
    have hrun : (t.flush streamId outcome).index = indexBatch streamId t.buf t.index := by
      cases outcome with
      | rejected => exact absurd rfl houtcome
      | _ => rfl
    have hsame : (t.flush streamId outcome).lost = t.lost := if_neg houtcome
    rw [hrun, hsame, hindex, indexBatch_rowsOf hkept, filter_batch_kept hapart hlost]
    exact ⟨hlost.trans (List.sublist_append_left _ _), rfl⟩

variable {args : ReaderArgs} {old : List Decoded} {σ σ' : ReaderBench SearchIndexer}

lemma inv_of_reachable (h : (searchRun args streamId old).Reachable σ) :
    σ.reader.Inv streamId σ.stream := by
  refine ReaderBench.reader_invariant (P := Inv streamId) ?_ ?_ ?_ h
  · rintro _ rfl
    exact ⟨Nat.zero_le _, rfl, dvd_zero _, Nat.zero_le _, [], rfl, rfl, .slnil, rfl⟩
  · intro stream more t hinv
    exact hinv.append
  · intro σ b t hinv _ hs
    cases b with
    | deliver => exact hinv.deliver hs
    | flush outcome => exact hinv.flush hs
    | fail =>
      simp only [searchIndexer, SearchIndexer.next] at hs
      split_ifs at hs
      obtain rfl := Option.some.inj hs
      exact ⟨hinv.next, hinv.gpos, hinv.full, hinv.buf, hinv.sent⟩

/-- Without a failed `index_batch` nothing is lost. -/
lemma lost_eq_nil (h : (searchRun args streamId old).ReachBy IndexTakesEffect σ) :
    σ.reader.lost = [] := by
  refine ReaderBench.reader_invariant (P := fun _ t => t.lost = []) ?_ ?_ ?_ h
  · rintro _ rfl
    rfl
  · intro stream more t hlost
    exact hlost
  · intro σ b t hlost htakes hs
    cases b with
    | deliver =>
      simp only [searchIndexer, SearchIndexer.next] at hs
      split_ifs at hs
      obtain ⟨_, -, rfl⟩ := Option.map_eq_some_iff.mp hs
      exact hlost
    | flush outcome =>
      have houtcome : outcome ≠ .rejected := fun heq => htakes (congrArg _ heq)
      simp only [searchIndexer, SearchIndexer.next] at hs
      split_ifs at hs
      obtain rfl := Option.some.inj hs
      exact (if_neg houtcome).trans hlost
    | fail =>
      simp only [searchIndexer, SearchIndexer.next] at hs
      split_ifs at hs
      obtain rfl := Option.some.inj hs
      exact hlost

/-- An idle indexer is up to date if and only if the stream fills whole buffers. -/
lemma idle_iff (h : (searchRun args streamId old).ReachBy IndexTakesEffect σ) (hidle : σ.Idle) :
    σ.UpToDate streamId ↔ 200 ∣ σ.stream.countP (·.isSome) := by
  have hinv := inv_of_reachable h.reachable
  obtain ⟨sent, hnumbered, hprocessed, -, hindex⟩ := hinv.sent
  have hnone : (sent.filter fun e => e ∉ σ.reader.lost) = sent := by
    rw [lost_eq_nil h]
    exact List.filter_eq_self.mpr fun e _ => decide_eq_true List.not_mem_nil
  rw [hnone] at hindex
  obtain ⟨hreading, hsub, hbuf⟩ := hidle
  rw [hsub, List.take_length] at hnumbered
  have hcount := congrArg List.length hnumbered
  rw [length_numbered, List.length_append, ← hprocessed] at hcount
  constructor
  · intro huptodate
    rw [← huptodate.progress]
    exact hinv.full
  · intro hwhole
    -- what is left in the buffer would be a multiple of 200 as well
    have hrest : 200 ∣ σ.reader.buf.length := by
      rw [hcount] at hwhole
      exact (Nat.dvd_add_right hinv.full).mp hwhole
    have hempty : σ.reader.buf.length = 0 := Nat.eq_zero_of_dvd_of_lt hrest hbuf
    refine ⟨?_, by omega, ?_⟩
    · intro i event hget
      have hmem := mem_numbered 0 hget
      rw [hnumbered, List.eq_nil_of_length_eq_zero hempty, List.append_nil] at hmem
      rw [hindex]
      exact List.mem_map.mpr ⟨_, hmem, by simp⟩
    · intro expected live hphase
      obtain ⟨⟨written, hstream, hat⟩, -⟩ := ReaderBench.inv_of_reachable h.reachable
      rw [hphase] at hat
      obtain ⟨rfl, -⟩ := hat
      have hall : written.length ≤ σ.stream.countP (·.isSome) := by
        rw [hstream, ReaderBench.countP_stream]
        exact Nat.le_add_left _ _
      omega

/-! ### Until the indexer is idle -/

/-- A step of the indexer, as the next step of a run. -/
lemma stepped (h : (searchRun args streamId old).ReachBy IndexTakesEffect σ)
    (hreading : σ.phase.Reading) {b : SearchIndexerStep} {t : SearchIndexer}
    (hb : b ≠ .flush .rejected) (hs : σ.reader.next streamId σ.stream b = some t) :
    (searchRun args streamId old).ReachBy IndexTakesEffect { σ with reader := t } := by
  refine h.step (a := .inr b) hb ?_
  simp only [readerRun, if_pos hreading]
  exact congrArg (Option.map _) hs

/-- A full buffer is flushed. -/
lemma flushed (h : (searchRun args streamId old).ReachBy IndexTakesEffect σ)
    (hreading : σ.phase.Reading) :
    ∃ t, (searchRun args streamId old).ReachBy IndexTakesEffect { σ with reader := t } ∧
      t.sub = σ.reader.sub ∧ t.buf.length < 200 := by
  by_cases hfull : 200 ≤ σ.reader.buf.length
  · have hs : σ.reader.next streamId σ.stream (.flush .done)
        = some (σ.reader.flush streamId .done) := if_pos hfull
    exact ⟨_, stepped h hreading (by decide) hs, rfl, Nat.zero_lt_succ _⟩
  · exact ⟨σ.reader, h, rfl, not_le.mp hfull⟩

/-- The main task can be slow enough for the indexer to be idle. -/
lemma idled (n : ℕ) (h : (searchRun args streamId old).ReachBy IndexTakesEffect σ)
    (hreading : σ.phase.Reading) (hended : σ.reader.sub.ended = false)
    (hn : σ.reader.sub.next + n = σ.stream.length) :
    ∃ t, (searchRun args streamId old).ReachBy IndexTakesEffect { σ with reader := t } ∧
      ({ σ with reader := t } : ReaderBench SearchIndexer).Idle := by
  induction n generalizing σ with
  | zero =>
    obtain ⟨t, hreach, hsub, hbuf⟩ := flushed h hreading
    refine ⟨t, hreach, hreading, ?_, hbuf⟩
    rw [hsub, ← hn, ← hended]
    rfl
  | succ n ih =>
    obtain ⟨t, hreach, hsub, hbuf⟩ := flushed h hreading
    have hlt : σ.reader.sub.next < σ.stream.length := by omega
    let t' := { t.buffer σ.stream[σ.reader.sub.next] with sub := ⟨σ.reader.sub.next + 1, false⟩ }
    have hdeliver : t.next streamId σ.stream .deliver = some t' := by
      simp only [SearchIndexer.next, if_pos hbuf, Subscription.deliver, hsub, hended,
        List.getElem?_eq_getElem hlt]
      rfl
    have hne : SearchIndexerStep.deliver ≠ .flush .rejected := by
      intro hflush
      cases hflush
    refine @ih { σ with reader := t' } (stepped hreach hreading hne hdeliver) hreading rfl ?_
    show σ.reader.sub.next + 1 + n = σ.stream.length
    omega

/-- After the seed phase the indexer can be idle in the first wait. -/
lemma idle_after_seed : ∃ σ, (searchRun args streamId old).ReachBy IndexTakesEffect σ ∧ σ.Idle ∧
    σ.phase = .waiting args.seedEvents args.liveEvents ∧
    σ.stream.countP (·.isSome) = old.countP (·.isSome) + args.seedEvents := by
  have hinit : (searchRun args streamId old).ReachBy IndexTakesEffect
      (.start args 200 .initial old) := .init ⟨rfl, rfl⟩
  obtain ⟨σ, hreach, hphase, hreader, ⟨written, hstream, hlength⟩, -⟩ :=
    ReaderBench.seeded (fun _ _ => trivial) hinit (fun _ => .epoch) rfl
  rw [ReaderBench.sum_batches] at hlength
  have hreading : σ.phase.Reading := by
    rw [hphase]
    trivial
  have hstart : σ.reader.sub = .start := by rw [hreader]; rfl
  obtain ⟨t, hreach', hidle⟩ := idled σ.stream.length hreach hreading (by rw [hstart]; rfl)
    (by rw [hstart]; exact Nat.zero_add _)
  refine ⟨{ σ with reader := t }, hreach', hidle, hphase, ?_⟩
  rw [hstream, ← hlength]
  exact ReaderBench.countP_stream

/-- If the first wait ends, the indexer can be idle again after one live event. -/
lemma idle_after_live {expected live : ℕ}
    (h : (searchRun args streamId old).ReachBy IndexTakesEffect σ) (hidle : σ.Idle)
    (hphase : σ.phase = .waiting expected (live + 1)) (hprogress : expected ≤ σ.reader.processed) :
    ∃ σ', (searchRun args streamId old).ReachBy IndexTakesEffect σ' ∧ σ'.Idle ∧
      σ'.stream.countP (·.isSome) = σ.stream.countP (·.isSome) + 1 := by
  obtain ⟨σ₁, hreach, hphase₁, hreader, ⟨event, hstream⟩, -⟩ :=
    ReaderBench.lived (fun _ _ => trivial) h (fun _ => .epoch) hphase hprogress
  have hreading : σ₁.phase.Reading := by
    rw [hphase₁]
    trivial
  have hsub : σ₁.reader.sub = ⟨σ.stream.length, false⟩ := by rw [hreader]; exact hidle.2.1
  obtain ⟨t, hreach', hidle'⟩ := idled 1 hreach hreading (by rw [hsub])
    (by rw [hsub, hstream]; simp)
  refine ⟨{ σ₁ with reader := t }, hreach', hidle', ?_⟩
  simp [hstream, List.countP_append]

end SearchIndexer

open SearchIndexer in
/-- Where every `index_batch` takes effect, an idle indexer is always up to date if and only if
the events of the stream and the seed fill whole buffers and there are no live events. -/
theorem idle_up_to_date (args : ReaderArgs) (streamId : String) (old : List Decoded) :
    (∀ σ, (searchRun args streamId old).ReachBy IndexTakesEffect σ → σ.Idle →
        σ.UpToDate streamId) ↔
      200 ∣ old.countP (·.isSome) + args.seedEvents ∧ args.liveEvents = 0 := by
  constructor
  · intro hclaim
    obtain ⟨σ, hreach, hidle, hphase, hcount⟩ := @idle_after_seed streamId args old
    have huptodate := hclaim σ hreach hidle
    have hwhole := (idle_iff hreach hidle).mp huptodate
    refine ⟨hcount ▸ hwhole, ?_⟩
    by_contra hne
    -- the main task writes a live event, which stays in the buffer
    obtain ⟨live, hlive⟩ := Nat.exists_eq_succ_of_ne_zero hne
    rw [hlive] at hphase
    obtain ⟨σ₁, hreach₁, hidle₁, hcount₁⟩ :=
      idle_after_live hreach hidle hphase (huptodate.wait _ _ hphase)
    have hwhole₁ := (idle_iff hreach₁ hidle₁).mp (hclaim σ₁ hreach₁ hidle₁)
    rw [hcount₁] at hwhole₁
    have hone : 200 ∣ 1 := (Nat.dvd_add_right hwhole).mp hwhole₁
    exact absurd hone (by decide)
  · rintro ⟨hwhole, hlive⟩ σ hreach hidle
    rw [idle_iff hreach hidle]
    obtain ⟨⟨written, hstream, hat⟩, -⟩ := ReaderBench.inv_of_reachable hreach.reachable
    rw [hstream, ReaderBench.countP_stream, ReaderBench.written_of_no_live hat hidle.1 hlive]
    exact hwhole

/-! ### A single event -/

/-- One event is seeded on a new stream and delivered. -/
def singleRun : List (MainStep ⊕ SearchIndexerStep) :=
  [.inl (.append (fun _ => .epoch) .done), .inl .spawn, .inr .deliver]

def single : ReaderBench SearchIndexer :=
  (searchRun ⟨1, 0⟩ "search" []).after singleRun (.start ⟨1, 0⟩ 200 .initial [])

/-- The indexer waits for the next event, and the main task for the first one. -/
theorem idle_up_to_date_fails :
    ¬ ∀ (args : ReaderArgs) (streamId : String) (old : List Decoded)
      (σ : ReaderBench SearchIndexer),
      (searchRun args streamId old).ReachBy IndexTakesEffect σ → σ.Idle →
      σ.UpToDate streamId := by
  intro hclaim
  have hreach := System.reachBy_after (M := searchRun ⟨1, 0⟩ "search" []) (C := IndexTakesEffect)
    singleRun (s := .start ⟨1, 0⟩ 200 .initial []) ⟨rfl, rfl⟩ (by decide) (by decide)
  have huptodate := hclaim ⟨1, 0⟩ "search" [] single hreach (by decide)
  have hwait := huptodate.wait 1 0 (by decide)
  exact absurd hwait (by decide)

end EventSourcing.KurrentDB
