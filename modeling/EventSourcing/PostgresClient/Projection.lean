import EventSourcing.Bench.Consumers
import EventSourcing.Fold.Window
import EventSourcing.PostgresClient.PollingBench

/-!
# The projection bench on PostgreSQL

`projection_bench::run_postgres`: the polling projector pushes the `seq` of every row into the view
and sends the number of rows pushed. Whenever a wait of the main task ends, the view holds the end
of everything that has been written; a wait can always end unless the task of the projector has
panicked as it connected, and then it never does (`projection_view`). What the view holds are the
numbers of the rows: those of the seed phase start at zero, those of the live writes one above the
number of seed events.
-/

namespace EventSourcing.PostgresClient

open Bench Concurrency

variable {P : Type}

/-- The projector task of `projection_bench::run_postgres`. -/
structure ViewProjector where
  checkpoint : Int
  /-- what is left of the rows of the last poll -/
  rows : List (Int64 × Int)
  processed : ℕ
  view : List UInt64
  /-- the value sent last -/
  progress : ℕ
  deriving DecidableEq

inductive ViewProjectorStep where
  /-- a poll that fails is made again later -/
  | poll (answered : Bool)
  | process
  | send

namespace ViewProjector

def initial : ViewProjector where
  checkpoint := 0
  rows := []
  processed := 0
  view := []
  progress := 0

def next (streamName : String) (viewSize : ℕ) (db : Tables P) (u : ViewProjector) :
    ViewProjectorStep → Option ViewProjector
  | .poll answered =>
    if u.progress = u.processed ∧ u.rows = [] then
      match answered, db.pollNewEvents streamName u.checkpoint 200 with
      | true, .ok rows => some { u with rows := rows }
      | _, _ => some u
    else none
  | .process =>
    match u.rows with
    | [] => none
    | (seq, position) :: rows =>
      if u.progress = u.processed then
        some { u with
          checkpoint := position
          rows := rows
          processed := u.processed + 1
          view := pushToView u.view seq.toUInt64 viewSize }
      else none
  | .send =>
    if u.progress = u.processed then none else some { u with progress := u.processed }

end ViewProjector

/-- The bench's projector. -/
def viewProjector (P : Type) (streamName : String) (viewSize : ℕ) :
    Observer (Tables P) ViewProjector ViewProjectorStep where
  init u := u = .initial
  next := ViewProjector.next streamName viewSize

/-- `projection_bench::run_postgres` -/
def projectionRun (args : ReaderArgs) (viewSize : ℕ) :
    System (PollingBench BenchmarkEvent ViewProjector)
      (PollingStep BenchmarkEvent ⊕ ViewProjectorStep) :=
  pollingRun (readerWorkload args 100) (viewProjector BenchmarkEvent args.streamName viewSize)
    ViewProjector.progress

/-! ### What the projector has pushed -/

namespace ViewProjector

/-- The projector has pushed the first `processed` rows and goes on with the next ones. -/
structure Follows (viewSize : ℕ) (rows : List (BenchEvent P)) (u : ViewProjector) : Prop where
  checkpoint : CheckpointAt rows u.processed u.checkpoint
  fetched : u.rows <+: (rows.drop u.processed).map BenchEvent.polled
  view : u.view = ((rows.take u.processed).map fun e => e.seq.toUInt64).foldl
    (Fold.slide viewSize) []
  progress : u.progress ≤ u.processed

variable {streamName : String} {viewSize : ℕ} {db : Tables P} {rows new : List (BenchEvent P)}
  {u u' : ViewProjector}

lemma follows_initial : Follows viewSize rows .initial :=
  ⟨.start, List.nil_prefix, rfl, le_refl 0⟩

lemma Follows.grows (h : u.Follows viewSize rows) : u.Follows viewSize (rows ++ new) := by
  refine ⟨h.checkpoint.grows, ?_, ?_, h.progress⟩
  · rw [List.drop_append_of_le_length h.checkpoint.handled, List.map_append]
    exact h.fetched.trans (List.prefix_append ..)
  · rw [List.take_append_of_le_length h.checkpoint.handled]
    exact h.view

/-- The row that the projector pushes next is the one after those it has pushed. -/
lemma Follows.first (h : u.Follows viewSize rows) {seq : Int64} {position : Int}
    {rest : List (Int64 × Int)} (hrows : u.rows = (seq, position) :: rest) :
    ∃ e, rows.drop u.processed = e :: rows.drop (u.processed + 1) ∧ e.seq = seq ∧
      e.globalPosition = position ∧
      rest <+: (rows.drop (u.processed + 1)).map BenchEvent.polled := by
  have hfetched := h.fetched
  rcases Nat.lt_or_ge u.processed rows.length with hlt | hge
  · have hdrop := List.drop_eq_getElem_cons hlt
    rw [hrows, hdrop, List.map_cons, List.cons_prefix_cons] at hfetched
    obtain ⟨hpolled, hrest⟩ := hfetched
    obtain ⟨rfl, rfl⟩ := Prod.mk.inj hpolled
    exact ⟨_, hdrop, rfl, rfl, hrest⟩
  · rw [hrows, List.drop_of_length_le hge] at hfetched
    cases List.prefix_nil.mp hfetched

/-- A poll that is answered returns the next rows, at most 200 of them. -/
lemma Follows.poll (h : u.Follows viewSize (db.stream streamName))
    (hascending : ((db.stream streamName).map (·.globalPosition)).Pairwise (· < ·))
    (hpos : ∀ e ∈ db.stream streamName, 0 < e.globalPosition) :
    db.pollNewEvents streamName u.checkpoint 200
      = .ok ((((db.stream streamName).drop u.processed).take 200).map BenchEvent.polled) := by
  have hremaining := h.checkpoint.remaining hascending hpos
  simp only [Tables.pollNewEvents, hremaining]
  rfl

lemma Follows.next {b : ViewProjectorStep} (h : u.Follows viewSize (db.stream streamName))
    (hascending : ((db.stream streamName).map (·.globalPosition)).Pairwise (· < ·))
    (hpos : ∀ e ∈ db.stream streamName, 0 < e.globalPosition)
    (hs : u.next streamName viewSize db b = some u') :
    u'.Follows viewSize (db.stream streamName) := by
  cases b with
  | poll answered =>
    simp only [ViewProjector.next, h.poll hascending hpos] at hs
    split_ifs at hs
    cases answered with
    | true =>
      obtain rfl := Option.some.inj hs
      exact ⟨h.checkpoint, (List.take_prefix ..).map _, h.view, h.progress⟩
    | false =>
      obtain rfl := Option.some.inj hs
      exact h
  | process =>
    simp only [ViewProjector.next] at hs
    split at hs
    · cases hs
    · rename_i seq position rest hrows
      split_ifs at hs
      obtain rfl := Option.some.inj hs
      obtain ⟨e, he, rfl, rfl, hrest⟩ := h.first hrows
      have hnext : [e] <+: (db.stream streamName).drop u.processed := he ▸ ⟨_, rfl⟩
      have htake : (db.stream streamName).take (u.processed + 1)
          = (db.stream streamName).take u.processed ++ [e] := by
        rw [List.take_add, he]
        rfl
      refine ⟨h.checkpoint.advance hnext, hrest, ?_, h.progress.trans (Nat.le_succ _)⟩
      rw [htake, List.map_append, List.foldl_append, ← h.view]
      rfl
  | send =>
    simp only [ViewProjector.next] at hs
    split_ifs at hs
    obtain rfl := Option.some.inj hs
    exact ⟨h.checkpoint, h.fetched, h.view, le_refl _⟩

lemma Follows.progress_le {b : ViewProjectorStep} (h : u.Follows viewSize rows)
    (hs : u.next streamName viewSize db b = some u') : u.progress ≤ u'.progress := by
  cases b with
  | poll answered =>
    simp only [ViewProjector.next] at hs
    split_ifs at hs
    split at hs <;> obtain rfl := Option.some.inj hs <;> exact le_refl _
  | process =>
    simp only [ViewProjector.next] at hs
    split at hs
    · cases hs
    · split_ifs at hs
      obtain rfl := Option.some.inj hs
      exact le_refl _
  | send =>
    simp only [ViewProjector.next] at hs
    split_ifs at hs
    obtain rfl := Option.some.inj hs
    exact h.progress

/-- What the projector still has to do for the rows of the stream. -/
def distance (rows : List (BenchEvent P)) (u : ViewProjector) : ℕ :=
  3 * (rows.length - u.processed) + (if u.progress = u.processed then 0 else 1)
    + if u.rows = [] then 1 else 0

/-- There is always a step that gets the projector closer to the end of the stream. -/
lemma Follows.closer (h : u.Follows viewSize (db.stream streamName))
    (hascending : ((db.stream streamName).map (·.globalPosition)).Pairwise (· < ·))
    (hpos : ∀ e ∈ db.stream streamName, 0 < e.globalPosition)
    (hbehind : u.progress < (db.stream streamName).length) :
    ∃ b u', u.next streamName viewSize db b = some u' ∧
      u'.distance (db.stream streamName) < u.distance (db.stream streamName) := by
  by_cases hsent : u.progress = u.processed
  · cases hrows : u.rows with
    | cons r rest =>
      obtain ⟨seq, position⟩ := r
      refine ⟨.process, { u with
        checkpoint := position
        rows := rest
        processed := u.processed + 1
        view := pushToView u.view seq.toUInt64 viewSize }, ?_, ?_⟩
      · simp only [ViewProjector.next, hrows, if_pos hsent]
      · have hunsent : u.progress ≠ u.processed + 1 := by omega
        have hrest : (if rest = [] then 1 else 0) ≤ 1 := by split_ifs <;> omega
        have hfull : (if (seq, position) :: rest = [] then 1 else 0) = 0 := if_neg (by simp)
        simp only [distance, hrows, if_pos hsent, if_neg hunsent]
        omega
    | nil =>
      have hready : u.progress = u.processed ∧ u.rows = [] := ⟨hsent, hrows⟩
      refine ⟨.poll true, { u with
        rows := ((((db.stream streamName).drop u.processed).take 200).map BenchEvent.polled) },
        ?_, ?_⟩
      · simp only [ViewProjector.next, if_pos hready, h.poll hascending hpos]
      · have hnext : (((db.stream streamName).drop u.processed).take 200).map BenchEvent.polled
            ≠ [] := by
          rw [hsent] at hbehind
          simpa using hbehind
        simp only [distance, hrows, if_neg hnext, if_true]
        omega
  · refine ⟨.send, { u with progress := u.processed }, ?_, ?_⟩
    · simp only [ViewProjector.next, if_neg hsent]
    · simp only [distance, if_neg hsent, if_true]
      omega

end ViewProjector

section

variable {args : ReaderArgs} {viewSize : ℕ} {σ : PollingBench BenchmarkEvent ViewProjector}

lemma projection_follows (h : (projectionRun args viewSize).Reachable σ) :
    σ.phase = .failed ∨ σ.Rows (readerWorkload args 100) ∧
      σ.reader.Follows viewSize (σ.db.stream args.streamName) ∧
      σ.Reached ViewProjector.progress := by
  refine PollingBench.follows_of_reachable (F := fun rows u => u.Follows viewSize rows) ?_ ?_ ?_ h
  · rintro u rfl
    exact ViewProjector.follows_initial
  · exact fun rows new u hu => hu.grows
  · intro σ b u hrows hfollows hs
    exact ⟨hfollows.next hrows.ascending (fun e he => (hrows.drawn e he).1) hs,
      hfollows.progress_le hs⟩

/-- Whenever a wait of the bench ends, the view holds the end of all rows written so far, and after
the last one of all there are; a wait that has not ended can end, unless the projector could not
connect and then hangs if it is for any row. -/
theorem projection_view (args : ReaderArgs) (viewSize : ℕ)
    {σ : PollingBench BenchmarkEvent ViewProjector}
    (h : (projectionRun args viewSize).Reachable σ) :
    (∀ expected, σ.phase.passed = some expected →
      expected = (σ.db.stream args.streamName).length ∧
        σ.reader.view = if viewSize = 0 then args.seqs.take expected
          else (args.seqs.take expected).rtake viewSize) ∧
      (∀ expected, σ.phase = .done expected → expected = args.seqs.length) ∧
      ∀ expected live, σ.phase = .waiting expected live →
        (σ.link ≠ .panicked ∨ expected ≤ σ.reader.progress →
          ∃ σ', (projectionRun args viewSize).Later σ σ' ∧ σ'.db = σ.db ∧
            σ'.phase.passed = some expected) ∧
        (σ.link = .panicked → σ.reader.progress < expected →
          ∀ σ', (projectionRun args viewSize).Later σ σ' →
            σ'.phase = .waiting expected live) := by
  have hfollows := projection_follows h
  refine ⟨?_, ?_, ?_⟩
  · intro expected hpassed
    obtain ⟨hrows, hfollows, hreached⟩ := hfollows.resolve_left fun hfailed => by
      simp [hfailed, PollingPhase.passed] at hpassed
    have hlength : expected = (σ.db.stream args.streamName).length := hrows.passed hpassed
    -- every row has been pushed
    have hall : σ.reader.processed = expected := by
      have hle := hreached expected hpassed
      have hpushed := hfollows.progress
      have hhandled := hfollows.checkpoint.handled
      omega
    refine ⟨hlength, ?_⟩
    have hseqs : (σ.db.stream args.streamName).map (fun e => e.seq.toUInt64)
        = args.seqs.take (σ.db.stream args.streamName).length := reader_seqs args 100 ▸ hrows.seqs
    rw [hfollows.view, hall, hlength, List.take_length, hseqs]
    split_ifs with hsize
    · rw [hsize, Fold.foldl_slide_zero, List.nil_append]
    · exact Fold.foldl_slide_nil hsize _
  · intro expected hdone
    obtain ⟨hrows, -⟩ := hfollows.resolve_left fun hfailed => by simp [hfailed] at hdone
    rw [hrows.done hdone, reader_seqs]
  · intro expected live hwaiting
    obtain ⟨hrows, hfollows, -⟩ := hfollows.resolve_left fun hfailed => by
      simp [hfailed] at hwaiting
    have hexpects := hrows.expects
    rw [hwaiting] at hexpects
    have hpos : ∀ e ∈ σ.db.stream args.streamName, 0 < e.globalPosition :=
      fun e he => (hrows.drawn e he).1
    refine PollingBench.wait_ends_or_hangs (ViewProjector.distance (σ.db.stream args.streamName)) h
      hwaiting hfollows fun u hu hbehind => ?_
    rw [hexpects.1] at hbehind
    obtain ⟨b, u', hs, hlt⟩ := ViewProjector.Follows.closer hu hrows.ascending hpos hbehind
    exact ⟨b, u', hs, hu.next hrows.ascending hpos hs, hlt⟩

end

/-- Two seed events and a live write; other streams draw four values in between. -/
def projectionSteps : List (PollingStep BenchmarkEvent ⊕ ViewProjectorStep) :=
  [.inl (.append ⟨⟨fun i => if i = 0 then "a" else "b", fun i => i + 1⟩, .done, .done⟩),
    .inl .spawn, .inl (.connect true), .inr (.poll true), .inr .process, .inr .send,
    .inr .process, .inr .send, .inl .pass, .inl (.elsewhere [] 4),
    .inl (.append ⟨⟨fun _ => "c", fun _ => 7⟩, .done, .done⟩), .inr (.poll false),
    .inr (.poll true), .inr .process, .inr .send, .inl .pass]

def projectionStart : PollingBench BenchmarkEvent ViewProjector :=
  ⟨⟨fun _ => none, []⟩, 0, .seeding (readerWorkload ⟨"orders", 2, 1⟩ 100).seed, .initial,
    .connecting⟩

/-- The same bench, whose projector cannot connect. -/
def unconnectedSteps : List (PollingStep BenchmarkEvent ⊕ ViewProjectorStep) :=
  projectionSteps.take 2 ++ [.inl (.connect false)]

/-- The rows have the numbers `0`, `1` and `3`, and a view of size two holds the last two. Without a
projector the first wait lasts forever. -/
theorem projection_view_two :
    let bench := projectionRun ⟨"orders", 2, 1⟩ 2
    (bench.after projectionSteps projectionStart).reader.view = [1, 3] ∧
      ∀ σ, bench.Later (bench.after unconnectedSteps projectionStart) σ →
        ∃ live, σ.phase = .waiting 2 live := by
  have hinit : (projectionRun ⟨"orders", 2, 1⟩ 2).init projectionStart := ⟨rfl, _, rfl⟩
  have hreach := System.reachable_after projectionSteps hinit (by decide)
  have hunconnected := System.reachable_after unconnectedSteps hinit (by decide)
  have hview := (projection_view ⟨"orders", 2, 1⟩ 2 hreach).1 3 (by decide)
  have hwaits := ((projection_view ⟨"orders", 2, 1⟩ 2 hunconnected).2.2 2 _ rfl).2
  refine ⟨?_, fun σ hlater => ⟨_, hwaits (by decide) (by decide) σ hlater⟩⟩
  rw [hview.2]
  decide

end EventSourcing.PostgresClient
