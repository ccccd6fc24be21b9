import EventSourcing.PostgresClient.Poll
import EventSourcing.PostgresClient.SeqColumn
import Mathlib

/-!
# The benches that poll a stream of PostgreSQL

`projection_bench` and `search_bench` write to a stream from their main task and follow it by a task
that polls for rows above its checkpoint. The main task seeds the stream, starts the reader and
waits; then it writes one live event at a time and waits after each. It waits for a number: the
progress that the reader has sent on a `watch` channel. The task of the reader connects first, and
panics where it cannot; the main task keeps a sender of the channel and then waits forever.

The table is emptied before a run and nobody else writes to the stream, so its rows ascend in the
order of the inserts and are those of the batches that have been appended (`PollingBench.Rows`).
-/

namespace EventSourcing.PostgresClient

open Bench Concurrency

variable {P T B : Type}

/-- What the main task appends to its stream. -/
structure Workload (P : Type) where
  streamName : String
  seed : List (Batch P)
  live : List (Batch P)
  onStream : ∀ batch ∈ seed ++ live, batch.streamId = streamName
  single : ∀ batch ∈ live, batch.payloads.length = 1

/-- The events of batches. -/
def countEvents (batches : List (Batch P)) : ℕ :=
  (batches.map fun batch => batch.payloads.length).sum

/-- The columns `seq` and `payload` of the rows of a batch. -/
def Batch.columns (batch : Batch P) : List (Int64 × P) :=
  batch.payloads.mapIdx fun i payload => ((batch.baseSeq + .ofNat i).toInt64, payload)

/-- The numbers of the rows of a batch. -/
def Batch.seqs (batch : Batch P) : List UInt64 := batch.columns.map fun c => c.1.toUInt64

/-- The numbers of the rows of a workload, in the order of the inserts. -/
def Workload.seqs (w : Workload P) : List UInt64 := (w.seed ++ w.live).flatMap Batch.seqs

/-! ### The bench -/

inductive PollingPhase (P : Type) where
  /-- the batches of the seed phase that are still to be appended -/
  | seeding (rest : List (Batch P))
  /-- waits for the progress `expected`; `live` is still to be written after that -/
  | waiting (expected : ℕ) (live : List (Batch P))
  /-- about to write the first of `live` -/
  | writing (expected : ℕ) (live : List (Batch P))
  | done (expected : ℕ)
  | failed

/-- The reader has been spawned and not been aborted. -/
def PollingPhase.Reading : PollingPhase P → Prop
  | waiting _ _ => True
  | writing _ _ => True
  | _ => False

instance : (phase : PollingPhase P) → Decidable phase.Reading
  | .waiting _ _ => isTrue trivial
  | .writing _ _ => isTrue trivial
  | .seeding _ => isFalse id
  | .done _ => isFalse id
  | .failed => isFalse id

/-- The connection of the reader's task. -/
inductive Link where
  | connecting
  | connected
  /-- `.expect` of the connection has failed -/
  | panicked
  deriving DecidableEq

/-- A bench with a reader in `T`. -/
structure PollingBench (P T : Type) where
  db : Tables P
  /-- the last value that the identity column has drawn -/
  identity : Int
  phase : PollingPhase P
  reader : T
  link : Link

inductive PollingStep (P : Type) where
  /-- the next append -/
  | append (call : CallResult)
  /-- rows of other streams, and the values drawn for them -/
  | elsewhere (rows : List (BenchEvent P)) (drawn : ℕ)
  /-- the reader is started -/
  | spawn
  /-- the task of the reader connects, or panics -/
  | connect (succeeds : Bool)
  /-- the wait ends -/
  | pass

/-- Values of the identity column: each is above the ones drawn before. -/
def Draws.Ascend (draws : Draws) (n : ℕ) (identity : Int) : Prop :=
  ∀ i < n, identity < draws.globalPosition i ∧
    ∀ j < i, draws.globalPosition j < draws.globalPosition i

instance (draws : Draws) (n : ℕ) (identity : Int) : Decidable (draws.Ascend n identity) :=
  inferInstanceAs (Decidable (∀ i < n, _ ∧ ∀ j < i, _))

/-- The last value after the rows of a batch of `n` events. -/
def Draws.upTo (draws : Draws) (n : ℕ) (identity : Int) : Int :=
  if n = 0 then identity else draws.globalPosition (n - 1)

namespace PollingBench

variable (w : Workload P) (σ : PollingBench P T)

/-- A call of `append_batch_versioned`; an error ends the bench. -/
def append (batch : Batch P) (call : CallResult) (phase : PollingPhase P) :
    Option (PollingBench P T) :=
  let n := batch.payloads.length
  if call.draws.Ascend n σ.identity then
    let identity := call.draws.upTo n σ.identity
    match σ.db.appendBatchVersioned batch call.draws call.counter call.last with
    | (.ok _, db) => some { σ with db := db, identity := identity, phase := phase }
    | (.error _, db) => some { σ with db := db, identity := identity, phase := .failed }
  else none

/-- The main task, the other writers and the connection of the reader; `progress` is what the reader
has sent last. -/
def mainNext (progress : T → ℕ) : PollingStep P → Option (PollingBench P T)
  | .append call =>
    match σ.phase with
    | .seeding (batch :: rest) => σ.append batch call (.seeding rest)
    | .writing expected (batch :: live) => σ.append batch call (.waiting (expected + 1) live)
    | _ => none
  | .elsewhere rows drawn =>
    if ∀ row ∈ rows, row.streamId ≠ w.streamName then
      some { σ with
        db := { σ.db with benchEvents := σ.db.benchEvents ++ rows }
        identity := σ.identity + drawn }
    else none
  | .spawn =>
    match σ.phase with
    | .seeding [] => some { σ with phase := .waiting (countEvents w.seed) w.live }
    | _ => none
  | .connect succeeds =>
    if σ.phase.Reading ∧ σ.link = .connecting then
      some { σ with link := if succeeds then .connected else .panicked }
    else none
  | .pass =>
    match σ.phase with
    | .waiting expected live =>
      if expected ≤ progress σ.reader then
        match live with
        | [] => some { σ with phase := .done expected }
        | batch :: live => some { σ with phase := .writing expected (batch :: live) }
      else none
    | _ => none

end PollingBench

/-- A bench and its reader, interleaved, from a table that has just been emptied; the counters may
have survived from earlier runs. -/
def pollingRun (w : Workload P) (reader : Observer (Tables P) T B) (progress : T → ℕ) :
    System (PollingBench P T) (PollingStep P ⊕ B) where
  init σ := reader.init σ.reader ∧ ∃ streamVersions,
    σ = ⟨⟨streamVersions, []⟩, 0, .seeding w.seed, σ.reader, .connecting⟩
  next σ
    | .inl a => σ.mainNext w progress a
    | .inr b =>
      if σ.phase.Reading ∧ σ.link = .connected then
        (reader.next σ.db σ.reader b).map fun reader => { σ with reader := reader }
      else none

/-! ### The rows of the stream -/

/-- What the last wait was for, once it has ended. -/
def PollingPhase.passed : PollingPhase P → Option ℕ
  | writing expected _ => some expected
  | done expected => some expected
  | _ => none

/-- The batches that are still to be appended. -/
def PollingPhase.left (w : Workload P) : PollingPhase P → List (Batch P)
  | seeding rest => rest ++ w.live
  | waiting _ live => live
  | writing _ live => live
  | _ => []

/-- The reader is to reach all `n` events of the stream, and the live writes go on from there. -/
def PollingPhase.Expects (w : Workload P) (n : ℕ) : PollingPhase P → Prop
  | waiting expected live => expected = n ∧ live <:+ w.live
  | writing expected live => expected = n ∧ live <:+ w.live
  | done expected => expected = n
  | _ => True

namespace PollingBench

variable {w : Workload P} {σ σ' : PollingBench P T} {reader : Observer (Tables P) T B}
  {progress : T → ℕ}

/-- The rows of the stream ascend, and they are those of the batches appended so far. -/
structure Rows (w : Workload P) (σ : PollingBench P T) : Prop where
  ascending : ((σ.db.stream w.streamName).map (·.globalPosition)).Pairwise (· < ·)
  drawn : ∀ e ∈ σ.db.stream w.streamName, 0 < e.globalPosition ∧ e.globalPosition ≤ σ.identity
  identity : 0 ≤ σ.identity
  columns : ∃ written : List (Batch P),
    (σ.db.stream w.streamName).map (fun e => (e.seq, e.payload)) = written.flatMap Batch.columns ∧
      written ++ σ.phase.left w = w.seed ++ w.live
  expects : σ.phase.Expects w (σ.db.stream w.streamName).length

/-- What a step of the main task leaves as it is: the rows of the stream, and what the last wait was
for unless the reader has got there. -/
structure After (w : Workload P) (progress : T → ℕ) (σ σ' : PollingBench P T) : Prop where
  rows : σ'.Rows w
  grows : σ.db.stream w.streamName <+: σ'.db.stream w.streamName
  passed : ∀ expected, σ'.phase.passed = some expected →
    σ.phase.passed = some expected ∨ expected ≤ progress σ.reader

/-- The reader has got where the last wait was for. -/
def Reached (progress : T → ℕ) (σ : PollingBench P T) : Prop :=
  ∀ expected, σ.phase.passed = some expected → expected ≤ progress σ.reader

lemma columns_rows (batch : Batch P) (v : Int) (draws : Draws) :
    (batch.rows v draws).map (fun e => (e.seq, e.payload)) = batch.columns := by
  apply List.ext_getElem <;> simp [Batch.rows, Batch.columns]

lemma positions_rows (batch : Batch P) (v : Int) (draws : Draws) :
    (batch.rows v draws).map (·.globalPosition)
      = (List.range batch.payloads.length).map draws.globalPosition := by
  apply List.ext_getElem <;> simp [Batch.rows]

@[simp] lemma length_columns (batch : Batch P) : batch.columns.length = batch.payloads.length := by
  simp [Batch.columns]

lemma length_flatMap_columns (batches : List (Batch P)) :
    (batches.flatMap Batch.columns).length = countEvents batches := by
  simp [countEvents, List.length_flatMap]

/-- A call that returns `Ok` has stored the rows of its batch. -/
lemma stored_of_ok {db db' : Tables P} {batch : Batch P} {call : CallResult} {k : Int}
    (h : db.appendBatchVersioned batch call.draws call.counter call.last = (.ok k, db')) :
    db'.benchEvents
      = db.benchEvents ++ batch.rows (db.version batch.streamId) call.draws := by
  simp only [Tables.appendBatchVersioned] at h
  split at h
  · rename_i hnil
    obtain ⟨-, rfl⟩ := Prod.mk.inj h
    simp [Batch.rows, hnil]
  · split at h
    · rename_i new hrun
      obtain ⟨-, rfl⟩ := Prod.mk.inj h
      rw [(Tables.insert_eq_some (Outcome.run_eq_true.mp hrun).2).2]
      rfl
    · cases h
  · split at h
    · cases h
    · rename_i advanced hcounter
      obtain rfl := Option.some.inj (Outcome.run_eq_true.mp hcounter).2
      split at h
      · rename_i new hrun
        obtain ⟨-, rfl⟩ := Prod.mk.inj h
        have hinsert := (Outcome.run_eq_true.mp hrun).2
        simp only [Tables.insertBatch] at hinsert
        split_ifs at hinsert
        rw [(Tables.insert_eq_some hinsert).2]
        rfl
      · cases h

/-- What a call does to the stream of its batch. -/
lemma stream_of_ok {db db' : Tables P} {batch : Batch P} {call : CallResult} {k : Int}
    (h : db.appendBatchVersioned batch call.draws call.counter call.last = (.ok k, db')) :
    db'.stream batch.streamId
      = db.stream batch.streamId ++ batch.rows (db.version batch.streamId) call.draws := by
  rw [Tables.stream, stored_of_ok h, List.filter_append, Tables.stream]
  congr 1
  rw [List.filter_eq_self]
  exact fun e he => decide_eq_true (Batch.streamId_of_mem he)

/-- The values that the identity column draws for the rows of a batch. -/
lemma ascend_rows {batch : Batch P} {draws : Draws} {identity v : Int}
    (h : draws.Ascend batch.payloads.length identity) :
    ((batch.rows v draws).map (·.globalPosition)).Pairwise (· < ·) ∧
      (∀ e ∈ batch.rows v draws, identity < e.globalPosition ∧
        e.globalPosition ≤ draws.upTo batch.payloads.length identity) ∧
      identity ≤ draws.upTo batch.payloads.length identity := by
  refine ⟨?_, ?_, ?_⟩
  · rw [positions_rows, List.pairwise_map]
    refine List.pairwise_lt_range.imp_of_mem ?_
    intro i j _ hj hlt
    exact (h j (List.mem_range.mp hj)).2 i hlt
  · intro e he
    obtain ⟨i, hi, rfl⟩ := List.mem_mapIdx.mp he
    refine ⟨(h i hi).1, ?_⟩
    rw [Draws.upTo, if_neg (by omega)]
    rcases Nat.lt_or_ge i (batch.payloads.length - 1) with hlt | hge
    · exact ((h _ (by omega)).2 i hlt).le
    · obtain rfl : i = batch.payloads.length - 1 := by omega
      exact le_refl _
  · rw [Draws.upTo]
    split_ifs with hzero
    · exact le_refl _
    · exact (h _ (by omega)).1.le

/-- The next batch is appended. -/
lemma Rows.append (h : σ.Rows w) {batch : Batch P} {call : CallResult} {phase : PollingPhase P}
    (hstream : batch.streamId = w.streamName) (hnext : σ.phase.left w = batch :: phase.left w)
    (hexpects : ∀ n, σ.phase.Expects w n → phase.Expects w (n + batch.payloads.length))
    (hunpassed : phase.passed = none) (hs : σ.append batch call phase = some σ') :
    σ'.phase = .failed ∨ σ.After w progress σ' := by
  simp only [PollingBench.append] at hs
  split_ifs at hs with hascend
  split at hs
  · rename_i k db hcall
    obtain rfl := Option.some.inj hs
    obtain ⟨hsorted, hdrawn, hle⟩ :=
      ascend_rows (v := σ.db.version w.streamName) hascend
    have hrows := stream_of_ok hcall
    rw [hstream] at hrows
    obtain ⟨written, hcolumns, hsplit⟩ := h.columns
    refine .inr ⟨?_, hrows ▸ List.prefix_append .., fun _ hpassed => ?_⟩
    swap
    · cases hunpassed.symm.trans hpassed
    constructor
    · rw [hrows, List.map_append, List.pairwise_append]
      refine ⟨h.ascending, hsorted, ?_⟩
      intro g hg g' hg'
      obtain ⟨e, he, rfl⟩ := List.mem_map.mp hg
      obtain ⟨e', he', rfl⟩ := List.mem_map.mp hg'
      exact (h.drawn e he).2.trans_lt (hdrawn e' he').1
    · intro e he
      rw [hrows] at he
      rcases List.mem_append.mp he with he | he
      · exact ⟨(h.drawn e he).1, (h.drawn e he).2.trans hle⟩
      · have hnew := hdrawn e he
        exact ⟨h.identity.trans_lt hnew.1, hnew.2⟩
    · exact h.identity.trans hle
    · refine ⟨written ++ [batch], ?_, ?_⟩
      · rw [hrows, List.map_append, hcolumns, columns_rows]
        simp
      · rw [← hsplit, hnext, List.append_assoc]
        rfl
    · rw [hrows, List.length_append]
      have hlength : (batch.rows (σ.db.version w.streamName) call.draws).length
          = batch.payloads.length := by simp [Batch.rows]
      rw [hlength]
      exact hexpects _ h.expects
  · obtain rfl := Option.some.inj hs
    exact .inl rfl

lemma Rows.main (h : σ.Rows w) {a : PollingStep P} (hs : σ.mainNext w progress a = some σ') :
    σ'.phase = .failed ∨ σ.After w progress σ' := by
  obtain ⟨written, hcolumns, hsplit⟩ := h.columns
  cases a with
  | append call =>
    simp only [mainNext] at hs
    split at hs
    · rename_i batch rest hphase
      have hmem : batch ∈ w.seed ++ w.live := by
        rw [← hsplit, hphase]
        simp [PollingPhase.left]
      have hnext : σ.phase.left w = batch :: (PollingPhase.seeding rest).left w := by
        rw [hphase]
        rfl
      exact h.append (w.onStream batch hmem) hnext (fun _ _ => trivial) rfl hs
    · rename_i expected batch live hphase
      have hmem : batch ∈ w.seed ++ w.live := by
        rw [← hsplit, hphase]
        simp [PollingPhase.left]
      have hnext : σ.phase.left w = batch :: (PollingPhase.waiting (expected + 1) live).left w := by
        rw [hphase]
        rfl
      refine h.append (w.onStream batch hmem) hnext ?_ rfl hs
      rw [hphase]
      rintro n ⟨rfl, hsuffix⟩
      rw [w.single batch (hsuffix.mem (List.mem_cons_self ..))]
      exact ⟨rfl, (List.suffix_cons ..).trans hsuffix⟩
    · cases hs
  | elsewhere rows drawn =>
    simp only [mainNext] at hs
    split_ifs at hs with hrows
    obtain rfl := Option.some.inj hs
    have hnil : rows.filter (fun e => e.streamId = w.streamName) = [] :=
      List.filter_eq_nil_iff.mpr fun row hrow => by simp [hrows row hrow]
    have hsame : Tables.stream { σ.db with benchEvents := σ.db.benchEvents ++ rows } w.streamName
        = σ.db.stream w.streamName := by
      rw [Tables.stream, List.filter_append, hnil, List.append_nil, Tables.stream]
    refine .inr ⟨?_, hsame ▸ List.prefix_rfl, fun _ => .inl⟩
    constructor
    · rw [hsame]
      exact h.ascending
    · intro e he
      rw [hsame] at he
      obtain ⟨hpos, hle⟩ := h.drawn e he
      exact ⟨hpos, hle.trans (Int.le_add_of_nonneg_right (Int.natCast_nonneg _))⟩
    · exact Int.add_nonneg h.identity (Int.natCast_nonneg _)
    · rw [hsame]
      exact h.columns
    · rw [hsame]
      exact h.expects
  | spawn =>
    simp only [mainNext] at hs
    split at hs
    · rename_i hphase
      obtain rfl := Option.some.inj hs
      rw [hphase] at hsplit
      refine .inr ⟨⟨h.ascending, h.drawn, h.identity, ⟨written, hcolumns, hsplit⟩, ?_,
        List.suffix_rfl⟩, List.prefix_rfl, by simp [PollingPhase.passed]⟩
      have hseeded : written = w.seed := List.append_cancel_right hsplit
      rw [← hseeded, ← length_flatMap_columns, ← hcolumns, List.length_map]
    · cases hs
  | connect succeeds =>
    simp only [mainNext] at hs
    split at hs
    · obtain rfl := Option.some.inj hs
      exact .inr ⟨⟨h.ascending, h.drawn, h.identity, h.columns, h.expects⟩, List.prefix_rfl,
        fun _ => .inl⟩
    · cases hs
  | pass =>
    simp only [mainNext] at hs
    split at hs
    · rename_i expected live hphase
      have hexpects := h.expects
      rw [hphase] at hexpects hsplit
      split_ifs at hs with hreached
      split at hs
      · obtain rfl := Option.some.inj hs
        refine .inr ⟨⟨h.ascending, h.drawn, h.identity, ⟨written, hcolumns, hsplit⟩, hexpects.1⟩,
          List.prefix_rfl, ?_⟩
        rintro _ ⟨⟩
        exact .inr hreached
      · obtain rfl := Option.some.inj hs
        refine .inr ⟨⟨h.ascending, h.drawn, h.identity, ⟨written, hcolumns, hsplit⟩, hexpects⟩,
          List.prefix_rfl, ?_⟩
        rintro _ ⟨⟩
        exact .inr hreached
    · cases hs

/-! ### What a reader has been given -/

/-- The main task never changes the reader. -/
lemma reader_main {a : PollingStep P}
    (hs : σ.mainNext w progress a = some σ') : σ'.reader = σ.reader := by
  cases a with
  | append call =>
    simp only [mainNext, append] at hs
    split at hs
    · split_ifs at hs
      split at hs <;> obtain rfl := Option.some.inj hs <;> rfl
    · split_ifs at hs
      split at hs <;> obtain rfl := Option.some.inj hs <;> rfl
    · cases hs
  | elsewhere rows drawn =>
    simp only [mainNext] at hs
    split_ifs at hs
    obtain rfl := Option.some.inj hs
    rfl
  | spawn =>
    simp only [mainNext] at hs
    split at hs
    · obtain rfl := Option.some.inj hs
      rfl
    · cases hs
  | connect succeeds =>
    simp only [mainNext] at hs
    split at hs
    · obtain rfl := Option.some.inj hs
      rfl
    · cases hs
  | pass =>
    simp only [mainNext] at hs
    split at hs
    · split_ifs at hs
      split at hs <;> obtain rfl := Option.some.inj hs <;> rfl
    · cases hs

/-- A failed bench stays failed. -/
lemma failed_main {a : PollingStep P} (hphase : σ.phase = .failed)
    (hs : σ.mainNext w progress a = some σ') : σ'.phase = .failed := by
  cases a with
  | append call => simp [mainNext, hphase] at hs
  | elsewhere rows drawn =>
    simp only [mainNext] at hs
    split_ifs at hs
    obtain rfl := Option.some.inj hs
    exact hphase
  | spawn => simp [mainNext, hphase] at hs
  | connect succeeds => simp [mainNext, hphase, PollingPhase.Reading] at hs
  | pass => simp [mainNext, hphase] at hs

lemma rows_init (h : (pollingRun w reader progress).init σ) : σ.Rows w := by
  obtain ⟨-, streamVersions, hσ⟩ := h
  rw [hσ]
  exact ⟨.nil, by simp [Tables.stream], le_refl 0, ⟨[], rfl, rfl⟩, trivial⟩

/-- A reader is followed along the rows of the stream: what holds of both is kept when rows are
added and when the reader takes a step. What the reader sends never goes down. -/
theorem follows_of_reachable {F : List (BenchEvent P) → T → Prop}
    (hinit : ∀ t, reader.init t → F [] t)
    (hgrows : ∀ rows new t, F rows t → F (rows ++ new) t)
    (hreader : ∀ (σ : PollingBench P T) b t, σ.Rows w → F (σ.db.stream w.streamName) σ.reader →
      reader.next σ.db σ.reader b = some t →
      F (σ.db.stream w.streamName) t ∧ progress σ.reader ≤ progress t)
    (h : (pollingRun w reader progress).Reachable σ) :
    σ.phase = .failed ∨
      σ.Rows w ∧ F (σ.db.stream w.streamName) σ.reader ∧ σ.Reached progress := by
  induction h with
  | init h =>
    refine .inr ⟨rows_init h, ?_⟩
    obtain ⟨hreader, streamVersions, hσ⟩ := h
    rw [hσ]
    exact ⟨hinit _ hreader, by simp [Reached, PollingPhase.passed]⟩
  | @step σ σ' a _ _ hs ih =>
    cases a with
    | inl a =>
      rcases ih with hfailed | ⟨hrows, hfollows, hreached⟩
      · exact .inl (failed_main hfailed hs)
      · refine (hrows.main hs).imp_right fun hafter => ⟨hafter.rows, ?_, fun expected hpassed => ?_⟩
        · obtain ⟨new, hnew⟩ := hafter.grows
          rw [reader_main hs, ← hnew]
          exact hgrows _ _ _ hfollows
        · rw [reader_main hs]
          exact (hafter.passed expected hpassed).elim (hreached expected) id
    | inr b =>
      simp only [pollingRun] at hs
      split_ifs at hs with hreading
      obtain ⟨t, ht, rfl⟩ := Option.map_eq_some_iff.mp hs
      rcases ih with hfailed | ⟨hrows, hfollows, hreached⟩
      · exact .inl hfailed
      · obtain ⟨hfollows', hle⟩ := hreader σ b t hrows hfollows ht
        exact .inr ⟨⟨hrows.ascending, hrows.drawn, hrows.identity, hrows.columns, hrows.expects⟩,
          hfollows', fun expected hpassed => (hreached expected hpassed).trans hle⟩

/-- A wait that has ended was for all rows of the stream. -/
lemma Rows.passed (h : σ.Rows w) {expected : ℕ} (hpassed : σ.phase.passed = some expected) :
    expected = (σ.db.stream w.streamName).length := by
  have hexpects := h.expects
  cases hphase : σ.phase with
  | writing n live =>
    rw [hphase] at hpassed hexpects
    exact (Option.some.inj hpassed).symm.trans hexpects.1
  | done n =>
    rw [hphase] at hpassed hexpects
    exact (Option.some.inj hpassed).symm.trans hexpects
  | _ => simp [hphase, PollingPhase.passed] at hpassed

/-- The numbers of the rows are the first of those that the workload has. -/
lemma Rows.seqs (h : σ.Rows w) : (σ.db.stream w.streamName).map (fun e => e.seq.toUInt64)
    = w.seqs.take (σ.db.stream w.streamName).length := by
  obtain ⟨written, hcolumns, hsplit⟩ := h.columns
  have hwritten : (σ.db.stream w.streamName).map (fun e => e.seq.toUInt64)
      = written.flatMap Batch.seqs := by
    have hnumbers := congrArg (List.map fun c : Int64 × P => c.1.toUInt64) hcolumns
    rw [List.map_map, List.map_flatMap] at hnumbers
    exact hnumbers
  have hfront : (σ.db.stream w.streamName).map (fun e => e.seq.toUInt64) <+: w.seqs := by
    refine ⟨(σ.phase.left w).flatMap Batch.seqs, ?_⟩
    rw [hwritten, ← List.flatMap_append, hsplit]
    rfl
  rw [List.prefix_iff_eq_take] at hfront
  rw [hfront, List.length_map]

/-- After the last wait the workload has been written. -/
lemma Rows.done (h : σ.Rows w) {expected : ℕ} (hdone : σ.phase = .done expected) :
    expected = w.seqs.length := by
  have hlength : expected = (σ.db.stream w.streamName).length := h.passed (by rw [hdone]; rfl)
  obtain ⟨written, hcolumns, hsplit⟩ := h.columns
  have hwritten : written = w.seed ++ w.live := by
    rw [hdone] at hsplit
    exact (List.append_nil _).symm.trans hsplit
  have hcount := congrArg List.length hcolumns
  rw [List.length_map, hwritten] at hcount
  rw [hlength, hcount]
  simp [List.length_flatMap, Workload.seqs, Batch.seqs]

/-- A wait for what the reader has sent can end. -/
lemma pass_of_reached {expected : ℕ} {live : List (Batch P)}
    (hphase : σ.phase = .waiting expected live) (hreached : expected ≤ progress σ.reader) :
    ∃ σ', (pollingRun w reader progress).Later σ σ' ∧ σ'.db = σ.db ∧
      σ'.phase.passed = some expected := by
  have hpass : ∃ σ', (pollingRun w reader progress).next σ (.inl .pass) = some σ' ∧
      σ'.db = σ.db ∧ σ'.phase.passed = some expected := by
    cases live with
    | nil =>
      refine ⟨{ σ with phase := .done expected }, ?_, rfl, rfl⟩
      simp only [pollingRun, mainNext, hphase, if_pos hreached]
    | cons batch live =>
      refine ⟨{ σ with phase := .writing expected (batch :: live) }, ?_, rfl, rfl⟩
      simp only [pollingRun, mainNext, hphase, if_pos hreached]
  obtain ⟨σ', hs, hdb, hpassed⟩ := hpass
  exact ⟨σ', .single ⟨_, hs⟩, hdb, hpassed⟩

/-- While the main task waits and nobody writes, a connected reader that can always get closer to
the rows it has not handled brings the wait to its end. -/
theorem wait_ends {F : T → Prop} (distance : T → ℕ) {expected : ℕ} {live : List (Batch P)}
    (hphase : σ.phase = .waiting expected live) (hlink : σ.link = .connected) (hF : F σ.reader)
    (hcloser : ∀ t, F t → progress t < expected →
      ∃ b t', reader.next σ.db t b = some t' ∧ F t' ∧ distance t' < distance t) :
    ∃ σ', (pollingRun w reader progress).Later σ σ' ∧ σ'.db = σ.db ∧
      σ'.phase.passed = some expected := by
  induction hd : distance σ.reader using Nat.strong_induction_on generalizing σ with
  | _ d ih =>
    by_cases hreached : expected ≤ progress σ.reader
    · exact pass_of_reached hphase hreached
    · obtain ⟨b, t, ht, hFt, hlt⟩ := hcloser σ.reader hF (Nat.lt_of_not_le hreached)
      have hs : (pollingRun w reader progress).next σ (.inr b)
          = some { σ with reader := t } := by
        have hreading : σ.phase.Reading ∧ σ.link = .connected := ⟨by rw [hphase]; trivial, hlink⟩
        simp only [pollingRun, if_pos hreading, ht, Option.map_some]
      obtain ⟨σ', hlater, hdb, hpassed⟩ :=
        ih (distance t) (hd ▸ hlt) (σ := { σ with reader := t }) hphase hlink hFt hcloser rfl
      exact ⟨σ', .head ⟨_, hs⟩ hlater, hdb, hpassed⟩

/-- The wait for a reader that has panicked never ends, unless the reader has got there. -/
lemma waits_forever {expected : ℕ} {live : List (Batch P)} (hσ : (pollingRun w reader
      progress).Reachable σ) (hphase : σ.phase = .waiting expected live)
    (hlink : σ.link = .panicked) (hbehind : progress σ.reader < expected)
    (hlater : (pollingRun w reader progress).Later σ σ') : σ'.phase = .waiting expected live := by
  have hstuck := System.Later.invariant (P := fun τ : PollingBench P T =>
    τ.phase = .waiting expected live ∧ τ.link = .panicked ∧ τ.reader = σ.reader) hσ
    ⟨hphase, hlink, rfl⟩ ?_ hlater
  · exact hstuck.1
  rintro τ a τ' - ⟨hphase, hlink, hreader⟩ hs
  cases a with
  | inl a =>
    cases a with
    | append call => simp [pollingRun, mainNext, hphase] at hs
    | elsewhere rows drawn =>
      simp only [pollingRun, mainNext] at hs
      split_ifs at hs
      obtain rfl := Option.some.inj hs
      exact ⟨hphase, hlink, hreader⟩
    | spawn => simp [pollingRun, mainNext, hphase] at hs
    | connect succeeds => simp [pollingRun, mainNext, hlink] at hs
    | pass =>
      rw [← hreader] at hbehind
      simp [pollingRun, mainNext, hphase, Nat.not_le.mpr hbehind] at hs
  | inr b => simp [pollingRun, hlink] at hs

/-- A wait can end unless the reader has panicked before it has got there; then it never does. -/
theorem wait_ends_or_hangs {F : T → Prop} (distance : T → ℕ) {expected : ℕ}
    {live : List (Batch P)} (hσ : (pollingRun w reader progress).Reachable σ)
    (hphase : σ.phase = .waiting expected live) (hF : F σ.reader)
    (hcloser : ∀ t, F t → progress t < expected →
      ∃ b t', reader.next σ.db t b = some t' ∧ F t' ∧ distance t' < distance t) :
    (σ.link ≠ .panicked ∨ expected ≤ progress σ.reader →
      ∃ σ', (pollingRun w reader progress).Later σ σ' ∧ σ'.db = σ.db ∧
        σ'.phase.passed = some expected) ∧
    (σ.link = .panicked → progress σ.reader < expected →
      ∀ σ', (pollingRun w reader progress).Later σ σ' → σ'.phase = .waiting expected live) := by
  refine ⟨fun hends => ?_, fun hlink hbehind σ' => waits_forever hσ hphase hlink hbehind⟩
  rcases hends with hlink | hreached
  · cases hconnection : σ.link with
    | connecting =>
      have hs : (pollingRun w reader progress).next σ (.inl (.connect true))
          = some { σ with link := .connected } := by
        have hreading : σ.phase.Reading ∧ σ.link = .connecting :=
          ⟨by rw [hphase]; trivial, hconnection⟩
        simp only [pollingRun, mainNext, if_pos hreading, if_true]
      obtain ⟨σ', hlater, hdb, hpassed⟩ :=
        wait_ends (w := w) (σ := { σ with link := .connected }) distance hphase rfl hF hcloser
      exact ⟨σ', .head ⟨_, hs⟩ hlater, hdb, hpassed⟩
    | connected => exact wait_ends distance hphase hconnection hF hcloser
    | panicked => exact absurd hconnection hlink
  · exact pass_of_reached hphase hreached

end PollingBench

/-! ### Checkpoints -/

/-- The checkpoint of a reader that has handled the first `n` rows. -/
structure CheckpointAt (rows : List (BenchEvent P)) (n : ℕ) (checkpoint : Int) : Prop where
  handled : n ≤ rows.length
  checkpoint : checkpoint = ((rows.take n).getLast?.map (·.globalPosition)).getD 0

variable {rows new : List (BenchEvent P)} {n : ℕ} {checkpoint : Int}

lemma CheckpointAt.start : CheckpointAt rows 0 0 := ⟨Nat.zero_le _, rfl⟩

lemma CheckpointAt.grows (h : CheckpointAt rows n checkpoint) :
    CheckpointAt (rows ++ new) n checkpoint := by
  refine ⟨h.handled.trans (by simp), ?_⟩
  rw [List.take_append_of_le_length h.handled]
  exact h.checkpoint

/-- A reader that has handled the next rows as well stands at the last of them. -/
lemma CheckpointAt.advance (h : CheckpointAt rows n checkpoint) {batch : List (BenchEvent P)}
    (hbatch : batch <+: rows.drop n) : CheckpointAt rows (n + batch.length)
      ((batch.getLast?.map (·.globalPosition)).getD checkpoint) := by
  have htake : rows.take (n + batch.length) = rows.take n ++ batch := by
    rw [List.take_add, ← List.prefix_iff_eq_take.mp hbatch]
  have hle := hbatch.length_le
  rw [List.length_drop] at hle
  have hhandled := h.handled
  refine ⟨by omega, ?_⟩
  rw [htake, List.getLast?_append, h.checkpoint]
  cases batch.getLast? <;> rfl

/-- Above the checkpoint are the rows that have not been handled, in their order. -/
lemma CheckpointAt.remaining (h : CheckpointAt rows n checkpoint)
    (hascending : (rows.map (·.globalPosition)).Pairwise (· < ·))
    (hpos : ∀ e ∈ rows, 0 < e.globalPosition) :
    (rows.filter fun e => checkpoint < e.globalPosition).insertionSort
      (fun e e' => e.globalPosition ≤ e'.globalPosition) = rows.drop n := by
  rw [List.pairwise_map] at hascending
  have hdrop : (rows.drop n).Pairwise fun e e' => e.globalPosition < e'.globalPosition :=
    hascending.sublist (List.drop_sublist ..)
  suffices hfilter : (rows.filter fun e => checkpoint < e.globalPosition) = rows.drop n by
    rw [hfilter]
    exact (hdrop.imp le_of_lt).insertionSort_eq
  have hbound : (∀ e ∈ rows.take n, e.globalPosition ≤ checkpoint) ∧
      ∀ e ∈ rows.drop n, checkpoint < e.globalPosition := by
    rcases List.eq_nil_or_concat (rows.take n) with hnil | ⟨front, last, hlast⟩
    · refine ⟨by simp [hnil], fun e he => ?_⟩
      rw [h.checkpoint, hnil]
      exact hpos e (List.mem_of_mem_drop he)
    · rw [List.concat_eq_append] at hlast
      have hcheckpoint : checkpoint = last.globalPosition := by
        rw [h.checkpoint, hlast, List.getLast?_concat]
        rfl
      rw [← List.take_append_drop n rows, hlast, List.pairwise_append, List.pairwise_append]
        at hascending
      obtain ⟨⟨-, -, hfront⟩, -, hafter⟩ := hascending
      rw [hcheckpoint, hlast]
      refine ⟨fun e he => ?_, fun e he => hafter last (by simp) e he⟩
      rcases List.mem_append.mp he with he | he
      · exact (hfront e he last (by simp)).le
      · exact (congrArg _ (List.mem_singleton.mp he)).le
  have hlow : (rows.take n).filter (fun e => checkpoint < e.globalPosition) = [] :=
    List.filter_eq_nil_iff.mpr fun e he => by simpa using hbound.1 e he
  have hhigh : (rows.drop n).filter (fun e => checkpoint < e.globalPosition) = rows.drop n :=
    List.filter_eq_self.mpr fun e he => by simpa using hbound.2 e he
  conv_lhs => rw [← List.take_append_drop n rows]
  rw [List.filter_append, hlow, hhigh, List.nil_append]

/-! ### What the benches write -/

/-- The seed phase in batches of `batchSize` and its remainder, and the counter after it. -/
def ReaderArgs.seed (args : ReaderArgs) (batchSize : UInt64) :
    List (Batch BenchmarkEvent) × UInt64 :=
  let full := repeatAppend (seedBatch args.streamName batchSize.toNat) 0
    (args.seedEvents / batchSize).toNat
  let remainder := args.seedEvents % batchSize
  let rest := repeatAppend (seedBatch args.streamName remainder.toNat) full.2
    (if 0 < remainder then 1 else 0)
  (full.1 ++ rest.1, rest.2)

/-- The live writes. -/
def ReaderArgs.live (args : ReaderArgs) (batchSize : UInt64) : List (Batch BenchmarkEvent) :=
  (repeatAppend (liveBatch args.streamName) (args.seed batchSize).2 args.liveEvents.toNat).1

/-- The numbers of the rows, in the order of the inserts. -/
def ReaderArgs.seqs (args : ReaderArgs) : List UInt64 :=
  ((List.range args.seedEvents.toNat).map fun i => .ofNat i) ++
    (List.range args.liveEvents.toNat).map fun i => args.seedEvents + 1 + .ofNat i

variable (args : ReaderArgs) (batchSize : UInt64)

lemma mem_repeatAppend {append : UInt64 → Batch BenchmarkEvent × UInt64} {globalSeq : UInt64}
    {n : ℕ} {batch : Batch BenchmarkEvent} (h : batch ∈ (repeatAppend append globalSeq n).1) :
    ∃ globalSeq, batch = (append globalSeq).1 := by
  induction n generalizing globalSeq with
  | zero => cases h
  | succ n ih =>
    rcases List.mem_cons.mp h with rfl | h
    · exact ⟨globalSeq, rfl⟩
    · exact ih h

/-- The appends of the bench. -/
def readerWorkload : Workload BenchmarkEvent where
  streamName := args.streamName
  seed := (args.seed batchSize).1
  live := args.live batchSize
  onStream := by
    intro batch hbatch
    rcases List.mem_append.mp hbatch with hbatch | hbatch
    · rcases List.mem_append.mp hbatch with hbatch | hbatch
      · obtain ⟨globalSeq, rfl⟩ := mem_repeatAppend hbatch
        rfl
      · obtain ⟨globalSeq, rfl⟩ := mem_repeatAppend hbatch
        rfl
    · obtain ⟨globalSeq, rfl⟩ := mem_repeatAppend hbatch
      rfl
  single := by
    intro batch hbatch
    obtain ⟨globalSeq, rfl⟩ := mem_repeatAppend hbatch
    rfl

/-- They are those of the runner. -/
lemma readerWorkload_appends : (readerWorkload args batchSize).seed
    ++ (readerWorkload args batchSize).live = args.appends batchSize := rfl

lemma seqs_eq (batch : Batch P) :
    batch.seqs = (List.range batch.payloads.length).map fun i => batch.baseSeq + .ofNat i := by
  apply List.ext_getElem <;> simp [Batch.seqs, Batch.columns]

lemma range_add_map (g : UInt64) (n m : ℕ) :
    (List.range (n + m)).map (fun i => g + .ofNat i)
      = (List.range n).map (fun i => g + .ofNat i)
        ++ (List.range m).map fun i => g + .ofNat n + .ofNat i := by
  rw [List.range_add, List.map_append, List.map_map]
  congr 1
  refine List.map_congr_left fun i _ => ?_
  rw [Function.comp_apply, UInt64.ofNat_add, UInt64.add_assoc]

lemma repeat_seedBatch (streamName : String) (n k : ℕ) (g : UInt64) :
    (repeatAppend (seedBatch streamName n) g k).1.flatMap Batch.seqs
        = (List.range (k * n)).map (fun i => g + .ofNat i) ∧
      (repeatAppend (seedBatch streamName n) g k).2 = g + .ofNat (k * n) := by
  induction k generalizing g with
  | zero => simp [repeatAppend]
  | succ k ih =>
    obtain ⟨hseqs, hlast⟩ := ih (g + .ofNat n)
    have hfirst : (seedBatch streamName n g).2 = g + .ofNat n := nextEvents_last g n
    have hcount : (k + 1) * n = n + k * n := by rw [Nat.succ_mul, Nat.add_comm]
    constructor
    · simp only [repeatAppend, List.flatMap_cons, hfirst, hseqs]
      rw [hcount, range_add_map, seqs_eq, length_seedBatch, baseSeq_seedBatch]
    · simp only [repeatAppend, hfirst, hlast]
      rw [hcount, UInt64.ofNat_add, UInt64.add_assoc]

lemma repeat_liveBatch (streamName : String) (k : ℕ) (g : UInt64) :
    (repeatAppend (liveBatch streamName) g k).1.flatMap Batch.seqs
      = (List.range k).map fun i => g + 1 + .ofNat i := by
  induction k generalizing g with
  | zero => rfl
  | succ k ih =>
    have hfirst : (liveBatch streamName g).1.seqs = [g + 1] := by simp [seqs_eq, liveBatch, batchOf]
    have hnext : (liveBatch streamName g).2 = g + 1 := rfl
    simp only [repeatAppend, List.flatMap_cons, hfirst, hnext, ih]
    rw [Nat.add_comm k 1, range_add_map]
    simp

lemma seed_seqs :
    (args.seed batchSize).1.flatMap Batch.seqs
        = ((List.range args.seedEvents.toNat).map fun i => .ofNat i) ∧
      (args.seed batchSize).2 = args.seedEvents := by
  obtain ⟨hfull, hlast⟩ := repeat_seedBatch args.streamName batchSize.toNat
    (args.seedEvents / batchSize).toNat 0
  have hremainder : (if 0 < args.seedEvents % batchSize then 1 else 0)
      * (args.seedEvents % batchSize).toNat = (args.seedEvents % batchSize).toNat := by
    split_ifs with hpos
    · exact Nat.one_mul _
    · rw [UInt64.not_lt, UInt64.le_zero_iff] at hpos
      simp [hpos]
  obtain ⟨hrest, hend⟩ := repeat_seedBatch args.streamName (args.seedEvents % batchSize).toNat
    (if 0 < args.seedEvents % batchSize then 1 else 0)
    (0 + .ofNat ((args.seedEvents / batchSize).toNat * batchSize.toNat))
  have hcount : (args.seedEvents / batchSize).toNat * batchSize.toNat
      + (args.seedEvents % batchSize).toNat = args.seedEvents.toNat := by
    rw [UInt64.toNat_div, UInt64.toNat_mod]
    exact Nat.div_add_mod' _ _
  rw [hremainder] at hrest hend
  constructor
  · rw [ReaderArgs.seed, List.flatMap_append, hfull, hlast, hrest, ← range_add_map, hcount]
    simp
  · rw [ReaderArgs.seed, hlast, hend, UInt64.add_assoc, ← UInt64.ofNat_add, hcount]
    simp

lemma reader_seqs : (readerWorkload args batchSize).seqs = args.seqs := by
  rw [Workload.seqs, readerWorkload_appends]
  change ((args.seed batchSize).1 ++ args.live batchSize).flatMap Batch.seqs = args.seqs
  rw [List.flatMap_append, (seed_seqs args batchSize).1, ReaderArgs.live,
    (seed_seqs args batchSize).2, repeat_liveBatch]
  rfl

end EventSourcing.PostgresClient
