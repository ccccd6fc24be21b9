import EventSourcing.Bench.ConflictErrors
import EventSourcing.Bench.HotStores
import EventSourcing.Concurrency.Ledger
import EventSourcing.PostgresClient.Versions

/-!
# The contention bench on PostgreSQL

`hot_stream_contention_bench::run` writes a baseline of single events by `append_batch_versioned`
to all its streams, and then the events of the contention phase: under an explicit version to a hot
stream, by the counter to a cold one. The counters are not told of explicit versions, but a version
is stored at most once; so with counters that start at `0` every stream has the versions `0, 1, …`
at all times, whatever the tasks do to each other, and the table has an event for every one that
was counted (`hot_streams_consecutive`). The counters of an earlier run with the same prefix are
still there, and then a stream can end with a hole (`second_run_leaves_hole`).
-/

namespace EventSourcing.PostgresClient.HotStreams

open Bench Bench.Contention Bench.ConflictErrors Concurrency Text
open scoped List

variable {P : Type}

/-- What the data do not decide of a statement. -/
structure Call (P : Type) where
  payload : P
  seqNow : UInt64
  draws : Draws
  outcome : Outcome
  /-- the texts of the driver's error, if there is one, and of its causes -/
  chain : List String

section Code

variable (lowercase : Lowercase) (streamPrefix : String) (config : Config) (db : Tables P)

/-- `config.hot_streams.max(1)` -/
def hotStreams : UInt64 := max config.hotStreams 1

/-- `hot_streams + cold_streams` -/
def streamCount : UInt64 := hotStreams config + max config.coldStreams 1

/-- A batch of one event. -/
def single (streamId : String) (taskId : UInt64) (c : Call P) : Batch P where
  streamId := streamId
  eventType := "BenchmarkEvent"
  payloads := [c.payload]
  baseSeq := c.seqNow
  taskId := taskId

/-- `read_last_stream_version` -/
def readLastStreamVersion (streamId : String) : Option Int := (db.versions streamId).max?

/-- How an attempt of a hot write ends; the expected revision is sent `as i64`. -/
def appendHot (hotIdx : ℕ) (expected : UInt64) (c : Call P) : Tables P × Attempt × UInt64 :=
  match db.appendWithStreamVersion (streamName streamPrefix (.ofNat hotIdx)) "BenchmarkEvent"
    c.payload expected.toInt64.toInt c.seqNow (.ofNat hotIdx) c.draws c.outcome with
  | (.ok (), db) => (db, .success, 0)
  | (.error message, db) =>
    (db, if isConflict lowercase postgresPhrases (message :: c.chain) then .conflict
      else .otherError, 0)

def appendCold (coldIdx : ℕ) (c : Call P) : Tables P × Bool :=
  let name := streamName streamPrefix (hotStreams config + .ofNat coldIdx)
  match db.appendBatchVersioned (single name (.ofNat coldIdx) c) c.draws .done c.outcome with
  | (.ok _, db) => (db, true)
  | (.error _, db) => (db, false)

/-- The tables as the tasks meet them. -/
def store : HotStore (Tables P) (Call P) where
  append db hotIdx expected c := appendHot lowercase streamPrefix db hotIdx expected c
  reread db hotIdx c :=
    match c.outcome with
    | .done =>
      some ((readLastStreamVersion db (streamName streamPrefix (.ofNat hotIdx))).map UInt64.ofInt)
    | _ => none
  appendCold db coldIdx c := appendCold streamPrefix config db coldIdx c
  size db := db.benchEvents.length

/-- `all_streams` -/
def allStreams : List String :=
  (List.range (streamCount config).toNat).map fun i => streamName streamPrefix (.ofNat i)

/-- The tables at the start of the baseline; those of earlier runs may be there. -/
def prepared : Tables P :=
  (db.ensureBenchTableEventStore.truncateBenchTable).initStreamVersions
    (allStreams streamPrefix config)

end Code

/-! ### The baseline -/

structure Baseline (P : Type) where
  db : Tables P
  totalEvents : ℕ
  /-- history: how many events were stored by writes that did not return `Ok` -/
  lost : ℕ

/-- The write of a task of the baseline. -/
def Baseline.next (streamPrefix : String) (config : Config) (σ : Baseline P) (c : Call P) :
    Option (Baseline P) :=
  -- the remainder by zero panics
  if streamCount config = 0 then none
  else
    let streamIdx := c.seqNow % streamCount config
    let name := streamName streamPrefix streamIdx
    match σ.db.appendBatchVersioned (single name streamIdx c) c.draws .done c.outcome with
    | (.ok _, db) => some { σ with db := db, totalEvents := σ.totalEvents + 1 }
    | (.error _, db) =>
      some { σ with
        db := db
        lost := σ.lost + (db.benchEvents.length - σ.db.benchEvents.length) }

/-- The writes of the baseline in the order in which the database runs them; the counters of the
streams start at `0`. -/
def baseline (P : Type) (streamPrefix : String) (config : Config) :
    System (Baseline P) (Call P) where
  init σ := ∃ db : Tables P, (∀ i, db.version (streamName streamPrefix i) = 0) ∧
    σ = ⟨prepared streamPrefix config db, 0, 0⟩
  next := Baseline.next streamPrefix config

/-! ### A stream without holes -/

/-- The versions of a stream are `0, 1, …`, and its counter is not ahead of them. -/
structure Consecutive (db : Tables P) (s : String) : Prop where
  versions : db.versions s ~ numbers 0 (db.versions s).length
  counter : 0 ≤ db.version s ∧ db.version s ≤ (db.versions s).length

section Consecutive

variable {db db' : Tables P} {s : String} {row : BenchEvent P} {batch : Batch P} {c : Call P}

/-- A row that the stream takes is the next one. -/
lemma Consecutive.eq_length (h : Consecutive db row.streamId) (hpos : 0 ≤ row.streamVersion)
    (hle : row.streamVersion ≤ (db.versions row.streamId).length)
    (hfree : ¬ db.HasVersion [row]) :
    row.streamVersion = (db.versions row.streamId).length := by
  by_contra hne
  have hmem : row.streamVersion ∈ db.versions row.streamId :=
    h.versions.symm.subset (mem_numbers.mpr ⟨hpos, by omega⟩)
  obtain ⟨e, he, hversion⟩ := List.mem_map.mp hmem
  obtain ⟨he, hstream⟩ := List.mem_filter.mp he
  exact hfree ⟨row, List.mem_singleton_self _, e, he, of_decide_eq_true hstream, hversion⟩

/-- The next row of a stream; a counter that has counted it is not ahead. -/
lemma Consecutive.concat (h : Consecutive db s) (streamVersions : String → Option Int)
    (hrow : row.streamId = s → row.streamVersion = (db.versions s).length)
    (hcounter : 0 ≤ (streamVersions s).getD 0 ∧
      (streamVersions s).getD 0 ≤ (db.versions s).length + if row.streamId = s then 1 else 0) :
    Consecutive ⟨streamVersions, db.benchEvents ++ [row]⟩ s := by
  have hrows : ∀ e ∈ [row], e.streamId = row.streamId := by simp
  have hversions : Tables.versions ⟨streamVersions, db.benchEvents ++ [row]⟩ s = _ :=
    Tables.versions_append [row] hrows streamVersions s
  by_cases hs : row.streamId = s
  · rw [if_pos hs.symm, List.map_singleton, hrow hs] at hversions
    constructor
    · rw [hversions, List.length_append, List.length_singleton, numbers_succ, Int.zero_add]
      exact h.versions.append_right _
    · rw [hversions, List.length_append, List.length_singleton]
      rw [if_pos hs] at hcounter
      exact ⟨hcounter.1, by push_cast; exact hcounter.2⟩
  · rw [if_neg (Ne.symm hs), List.append_nil] at hversions
    constructor
    · rw [hversions]
      exact h.versions
    · rw [hversions]
      rw [if_neg hs, Int.add_zero] at hcounter
      exact hcounter

/-- The end of a stream does not move back, and that of the stream of a new row moves on. -/
lemma length_versions_concat (streamVersions : String → Option Int) :
    (Tables.versions ⟨streamVersions, db.benchEvents ++ [row]⟩ s).length
      = (db.versions s).length + if row.streamId = s then 1 else 0 := by
  have hrows : ∀ e ∈ [row], e.streamId = row.streamId := by simp
  rw [Tables.versions_append [row] hrows]
  by_cases hs : row.streamId = s
  · simp [hs]
  · simp [hs, Ne.symm hs]

end Consecutive

/-! ### What a statement does -/

section Statements

variable {lowercase : Lowercase} {streamPrefix : String} {config : Config} {db db' : Tables P}
  {s : String} {c : Call P} {expected answer : UInt64} {hotIdx coldIdx : ℕ} {outcome : Attempt}
  {taskId : UInt64}

/-- An attempt of a hot write stores nothing and fails, or it stores a row of the version that the
task expects. -/
lemma appendHot_spec
    (h : appendHot lowercase streamPrefix db hotIdx expected c = (db', outcome, answer)) :
    (db' = db ∧ outcome ≠ .success) ∨
      ∃ row : BenchEvent P, row.streamId = streamName streamPrefix (.ofNat hotIdx) ∧
        row.streamVersion = expected.toInt64.toInt ∧ ¬ db.HasVersion [row] ∧
        db' = { db with benchEvents := db.benchEvents ++ [row] } := by
  simp only [appendHot, Tables.appendWithStreamVersion] at h
  generalize hrow : BenchEvent.mk _ _ _ _ _ _ _ _ = row at h
  have hstored {new : Tables P} (hinsert : db.insert [row] = some new) :
      ∃ row : BenchEvent P, row.streamId = streamName streamPrefix (.ofNat hotIdx) ∧
        row.streamVersion = expected.toInt64.toInt ∧ ¬ db.HasVersion [row] ∧
        new = { db with benchEvents := db.benchEvents ++ [row] } := by
    obtain ⟨hfree, rfl⟩ := Tables.insert_eq_some hinsert
    exact ⟨row, by rw [← hrow], by rw [← hrow], hfree, rfl⟩
  generalize hrun : c.outcome.run (db.insert [row]) db = ran at h
  obtain ⟨acknowledged, new⟩ := ran
  cases acknowledged with
  | true =>
    obtain ⟨rfl, -⟩ := Prod.mk.inj h
    exact .inr (hstored (Outcome.run_eq_true.mp hrun).2)
  | false =>
    have hfailed : db' = new ∧ outcome ≠ .success := by
      dsimp only at h
      split at h
      · rename_i heq
        split_ifs at heq <;> cases heq
      · rename_i message after heq
        obtain ⟨rfl, houtcome⟩ := Prod.mk.inj h
        refine ⟨?_, ?_⟩
        · split_ifs at heq <;> exact (Prod.mk.inj heq).2.symm
        · rw [← (Prod.mk.inj houtcome).1]
          split_ifs <;> simp
    obtain ⟨rfl, hne⟩ := hfailed
    rcases Outcome.run_eq_false.mp hrun with ⟨-, hinsert⟩ | ⟨-, rfl⟩
    · exact .inr (hstored hinsert)
    · exact .inl ⟨rfl, hne⟩

/-- A batch of one event stores nothing and fails, or it stores a row of the version that the
counter has, and counts it. -/
lemma single_spec {result : Except String Int}
    (h : db.appendBatchVersioned (single s taskId c) c.draws .done c.outcome = (result, db')) :
    (db' = db ∧ ∃ message, result = .error message) ∨
      ∃ row : BenchEvent P, row.streamId = s ∧ row.streamVersion = db.version s ∧
        ¬ db.HasVersion [row] ∧
        db' = ⟨(db.upsertVersion s 1).streamVersions, db.benchEvents ++ [row]⟩ := by
  simp only [Tables.appendBatchVersioned, single] at h
  have hstored {new : Tables P}
      (hinsert : db.upsertAndInsert (single s taskId c) c.draws = some new) :
      ∃ row : BenchEvent P, row.streamId = s ∧ row.streamVersion = db.version s ∧
        ¬ db.HasVersion [row] ∧
        new = ⟨(db.upsertVersion s 1).streamVersions, db.benchEvents ++ [row]⟩ := by
    obtain ⟨hfree, rfl⟩ := Tables.insert_eq_some hinsert
    exact ⟨_, rfl, by simp [single], hfree, rfl⟩
  split at h
  · rename_i new hrun
    obtain ⟨-, rfl⟩ := Prod.mk.inj h
    exact .inr (hstored (Outcome.run_eq_true.mp hrun).2)
  · rename_i new hrun
    obtain ⟨rfl, rfl⟩ := Prod.mk.inj h
    rcases Outcome.run_eq_false.mp hrun with ⟨-, hinsert⟩ | ⟨-, rfl⟩
    · exact .inr (hstored hinsert)
    · exact .inl ⟨rfl, _, rfl⟩

end Statements

/-! ### The streams of a run -/

/-- No stream of the run has a hole. -/
def AllConsecutive (streamPrefix : String) (db : Tables P) : Prop :=
  ∀ i, Consecutive db (streamName streamPrefix i)

/-- Where a stream ends. -/
def bound (streamPrefix : String) (db : Tables P) (i : ℕ) : ℕ :=
  (db.versions (streamName streamPrefix (.ofNat i))).length

section Run

variable {lowercase : Lowercase} {streamPrefix : String} {config : Config} {db db' : Tables P}
  {c : Call P} {i taskId : UInt64}

lemma length_versions_le (db : Tables P) (s : String) :
    (db.versions s).length ≤ db.benchEvents.length := by
  rw [Tables.versions, List.length_map]
  exact List.length_filter_le _ _

lemma bound_le_concat (streamVersions : String → Option Int) (row : BenchEvent P) (j : ℕ) :
    bound streamPrefix db j
      ≤ bound streamPrefix ⟨streamVersions, db.benchEvents ++ [row]⟩ j := by
  rw [bound, bound, length_versions_concat]
  exact Nat.le_add_right _ _

/-- A write by the counter of a stream leaves no hole. -/
lemma allConsecutive_single {result : Except String Int} (h : AllConsecutive streamPrefix db)
    (hcall : db.appendBatchVersioned (single (streamName streamPrefix i) taskId c) c.draws .done
      c.outcome = (result, db')) :
    AllConsecutive streamPrefix db' ∧ (∀ j, bound streamPrefix db j ≤ bound streamPrefix db' j) ∧
      (db'.benchEvents.length = db.benchEvents.length + 1 ∨
        (db'.benchEvents.length = db.benchEvents.length ∧ ∃ message, result = .error message)) := by
  rcases single_spec hcall with ⟨rfl, hfailed⟩ | ⟨row, hstream, hversion, hfree, rfl⟩
  · exact ⟨h, fun _ => le_refl _, .inr ⟨rfl, hfailed⟩⟩
  · refine ⟨fun j => (h j).concat _ (fun hj => ?_) ?_, bound_le_concat _ row, .inl (by simp)⟩
    · have hat := h j
      rw [← hj] at hat ⊢
      rw [hstream] at hat
      have hle := hat.counter
      refine (hstream ▸ hat : Consecutive db row.streamId).eq_length ?_ ?_ hfree
      · rw [hversion]
        exact hle.1
      · rw [hversion, hstream]
        exact hle.2
    · have hcounter := (h j).counter
      have hgrown := Tables.version_upsertVersion db (streamName streamPrefix i)
        (streamName streamPrefix j) 1 []
      rw [Tables.version] at hgrown
      rw [hgrown, hstream]
      by_cases hj : streamName streamPrefix i = streamName streamPrefix j
      · rw [if_pos hj, if_pos hj.symm]
        omega
      · rw [if_neg hj, if_neg (Ne.symm hj)]
        omega

/-- A write under a version that the stream has, or that comes next, leaves no hole. -/
lemma allConsecutive_explicit {row : BenchEvent P} (h : AllConsecutive streamPrefix db)
    (hstream : row.streamId = streamName streamPrefix i) (hpos : 0 ≤ row.streamVersion)
    (hle : row.streamVersion ≤ (db.versions row.streamId).length) (hfree : ¬ db.HasVersion [row]) :
    AllConsecutive streamPrefix { db with benchEvents := db.benchEvents ++ [row] } := by
  intro j
  refine (h j).concat _ (fun hj => ?_) ?_
  · rw [← hj]
    exact (hstream ▸ h i : Consecutive db row.streamId).eq_length hpos hle hfree
  · have hcounter := (h j).counter
    rw [Tables.version] at hcounter
    split_ifs <;> omega

/-- What is read of a stream is the version before the one that comes next. -/
lemma readLastStreamVersion_eq {s : String} (h : Consecutive db s) :
    readLastStreamVersion db s
      = if (db.versions s).length = 0 then none else some (((db.versions s).length : Int) - 1) := by
  by_cases hzero : (db.versions s).length = 0
  · rw [if_pos hzero, readLastStreamVersion, List.length_eq_zero_iff.mp hzero]
    rfl
  · rw [if_neg hzero, readLastStreamVersion, List.max?_eq_some_iff]
    constructor
    · refine h.versions.symm.subset (mem_numbers.mpr ⟨?_, ?_⟩) <;> omega
    · intro v hv
      have := mem_numbers.mp (h.versions.subset hv)
      omega

lemma appendCold_spec {coldIdx : ℕ} {ok : Bool}
    (h : appendCold streamPrefix config db coldIdx c = (db', ok)) :
    ∃ result, db.appendBatchVersioned (single
        (streamName streamPrefix (hotStreams config + .ofNat coldIdx)) (.ofNat coldIdx) c)
        c.draws .done c.outcome = (result, db') ∧ (ok = false ↔ ∃ message, result = .error message)
    := by
  simp only [appendCold] at h
  split at h
  · rename_i k db hcall
    obtain ⟨rfl, rfl⟩ := Prod.mk.inj h
    exact ⟨_, hcall, by simp⟩
  · rename_i message db hcall
    obtain ⟨rfl, rfl⟩ := Prod.mk.inj h
    exact ⟨_, hcall, by simp⟩

/-- A version in the range of `BIGINT` is sent as it is. -/
lemma toInt_toInt64 {expected : UInt64} (h : expected.toNat < 2 ^ 63) :
    expected.toInt64.toInt = expected.toNat := by
  rw [← Int64.toInt_toBitVec, UInt64.toBitVec_toInt64, BitVec.toInt_eq_toNat_of_lt]
  · rfl
  · rw [UInt64.toNat_toBitVec]
    omega

/-- The tables keep what the tasks count on. -/
theorem laws (lowercase : Lowercase) (streamPrefix : String) (config : Config) :
    (store lowercase streamPrefix config : HotStore (Tables P) (Call P)).Laws postgres
      (AllConsecutive streamPrefix) (bound streamPrefix) where
  append_le {d i expected e d' outcome answer} h := by
    rcases appendHot_spec h with ⟨rfl, -⟩ | ⟨row, -, -, -, rfl⟩
    · exact le_refl _
    · simp [store]
  appendCold_le {d j e d' ok} h := by
    obtain ⟨result, hcall, -⟩ := appendCold_spec h
    rcases single_spec hcall with ⟨rfl, -⟩ | ⟨row, -, -, -, rfl⟩
    · exact le_refl _
    · simp [store]
  append {d i expected e d' outcome answer} hinv hexpected hsmall h := by
    rcases appendHot_spec h with ⟨rfl, hfailed⟩ | ⟨row, hstream, hversion, hfree, rfl⟩
    · exact ⟨hinv, fun _ => le_refl _, .inl ⟨rfl, hfailed⟩⟩
    · have hlt : d.benchEvents.length + 1 < 2 ^ 63 := by
        simpa [HotStore.Small, store] using hsmall
      have hlength := length_versions_le d (streamName streamPrefix (.ofNat i))
      simp only [bound] at hexpected
      rw [toInt_toInt64 (by omega)] at hversion
      have hle : row.streamVersion ≤ (d.versions row.streamId).length := by
        rw [hversion, hstream]
        exact_mod_cast hexpected
      have hnext : row.streamVersion = (d.versions row.streamId).length :=
        (hstream ▸ hinv (.ofNat i) : Consecutive d row.streamId).eq_length
          (by rw [hversion]; exact Int.natCast_nonneg _) hle hfree
      refine ⟨allConsecutive_explicit hinv hstream (by rw [hversion]; exact Int.natCast_nonneg _)
        hle hfree, bound_le_concat _ row, .inr ⟨by simp [store], fun _ => ?_⟩⟩
      -- the task has found the end of the stream
      rw [hversion, hstream, Int.natCast_inj] at hnext
      rw [bound, length_versions_concat, if_pos hstream, ← hnext]
      show (expected + 1).toNat ≤ _
      rw [UInt64.toNat_add]
      exact Nat.mod_le _ _
  reread {d i e revision} hinv hsmall h := by
    have hlt : d.benchEvents.length < 2 ^ 63 := hsmall
    have hlength := length_versions_le d (streamName streamPrefix (.ofNat i))
    simp only [store] at h
    split at h
    · rw [readLastStreamVersion_eq (hinv (.ofNat i))] at h
      split_ifs at h with hzero
      · cases h
      · obtain rfl := Option.some.inj h
        have hrevision : UInt64.ofInt (((d.versions (streamName streamPrefix (.ofNat i))).length
            : Int) - 1) + 1 = .ofNat (d.versions (streamName streamPrefix (.ofNat i))).length := by
          rw [← UInt64.ofInt_one, ← UInt64.ofInt_add, Int.sub_add_cancel, UInt64.ofInt]
          congr 1
          omega
        rw [hrevision, bound, UInt64.toNat_ofNat']
        exact Nat.mod_le _ _
    · cases h
  appendCold {d j e d' ok} hinv h := by
    obtain ⟨result, hcall, hok⟩ := appendCold_spec h
    obtain ⟨hinv, hbound, hsize⟩ := allConsecutive_single hinv hcall
    refine ⟨hinv, hbound, hsize.imp_right ?_⟩
    rintro ⟨hsame, hfailed⟩
    exact ⟨hsame, hok.mpr hfailed⟩

/-- After every write of the baseline the streams have no holes, and the table has the events that
were counted and those of writes that did not return `Ok`. -/
lemma baseline_sound {σ : Baseline P} (h : (baseline P streamPrefix config).Reachable σ) :
    AllConsecutive streamPrefix σ.db ∧ σ.db.benchEvents.length = σ.totalEvents + σ.lost := by
  refine System.ReachBy.invariant (P := fun σ : Baseline P => AllConsecutive streamPrefix σ.db ∧
    σ.db.benchEvents.length = σ.totalEvents + σ.lost) ?_ ?_ h
  · rintro σ ⟨db, hzero, rfl⟩
    refine ⟨fun i => ⟨?_, ?_⟩, rfl⟩
    · exact .refl _
    · have hversion :
          (prepared streamPrefix config db).version (streamName streamPrefix i) = 0 := by
        rw [← hzero i]
        simp only [prepared, Tables.initStreamVersions, Tables.version]
        split_ifs <;> rfl
      rw [hversion]
      exact ⟨le_refl _, Int.natCast_nonneg _⟩
  · rintro σ c σ' - ⟨hall, hcount⟩ - hs
    simp only [baseline, Baseline.next] at hs
    split_ifs at hs
    split at hs
    · rename_i k db hcall
      obtain rfl := Option.some.inj hs
      obtain ⟨hall, -, hsize | ⟨-, message, hfailed⟩⟩ := allConsecutive_single hall hcall
      · refine ⟨hall, ?_⟩
        show db.benchEvents.length = σ.totalEvents + 1 + σ.lost
        omega
      · cases hfailed
    · rename_i message db hcall
      obtain rfl := Option.some.inj hs
      obtain ⟨hall, -, hsize⟩ := allConsecutive_single hall hcall
      refine ⟨hall, ?_⟩
      show db.benchEvents.length = σ.totalEvents + (σ.lost + _)
      omega

/-- In every state of the bench, where the counters of its streams start at `0`: every stream has
the versions `0, 1, …`, `hot_revisions` does not run ahead of a hot stream, and when all tasks have
ended the table has the events that the two phases have counted and those of writes that did not
return `Ok`. -/
theorem hot_streams_consecutive {β : Baseline P} {σ : Stored (Tables P)}
    (hbaseline : (baseline P streamPrefix config).Reachable β)
    (h : (contentionOn (store lowercase streamPrefix config) postgres config β.db
      fun _ => 0).Reachable σ) (hsmall : σ.data.benchEvents.length < 2 ^ 63) :
    (∀ i, σ.data.versions (streamName streamPrefix i)
      ~ numbers 0 (σ.data.versions (streamName streamPrefix i)).length) ∧
    (∀ i, (σ.bench.hotRevisions i).toNat
      ≤ (σ.data.versions (streamName streamPrefix (.ofNat i))).length) ∧
    ((∀ t ∈ σ.bench.permits.tasks, t.running = false) →
      σ.data.benchEvents.length = β.totalEvents + β.lost
        + σ.bench.counters .totalEvents + σ.lost) := by
  obtain ⟨hall, hcount⟩ := baseline_sound hbaseline
  have hlaws := laws (P := P) lowercase streamPrefix config
  have hsound := hlaws.sound hall (fun _ => Nat.zero_le _) h hsmall
  refine ⟨fun i => (hsound.inv i).versions, hsound.behind.revisions, fun hended => ?_⟩
  rw [← hcount]
  exact stored_eq hlaws hall (fun _ => Nat.zero_le _) h hsmall hended

end Run

/-! ### A conflict, and a second run -/

def benchConfig : Config := ⟨2, 1, 1, 2⟩

/-- The call that draws the id `id`. -/
def callOf (seqNow : UInt64) (id : String) : Call ℕ :=
  ⟨7, seqNow, ⟨fun _ => id, fun _ => 0⟩, .done, []⟩

/-- The baseline from tables whose counter is `n`, and what it writes. -/
def baselineStart (n : Option Int) : Baseline ℕ :=
  ⟨prepared "bench" benchConfig ⟨fun _ => n, []⟩, 0, 0⟩

def baselineEnd (n : Option Int) : Baseline ℕ :=
  (baseline ℕ "bench" benchConfig).after [callOf 1 "a", callOf 2 "b"] (baselineStart n)

def phaseStart (β : Baseline ℕ) : Stored (Tables ℕ) := ⟨start benchConfig, β.db, 0⟩

/-- The tasks load version `0`. -/
def loads : List (StoreAction (Call ℕ)) :=
  [.bench .tick, .bench .tick, .bench (.step 0 (.pick true 0 0)), .bench (.add 0),
    .bench (.step 1 (.pick true 0 0)), .bench (.add 1), .bench (.step 0 .load),
    .bench (.step 1 .load)]

/-- One task ends, and the other, which has met a conflict, goes on after the last version. -/
def conflicts : List (StoreAction (Call ℕ)) :=
  [.append 0 (callOf 1 "c"), .append 1 (callOf 2 "d"), .bench (.add 1), .bench (.add 1),
    .reread 1 (callOf 2 "e"), .bench (.step 1 .store), .bench (.step 1 .load),
    .append 1 (callOf 2 "f")]

/-- The phase after a baseline, against the tables. -/
def phase (β : Baseline ℕ) : System (Stored (Tables ℕ)) (StoreAction (Call ℕ)) :=
  contentionOn (store default "bench" benchConfig) postgres benchConfig β.db fun _ => 0

lemma phaseStart_init (β : Baseline ℕ) : (phase β).init (phaseStart β) :=
  ⟨start_init, rfl, rfl, rfl⟩

theorem hot_streams_consecutive_conflict :
    let σ := (phase (baselineEnd none)).after (loads ++ conflicts) (phaseStart (baselineEnd none))
    σ.data.versions (streamName "bench" 0) = [0, 1] ∧
      ∀ i, (σ.bench.hotRevisions i).toNat
        ≤ (σ.data.versions (streamName "bench" (.ofNat i))).length := by
  have hbaseline := (baseline ℕ "bench" benchConfig).reachable_after [callOf 1 "a", callOf 2 "b"]
    (s := baselineStart none) ⟨⟨fun _ => none, []⟩, fun _ => rfl, rfl⟩ (by decide)
  have hphase := (phase (baselineEnd none)).reachable_after (loads ++ conflicts)
    (phaseStart_init _) (by decide)
  exact ⟨by decide, (hot_streams_consecutive hbaseline hphase (by decide)).2.1⟩

/-- Both tasks end. -/
def ends : List (StoreAction (Call ℕ)) :=
  [.bench (.step 0 .exchange), .bench (.add 0), .bench (.step 0 .exit),
    .bench (.step 1 .exchange), .bench (.add 1), .bench (.add 1), .bench (.add 1),
    .bench (.step 1 .exit)]

/-- Where an earlier run has left the counters at `2`, the events of the baseline have version `2`,
and a task that starts at `0` meets no conflict. Version `1` is never written. -/
theorem second_run_leaves_hole :
    let β := baselineEnd (some 2)
    let σ := (phase β).after (loads ++ conflicts ++ ends) (phaseStart β)
    (phase β).Reachable σ ∧ (∀ t ∈ σ.bench.permits.tasks, t.running = false) ∧
      σ.data.versions (streamName "bench" 0) = [2, 0, 3] := by
  refine ⟨(phase _).reachable_after _ (phaseStart_init _) ?_, ?_, ?_⟩
  · decide
  · decide
  · decide

end EventSourcing.PostgresClient.HotStreams
