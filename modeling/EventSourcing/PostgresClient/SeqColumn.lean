import EventSourcing.PostgresClient.Writers

/-!
# The column `seq` in the runs of the writers

The runners that compute the number of a batch before its events write rows that agree in every
run. Those that take it from the counter after the events pass a number one too low for every
batch of the seed phase, and the right one for every live write: a run with seed events writes
rows whose column `seq` is not the field of their event, and skips a value between the phases.
-/

namespace EventSourcing.PostgresClient

open Bench Concurrency

variable {S : Type} {w : Writer S} {σ σ' : Writing S} {batch : Batch BenchmarkEvent}
  {db db' : Tables BenchmarkEvent} {call : CallResult}

/-! ### What a call writes -/

lemma insertBatch_rows {v : Int} {draws : Draws} (h : db.insertBatch batch v draws = some db') :
    db'.benchEvents = db.benchEvents ++ batch.rows v draws := by
  simp only [Tables.insertBatch] at h
  split_ifs at h
  rw [(Tables.insert_eq_some h).2]

lemma upsertAndInsert_rows {draws : Draws} (h : db.upsertAndInsert batch draws = some db') :
    db'.benchEvents = db.benchEvents ++ batch.rows (db.version batch.streamId) draws := by
  rw [(Tables.insert_eq_some h).2]
  rfl

/-- A call writes the rows of its batch or none, and all of them if it returns `Ok`. -/
lemma appendBatchVersioned_rows {draws : Draws} {counter last : Outcome}
    {result : Except String Int}
    (h : db.appendBatchVersioned batch draws counter last = (result, db')) :
    db'.benchEvents = db.benchEvents ++ batch.rows (db.version batch.streamId) draws ∨
      (db'.benchEvents = db.benchEvents ∧ ∃ msg, result = .error msg) := by
  simp only [Tables.appendBatchVersioned] at h
  split at h
  · rename_i hnil
    obtain ⟨-, rfl⟩ := Prod.mk.inj h
    exact .inl (by simp [Batch.rows, hnil])
  · split at h
    · rename_i new hrun
      obtain ⟨-, rfl⟩ := Prod.mk.inj h
      exact .inl (upsertAndInsert_rows (Outcome.run_eq_true.mp hrun).2)
    · rename_i new hrun
      obtain ⟨rfl, rfl⟩ := Prod.mk.inj h
      rcases outcome_run_cases hrun with hinsert | rfl
      · exact .inl (upsertAndInsert_rows hinsert)
      · exact .inr ⟨rfl, _, rfl⟩
  · split at h
    · rename_i advanced hcounter
      obtain ⟨rfl, rfl⟩ := Prod.mk.inj h
      refine .inr ⟨?_, _, rfl⟩
      rcases outcome_run_cases hcounter with hupsert | rfl
      · rw [← Option.some.inj hupsert]
        rfl
      · rfl
    · rename_i advanced hcounter
      obtain rfl := Option.some.inj (Outcome.run_eq_true.mp hcounter).2
      split at h
      · rename_i new hrun
        obtain ⟨-, rfl⟩ := Prod.mk.inj h
        have hrows := insertBatch_rows (Outcome.run_eq_true.mp hrun).2
        exact .inl hrows
      · rename_i new hrun
        obtain ⟨rfl, rfl⟩ := Prod.mk.inj h
        rcases outcome_run_cases hrun with hinsert | rfl
        · have hrows := insertBatch_rows hinsert
          exact .inl hrows
        · exact .inr ⟨rfl, _, rfl⟩

/-- A step of a writer is a call with its next batch. -/
lemma writer_next (hs : w.system.next σ call = some σ') :
    ∃ s batch s', σ.control = some s ∧ w.next s = some (batch, s') ∧
      ((σ'.db.benchEvents
          = σ.db.benchEvents ++ batch.rows (σ.db.version batch.streamId) call.draws ∧
          (σ'.control = some s' ∨ σ'.control = none)) ∨
        (σ'.db.benchEvents = σ.db.benchEvents ∧ σ'.control = none)) := by
  obtain ⟨⟨batch, s'⟩, hnext, rfl⟩ := Option.map_eq_some_iff.mp hs
  obtain ⟨s, hcontrol, hnext⟩ := Option.bind_eq_some_iff.mp hnext
  refine ⟨s, batch, s', hcontrol, hnext, ?_⟩
  simp only
  generalize hcall : σ.db.appendBatchVersioned batch call.draws call.counter call.last = result
  obtain ⟨result, db⟩ := result
  rcases appendBatchVersioned_rows hcall with hrows | ⟨hrows, msg, rfl⟩
  · cases result with
    | ok n => exact .inl ⟨hrows, .inl rfl⟩
    | error msg => exact .inl ⟨hrows, .inr rfl⟩
  · exact .inr ⟨hrows, rfl⟩

/-! ### Runs of aligned batches -/

/-- Every row of every run has the `seq` of its event in the column. -/
def Writer.Agrees (w : Writer S) : Prop :=
  ∀ σ, w.system.Reachable σ → ∀ row ∈ σ.db.benchEvents, SeqAgrees row

/-- A writer of which every batch is aligned, from where its runs can stand. -/
lemma agrees_of_aligned {I : S → Prop} (hinit : I w.init)
    (hnext : ∀ s batch s', I s → w.next s = some (batch, s') → batch.Aligned ∧ I s') :
    w.Agrees := by
  intro σ h
  refine (System.ReachBy.invariant (M := w.system) (P := fun σ : Writing S =>
    (∀ row ∈ σ.db.benchEvents, SeqAgrees row) ∧ ∀ s, σ.control = some s → I s) ?_ ?_ h).1
  · rintro σ ⟨hrows, hcontrol⟩
    refine ⟨by simp [hrows], fun s hs => ?_⟩
    obtain rfl := Option.some.inj (hcontrol.symm.trans hs)
    exact hinit
  · rintro σ call σ' - ⟨hrows, hI⟩ - hs
    obtain ⟨s, batch, s', hcontrol, hbatch, hcases⟩ := writer_next hs
    obtain ⟨haligned, hs'⟩ := hnext s batch s' (hI s hcontrol) hbatch
    rcases hcases with ⟨hnew, hcontrol'⟩ | ⟨hnew, hcontrol'⟩
    · refine ⟨fun row hrow => ?_, fun t ht => ?_⟩
      · rw [hnew] at hrow
        rcases List.mem_append.mp hrow with hrow | hrow
        · exact hrows row hrow
        · exact haligned.rows row hrow
      · rcases hcontrol' with heq | heq
        · obtain rfl := Option.some.inj (heq.symm.trans ht)
          exact hs'
        · cases heq.symm.trans ht
    · refine ⟨hnew ▸ hrows, fun t ht => ?_⟩
      cases hcontrol'.symm.trans ht

lemma agrees_ofList {batches : List (Batch BenchmarkEvent)}
    (h : ∀ batch ∈ batches, batch.Aligned) : (Writer.ofList batches).Agrees := by
  refine agrees_of_aligned (I := fun batches => ∀ batch ∈ batches, batch.Aligned) h ?_
  intro batches batch rest hall hs
  cases batches with
  | nil => cases hs
  | cons b bs =>
    obtain ⟨rfl, rfl⟩ := Prod.mk.inj (Option.some.inj hs)
    exact ⟨hall b List.mem_cons_self, fun b' hb' => hall b' (List.mem_cons_of_mem b hb')⟩

/-! ### The first batch of a run -/

/-- Ids for the rows of a batch. -/
def freshDraws : Draws where
  eventId i := String.ofList (List.replicate i 'e')
  globalPosition i := i + 1

lemma eventIds_nodup {v : Int} : ((batch.rows v freshDraws).map (·.eventId)).Nodup := by
  have hids : (batch.rows v freshDraws).map (·.eventId)
      = (List.range batch.payloads.length).map freshDraws.eventId := by
    apply List.ext_getElem <;> simp [Batch.rows]
  rw [hids]
  refine List.nodup_range.map ?_
  intro i j hij
  simpa [freshDraws] using congrArg String.length hij

lemma insert_empty (db : Tables BenchmarkEvent) (batch : Batch BenchmarkEvent) (v : Int)
    (h : db.benchEvents = []) :
    db.insert (batch.rows v freshDraws)
      = some { db with benchEvents := batch.rows v freshDraws } := by
  have hid : ¬ db.HasEventId (batch.rows v freshDraws) := by simp [Tables.HasEventId, h]
  have hversion : ¬ db.HasVersion (batch.rows v freshDraws) := by simp [Tables.HasVersion, h]
  simp [Tables.insert, hid, hversion, eventIds_nodup, h]

/-- A batch that binds no more parameters than a statement can is written to an empty table. -/
lemma appendBatchVersioned_empty (h : db.benchEvents = [])
    (hfit : 7 * batch.payloads.length ≤ Tables.maxBinds) :
    (db.appendBatchVersioned batch freshDraws .done .done).2.benchEvents
      = batch.rows (db.version batch.streamId) freshDraws := by
  simp only [Tables.appendBatchVersioned]
  split
  · rename_i hnil
    simp [Batch.rows, hnil, h]
  · rw [Tables.upsertAndInsert, insert_empty (db.upsertVersion batch.streamId 1) _ _ h]
    rfl
  · have hinsert := insert_empty (db.upsertVersion batch.streamId batch.payloads.length) batch
      (db.version batch.streamId) h
    simp only [Outcome.run, Tables.insertBatch, if_neg (not_lt.mpr hfit), hinsert]

/-- In a writer whose rows agree, a first batch that can be written is aligned. -/
lemma Writer.Agrees.first (h : w.Agrees) {s : S} (hfirst : w.next w.init = some (batch, s))
    (hfit : 7 * batch.payloads.length ≤ Tables.maxBinds) : batch.Aligned := by
  let db : Tables BenchmarkEvent := ⟨fun _ => none, []⟩
  let σ : Writing S := ⟨db, some w.init⟩
  have hinit : w.system.Reachable σ := .init ⟨rfl, rfl⟩
  have hempty : db.benchEvents = [] := rfl
  have hrows := appendBatchVersioned_empty hempty hfit
  suffices hall : ∀ row ∈ batch.rows (db.version batch.streamId) freshDraws, SeqAgrees row from
    Batch.aligned_of_rows hall
  generalize hcall : db.appendBatchVersioned batch freshDraws .done .done = result at hrows
  obtain ⟨result, after⟩ := result
  cases result with
  | ok n =>
    have hs : w.system.next σ ⟨freshDraws, .done, .done⟩ = some ⟨after, some s⟩ := by
      simp [Writer.system, σ, hfirst, hcall]
    have hagrees := h _ (System.Reachable.next hinit hs)
    exact hrows ▸ hagrees
  | error msg =>
    have hs : w.system.next σ ⟨freshDraws, .done, .done⟩ = some ⟨after, none⟩ := by
      simp [Writer.system, σ, hfirst, hcall]
    have hagrees := h _ (System.Reachable.next hinit hs)
    exact hrows ▸ hagrees

/-! ### Numbers computed before the events -/

lemma aligned_seedBatch (config : CacheConfig) (base n : UInt64) :
    (config.seedBatch base n).Aligned := by
  intro i event hevent
  simp only [CacheConfig.seedBatch, batchOf, List.getElem?_map, Option.mem_def,
    Option.map_eq_some_iff] at hevent
  obtain ⟨j, hj, rfl⟩ := hevent
  obtain ⟨hlt, rfl⟩ := List.getElem?_eq_some_iff.mp hj
  simp [CacheConfig.seedBatch, batchOf]

lemma aligned_single (streamId : String) (seq taskId task : UInt64) :
    (batchOf streamId [⟨seq, taskId⟩] seq task).Aligned := by
  intro i event hevent
  cases i with
  | zero =>
    obtain rfl := Option.some.inj hevent
    simp [batchOf]
  | succ i => simp [batchOf] at hevent

lemma aligned_cacheAppends (config : CacheConfig) : ∀ batch ∈ config.appends, batch.Aligned := by
  intro batch hbatch
  simp only [CacheConfig.appends] at hbatch
  split_ifs at hbatch with hzero hrem
  · cases hbatch
  · rcases List.mem_append.mp hbatch with hseed | hlive
    · rcases List.mem_append.mp hseed with hfull | hrest
      · obtain ⟨b, -, rfl⟩ := List.mem_map.mp hfull
        exact aligned_seedBatch config _ _
      · obtain rfl := List.mem_singleton.mp hrest
        exact aligned_seedBatch config _ _
    · obtain ⟨i, -, rfl⟩ := List.mem_map.mp hlive
      exact aligned_single _ _ _ _
  · rw [List.append_nil] at hbatch
    rcases List.mem_append.mp hbatch with hfull | hlive
    · obtain ⟨b, -, rfl⟩ := List.mem_map.mp hfull
      exact aligned_seedBatch config _ _
    · obtain ⟨i, -, rfl⟩ := List.mem_map.mp hlive
      exact aligned_single _ _ _ _

/-! ### Numbers taken from the counter afterwards -/

@[simp] lemma length_nextEvents (globalSeq : UInt64) (n : ℕ) :
    (nextEvents globalSeq n).1.length = n := by
  induction n generalizing globalSeq with
  | zero => rfl
  | succ n ih => simp [nextEvents, ih]

lemma nextEvents_last (globalSeq : UInt64) (n : ℕ) :
    (nextEvents globalSeq n).2 = globalSeq + .ofNat n := by
  induction n generalizing globalSeq with
  | zero => simp [nextEvents]
  | succ n ih =>
    simp only [nextEvents, ih, UInt64.ofNat_add]
    rw [UInt64.add_assoc, UInt64.add_comm 1]
    rfl

/-- The number of a batch of the seed phase is the counter before its first event. -/
lemma baseSeq_seedBatch (streamId : String) (n : ℕ) (globalSeq : UInt64) :
    (seedBatch streamId n globalSeq).1.baseSeq = globalSeq := by
  simp only [seedBatch, batchOf, nextEvents_last]
  exact UInt64.add_sub_cancel globalSeq _

@[simp] lemma length_seedBatch (streamId : String) (n : ℕ) (globalSeq : UInt64) :
    (seedBatch streamId n globalSeq).1.payloads.length = n := by
  simp [seedBatch, batchOf]

/-- So a batch of the seed phase with events is one too low. -/
lemma not_aligned_seedBatch (streamId : String) {n : ℕ} (hn : n ≠ 0) (globalSeq : UInt64) :
    ¬ (seedBatch streamId n globalSeq).1.Aligned := by
  intro haligned
  obtain ⟨n, rfl⟩ := Nat.exists_eq_succ_of_ne_zero hn
  have hfirst := haligned 0 ⟨globalSeq + 1, 0⟩ rfl
  rw [baseSeq_seedBatch] at hfirst
  simp at hfirst

/-- A run with seed events starts with a batch of the seed phase. -/
lemma appends_of_seed (args : ReaderArgs) {batchSize : UInt64} (hbatch : batchSize ≠ 0)
    (hseed : args.seedEvents ≠ 0) : ∃ n,
      (args.appends batchSize).head? = some (seedBatch args.streamName n 0).1 ∧ n ≠ 0 ∧
        n ≤ batchSize.toNat := by
  have hpos : batchSize.toNat ≠ 0 := by simpa [← UInt64.toNat_inj] using hbatch
  have hne : args.seedEvents.toNat ≠ 0 := by simpa [← UInt64.toNat_inj] using hseed
  cases hfull : (args.seedEvents / batchSize).toNat with
  | succ k =>
    refine ⟨batchSize.toNat, ?_, hpos, le_refl _⟩
    simp [ReaderArgs.appends, hfull, repeatAppend]
  | zero =>
    -- fewer seed events than a batch has: the remainder is all of them
    have hlt : args.seedEvents.toNat < batchSize.toNat := by
      rw [UInt64.toNat_div] at hfull
      exact (Nat.div_eq_zero_iff.mp hfull).resolve_left hpos
    have hrem : args.seedEvents % batchSize = args.seedEvents := by
      rw [← UInt64.toNat_inj, UInt64.toNat_mod, Nat.mod_eq_of_lt hlt]
    refine ⟨args.seedEvents.toNat, ?_, hne, hlt.le⟩
    simp [ReaderArgs.appends, hfull, hrem, repeatAppend, UInt64.pos_iff_ne_zero.mpr hseed]

/-- Without seed events only the live writes are left. -/
lemma appends_of_no_seed (args : ReaderArgs) {batchSize : UInt64} (hseed : args.seedEvents = 0) :
    args.appends batchSize
      = (repeatAppend (liveBatch args.streamName) 0 args.liveEvents.toNat).1 := by
  simp [ReaderArgs.appends, hseed, repeatAppend]

lemma aligned_live (streamId : String) (globalSeq : UInt64) (n : ℕ) :
    ∀ batch ∈ (repeatAppend (liveBatch streamId) globalSeq n).1, batch.Aligned := by
  induction n generalizing globalSeq with
  | zero => exact fun batch hbatch => absurd hbatch List.not_mem_nil
  | succ n ih =>
    intro batch hbatch
    rcases List.mem_cons.mp hbatch with rfl | hbatch
    · exact aligned_single _ _ _ _
    · exact ih _ batch hbatch

/-! ### Without gap or repetition -/

/-- The values of the column `seq` count on by one. -/
def Consecutive (rows : List (BenchEvent BenchmarkEvent)) : Prop :=
  ∃ first : UInt64, rows.map (·.seq)
    = (List.range rows.length).map fun i => (first + .ofNat i).toInt64

/-- In every run the values of the column `seq` count on by one, in the order of the inserts. -/
def Writer.Counts (w : Writer S) : Prop :=
  ∀ σ, w.system.Reachable σ → Consecutive σ.db.benchEvents

/-- A run of live writes: `k` rows are written, and the rest goes on from there. -/
structure LiveRun (streamId : String) (σ : Writing (List (Batch BenchmarkEvent))) (k : ℕ) :
    Prop where
  rows : σ.db.benchEvents.map (·.seq)
    = (List.range k).map fun i => ((1 : UInt64) + .ofNat i).toInt64
  rest : ∀ batches, σ.control = some batches →
    ∃ n, batches = (repeatAppend (liveBatch streamId) (.ofNat k) n).1

lemma LiveRun.next {streamId : String} {batches : List (Batch BenchmarkEvent)}
    {σ σ' : Writing (List (Batch BenchmarkEvent))} {k : ℕ} (h : LiveRun streamId σ k)
    (hs : (Writer.ofList batches).system.next σ call = some σ') : ∃ k, LiveRun streamId σ' k := by
  obtain ⟨s, batch, s', hcontrol, hbatch, hcases⟩ := writer_next hs
  obtain ⟨n, rfl⟩ := h.rest s hcontrol
  cases n with
  | zero => cases hbatch
  | succ n =>
    obtain ⟨rfl, rfl⟩ := Prod.mk.inj (Option.some.inj hbatch)
    rcases hcases with ⟨hnew, hcontrol'⟩ | ⟨hnew, hcontrol'⟩
    · refine ⟨k + 1, ?_, ?_⟩
      · rw [hnew, List.map_append, h.rows, List.range_succ, List.map_append]
        congr 1
        simp [Batch.rows, batchOf, UInt64.add_comm]
      · intro rest hrest
        rcases hcontrol' with heq | heq
        · obtain rfl := Option.some.inj (heq.symm.trans hrest)
          refine ⟨n, ?_⟩
          rw [UInt64.ofNat_add]
          rfl
        · cases heq.symm.trans hrest
    · refine ⟨k, hnew ▸ h.rows, fun rest hrest => ?_⟩
      cases hcontrol'.symm.trans hrest

lemma counts_of_no_seed (args : ReaderArgs) {batchSize : UInt64} (hseed : args.seedEvents = 0) :
    (Writer.ofList (args.appends batchSize)).Counts := by
  intro σ h
  obtain ⟨k, hk⟩ : ∃ k, LiveRun args.streamName σ k := by
    refine System.ReachBy.invariant
      (P := fun σ => ∃ k, LiveRun args.streamName σ k) ?_ ?_ h
    · rintro σ ⟨hrows, hcontrol⟩
      refine ⟨0, by simp [hrows], fun batches hbatches => ⟨args.liveEvents.toNat, ?_⟩⟩
      obtain rfl := Option.some.inj (hcontrol.symm.trans hbatches)
      exact appends_of_no_seed args hseed
    · rintro σ call σ' - ⟨k, hk⟩ - hs
      exact hk.next hs
  have hlength : σ.db.benchEvents.length = k := by simpa using congrArg List.length hk.rows
  exact ⟨1, hlength ▸ hk.rows⟩

/-! ### The runners -/

/-- A reader bench whose batches fit into a statement writes rows that agree if and only if it
has no seed events. -/
lemma reader_agrees_iff (args : ReaderArgs) {batchSize : UInt64} (hbatch : batchSize ≠ 0)
    (hfit : 7 * batchSize.toNat ≤ Tables.maxBinds) :
    (Writer.ofList (args.appends batchSize)).Agrees ↔ args.seedEvents = 0 := by
  constructor
  · intro hagrees
    by_contra hseed
    obtain ⟨n, hhead, hn, hle⟩ := appends_of_seed args hbatch hseed
    obtain ⟨rest, hrest⟩ := List.head?_eq_some_iff.mp hhead
    have hfirst : (Writer.ofList (args.appends batchSize)).next (args.appends batchSize)
        = some ((seedBatch args.streamName n 0).1, rest) := by
      rw [hrest]
      rfl
    refine not_aligned_seedBatch args.streamName hn 0 (hagrees.first hfirst ?_)
    rw [length_seedBatch]
    omega
  · intro hseed
    refine agrees_ofList ?_
    rw [appends_of_no_seed args hseed]
    exact aligned_live args.streamName 0 _

/-- The size of the first batch of `scale_bench`. -/
def ScaleArgs.firstBatch (args : ScaleArgs) : ℕ := (min args.batchSize args.scaleEvents).toNat

/-- `scale_bench` writes nothing: it has no events to write, only empty batches, or a first
batch that binds more parameters than a statement can. -/
def ScaleArgs.WritesNothing (args : ScaleArgs) : Prop :=
  args.firstBatch = 0 ∨ Tables.maxBinds < 7 * args.firstBatch

lemma scaleBench_first (args : ScaleArgs) (hevents : 0 < args.scaleEvents) :
    (scaleBench args).next (scaleBench args).init
      = some (seedBatch args.streamName args.firstBatch 0) := by
  simp [scaleBench, hevents, ScaleArgs.firstBatch]

/-- A batch that binds too many parameters is not written. -/
lemma appendBatchVersioned_too_large (db : Tables BenchmarkEvent) (call : CallResult)
    (hlarge : Tables.maxBinds < 7 * batch.payloads.length) :
    let result := db.appendBatchVersioned batch call.draws call.counter call.last
    ∃ msg, result.1 = .error msg ∧ result.2.benchEvents = db.benchEvents := by
  have hmany : 1 < batch.payloads.length := by
    simp only [Tables.maxBinds] at hlarge
    omega
  simp only [Tables.appendBatchVersioned]
  split
  · rename_i hnil
    simp [hnil] at hmany
  · rename_i hone
    simp [hone] at hmany
  · split
    · rename_i after hcounter
      refine ⟨_, rfl, ?_⟩
      rcases outcome_run_cases hcounter with hupsert | rfl
      · rw [← Option.some.inj hupsert]
        rfl
      · rfl
    · rename_i advanced hcounter
      obtain rfl := Option.some.inj (Outcome.run_eq_true.mp hcounter).2
      have hnone : (db.upsertVersion batch.streamId batch.payloads.length).insertBatch batch
          (db.version batch.streamId) call.draws = none := if_pos hlarge
      rw [hnone]
      cases call.last <;> exact ⟨_, rfl, rfl⟩

/-- A run of `scale_bench` that writes nothing: it stays before its first event. -/
lemma scaleBench_empty (args : ScaleArgs) (h : args.WritesNothing) {σ : Writing UInt64}
    (hreach : (scaleBench args).system.Reachable σ) : σ.db.benchEvents = [] := by
  refine (System.ReachBy.invariant (P := fun σ : Writing UInt64 =>
    σ.db.benchEvents = [] ∧ ∀ s, σ.control = some s → s = 0) ?_ ?_ hreach).1
  · rintro σ ⟨hrows, hcontrol⟩
    exact ⟨hrows, fun s hs => Option.some.inj (hs.symm.trans hcontrol)⟩
  · rintro σ call σ' - ⟨hrows, hstart⟩ - hs
    obtain ⟨⟨batch, s'⟩, hnext, rfl⟩ := Option.map_eq_some_iff.mp hs
    obtain ⟨s, hcontrol, hnext⟩ := Option.bind_eq_some_iff.mp hnext
    obtain rfl := hstart s hcontrol
    have hevents : 0 < args.scaleEvents := by
      by_contra hnot
      simp [scaleBench, hnot] at hnext
    rw [show (0 : UInt64) = (scaleBench args).init from rfl, scaleBench_first args hevents] at hnext
    obtain ⟨hbatch, hlast⟩ := Prod.mk.inj (Option.some.inj hnext)
    rcases h with hzero | hlarge
    · -- an empty batch: `Ok(0)`, and the counter stays
      have hempty : batch.payloads = [] := by
        rw [← hbatch, hzero]
        rfl
      have hs' : s' = 0 := by
        rw [← hlast, hzero]
        rfl
      simp only [Tables.appendBatchVersioned, hempty]
      exact ⟨hrows, fun s hs => (Option.some.inj hs).symm.trans hs'⟩
    · have hlength : batch.payloads.length = args.firstBatch := by
        rw [← hbatch]
        exact length_seedBatch _ _ _
      obtain ⟨msg, hresult, hsame⟩ := appendBatchVersioned_too_large σ.db call (hlength ▸ hlarge)
      simp only
      generalize σ.db.appendBatchVersioned batch call.draws call.counter call.last = result
        at hresult hsame
      obtain ⟨result, db⟩ := result
      obtain rfl : result = .error msg := hresult
      refine ⟨hsame.trans hrows, ?_⟩
      intro s hs
      cases hs

lemma scaleBench_agrees_iff (args : ScaleArgs) :
    (scaleBench args).Agrees ↔ args.WritesNothing := by
  constructor
  · intro hagrees
    by_contra hwrites
    simp only [ScaleArgs.WritesNothing, not_or, not_lt] at hwrites
    have hevents : 0 < args.scaleEvents := by
      rw [UInt64.pos_iff_ne_zero]
      intro hzero
      have hmin : min args.batchSize 0 = 0 := by
        change (if args.batchSize ≤ 0 then args.batchSize else 0) = 0
        split_ifs with hle
        · exact UInt64.le_zero_iff.mp hle
        · rfl
      rw [ScaleArgs.firstBatch, hzero, hmin] at hwrites
      exact hwrites.1 rfl
    refine not_aligned_seedBatch args.streamName hwrites.1 0
      (hagrees.first (scaleBench_first args hevents) ?_)
    rw [length_seedBatch]
    exact hwrites.2
  · intro hnothing σ hreach
    rw [scaleBench_empty args hnothing hreach]
    exact fun row hrow => absurd hrow List.not_mem_nil

/-- In every run of `benchmark`, `hot_cache_bench` and `memcache_bench` the column `seq` of
every row is that of its event. In `projection_bench` and `search_bench` this holds, and the
values count on by one, if and only if there are no seed events, and in `scale_bench` if and
only if nothing is written. -/
theorem seq_columns_agree (config : Bench.BenchmarkConfig) (cache : CacheConfig)
    (reader : ReaderArgs) (scale : ScaleArgs) :
    (∀ streamPrefix σ, (benchmark config streamPrefix).Reachable σ → σ.shared.Agrees) ∧
    (hotCacheBench cache).Agrees ∧ (memcacheBench cache).Agrees ∧
    (((projectionBench reader).Agrees ↔ reader.seedEvents = 0) ∧
      ((projectionBench reader).Agrees ∧ (projectionBench reader).Counts ↔
        reader.seedEvents = 0)) ∧
    (((searchBench reader).Agrees ↔ reader.seedEvents = 0) ∧
      ((searchBench reader).Agrees ∧ (searchBench reader).Counts ↔ reader.seedEvents = 0)) ∧
    ((scaleBench scale).Agrees ↔ scale.WritesNothing) := by
  refine ⟨fun _ _ h => benchmark_agrees h, agrees_ofList ?_, agrees_ofList ?_, ?_, ?_,
    scaleBench_agrees_iff scale⟩
  · exact aligned_cacheAppends cache
  · exact aligned_cacheAppends cache
  · have hiff : (projectionBench reader).Agrees ↔ reader.seedEvents = 0 :=
      reader_agrees_iff reader (by decide) (by decide)
    refine ⟨hiff, fun h => hiff.mp h.1, fun hseed => ⟨hiff.mpr hseed, ?_⟩⟩
    exact counts_of_no_seed reader hseed
  · have hiff : (searchBench reader).Agrees ↔ reader.seedEvents = 0 :=
      reader_agrees_iff reader (by decide) (by decide)
    refine ⟨hiff, fun h => hiff.mp h.1, fun hseed => ⟨hiff.mpr hseed, ?_⟩⟩
    exact counts_of_no_seed reader hseed

/-- Two calls that succeed. -/
def twoCalls : List CallResult :=
  [⟨⟨fun _ => "e0", fun _ => 1⟩, .done, .done⟩, ⟨⟨fun _ => "e1", fun _ => 2⟩, .done, .done⟩]

/-- One seed event and one live write with the hot cache: the columns are `0` and `1`. -/
theorem seq_columns_agree_hot_cache :
    let w := hotCacheBench ⟨"orders", 1, 1, 1⟩
    let σ := w.system.after twoCalls ⟨⟨fun _ => none, []⟩, some w.init⟩
    σ.db.benchEvents.map (·.seq) = [0, 1] ∧ ∀ row ∈ σ.db.benchEvents, SeqAgrees row := by
  refine ⟨by decide, ?_⟩
  have h := seq_columns_agree ⟨1, 1, true⟩ ⟨"orders", 1, 1, 1⟩ ⟨"orders", 1, 1⟩ ⟨"orders", 1, 1⟩
  exact h.2.1 _ (System.reachable_after twoCalls ⟨rfl, rfl⟩ (by decide))

/-- One seed event and one live write with the projector: the events have `seq` `1` and `2`, the
columns are `0` and `2`. -/
theorem seq_columns_agree_fails : ¬ ∀ args, (projectionBench args).Agrees := by
  intro hclaim
  let w := projectionBench ⟨"orders", 1, 1⟩
  have hreach : w.system.Reachable (w.system.after twoCalls ⟨⟨fun _ => none, []⟩, some w.init⟩) :=
    System.reachable_after twoCalls ⟨rfl, rfl⟩ (by decide)
  have hagrees := hclaim ⟨"orders", 1, 1⟩ _ hreach
  exact absurd hagrees (by decide)

end EventSourcing.PostgresClient
