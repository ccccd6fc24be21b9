import EventSourcing.MongoClient.Database
import EventSourcing.PostgresClient.Versions

/-!
# Batches that fail

`append_batch_versioned` of either client advances its counters in statements of their own
before it inserts the rows, except for a single event of `PostgresClient`. Where it returns an
error after the first of them has taken effect, the counter of the stream has moved on and the
versions it has handed out are a hole.
-/

namespace EventSourcing

open Bench

variable {P : Type}

/-! ### PostgreSQL -/

namespace PostgresClient

/-- The statement that fails is the first one sent, and it has no effect: a single event is one
statement, which violates a key or is rejected; a batch begins with its counter update. -/
def NothingDone (db : Tables P) (batch : Batch P) (draws : Draws) (counter last : Outcome) : Prop :=
  if batch.payloads.length = 1 then
    last = .unacknowledged →
      db.HasEventId (batch.rows (db.version batch.streamId) draws) ∨
        db.HasVersion (batch.rows (db.version batch.streamId) draws)
  else counter = .rejected

section

variable {db db' : Tables P} {batch : Batch P} {draws : Draws} {counter last : Outcome}

/-- An upsert moves the counter. -/
lemma upsertVersion_ne {s : String} {n : Int} (hn : n ≠ 0) :
    (db.upsertVersion s n).streamVersions ≠ db.streamVersions := by
  intro heq
  have hs : some (db.version s + n) = db.streamVersions s := by
    simpa [Tables.upsertVersion] using congrFun heq s
  rw [Tables.version] at hs
  cases hv : db.streamVersions s with
  | none => simp [hv] at hs
  | some v =>
    have hv : v + n = v := by simpa [hv] using hs
    omega

lemma insertBatch_streamVersions {v : Int} (h : db.insertBatch batch v draws = some db') :
    db'.streamVersions = db.streamVersions := by
  simp only [Tables.insertBatch] at h
  split_ifs at h
  rw [(Tables.insert_eq_some h).2]

lemma appendBatchVersioned_single (h : batch.payloads.length = 1) :
    db.appendBatchVersioned batch draws counter last
      = match last.run (db.upsertAndInsert batch draws) db with
        | (true, db) => (.ok 1, db)
        | (false, db) =>
          (.error s!"single-event versioned insert failed for '{batch.streamId}'", db) := by
  obtain ⟨streamId, eventType, payloads, seq, taskId⟩ := batch
  obtain ⟨payload, rfl⟩ := List.length_eq_one_iff.mp h
  rfl

lemma appendBatchVersioned_batch (h : 1 < batch.payloads.length) :
    db.appendBatchVersioned batch draws counter last
      = match counter.run (some (db.upsertVersion batch.streamId batch.payloads.length)) db with
        | (false, db) => (.error s!"version counter update failed for '{batch.streamId}'", db)
        | (true, advanced) =>
          match
            last.run (advanced.insertBatch batch (db.version batch.streamId) draws) advanced with
          | (true, db) => (.ok batch.payloads.length, db)
          | (false, db) => (.error "versioned batch insert failed", db) := by
  simp only [Tables.appendBatchVersioned]
  split
  · simp_all
  · simp_all
  · rfl

/-- The statement for a single event violates a key of a stored row, or none. -/
lemma upsertAndInsert_eq_none (h : batch.payloads.length = 1) :
    db.upsertAndInsert batch draws = none ↔
      db.HasEventId (batch.rows (db.version batch.streamId) draws) ∨
        db.HasVersion (batch.rows (db.version batch.streamId) draws) := by
  have hrows : (batch.rows (db.version batch.streamId) draws).length = 1 := by
    simpa [Batch.rows] using h
  obtain ⟨row, hrow⟩ := List.length_eq_one_iff.mp hrows
  rw [Tables.upsertAndInsert, Tables.insert, hrow]
  simp only [ite_eq_left_iff, reduceCtorEq, imp_false, not_not]
  simp [Tables.HasEventId, Tables.HasVersion, Tables.upsertVersion]

/-- A batch with more parameters than a statement can bind fails after its counter has moved. -/
theorem appendBatchVersioned_over_maxBinds (h : Tables.maxBinds < 7 * batch.payloads.length) :
    db.appendBatchVersioned batch draws .done last
      = (.error "versioned batch insert failed",
        db.upsertVersion batch.streamId batch.payloads.length) := by
  have hlength : 1 < batch.payloads.length := by
    rw [Tables.maxBinds] at h
    omega
  rw [appendBatchVersioned_batch hlength]
  simp only [Outcome.run, Tables.insertBatch, if_pos h]

/-- A single event that fails has left the tables alone unless its statement took effect: the
upsert is part of the statement. -/
lemma unchanged_single_iff {error : String} (hlength : batch.payloads.length = 1)
    (h : (db.appendBatchVersioned batch draws counter last).1 = .error error) :
    (db.appendBatchVersioned batch draws counter last).2 = db ↔
      (last = .unacknowledged → db.upsertAndInsert batch draws = none) := by
  rw [appendBatchVersioned_single hlength] at h ⊢
  generalize hrun : last.run (db.upsertAndInsert batch draws) db = result at h ⊢
  obtain ⟨acknowledged, db'⟩ := result
  cases acknowledged with
  | true => cases h
  | false =>
    rcases Outcome.run_eq_false.mp hrun with ⟨rfl, hafter⟩ | ⟨hnone, rfl⟩
    · have hmoved : db' ≠ db := by
        rintro rfl
        rw [Tables.upsertAndInsert] at hafter
        exact upsertVersion_ne Int.one_ne_zero
          (congrArg Tables.streamVersions (Tables.insert_eq_some hafter).2).symm
      simp [hmoved, hafter]
    · rcases hnone with rfl | hnone
      · simp
      · simp [hnone]

/-- The `INSERT` of a batch leaves the counter where the update before it has moved it. -/
lemma streamVersions_of_insertBatch {acknowledged : Bool} {v : Int}
    (hlast : last.run (db.insertBatch batch v draws) db = (acknowledged, db')) :
    db'.streamVersions = db.streamVersions := by
  cases acknowledged with
  | true => exact insertBatch_streamVersions (Outcome.run_eq_true.mp hlast).2
  | false =>
    rcases Outcome.run_eq_false.mp hlast with ⟨-, hafter⟩ | ⟨-, rfl⟩
    · exact insertBatch_streamVersions hafter
    · rfl

/-- A batch that fails has left the tables alone where its counter update was rejected. -/
lemma unchanged_batch_iff {error : String} (hlength : 1 < batch.payloads.length)
    (h : (db.appendBatchVersioned batch draws counter last).1 = .error error) :
    (db.appendBatchVersioned batch draws counter last).2 = db ↔ counter = .rejected := by
  rw [appendBatchVersioned_batch hlength] at h ⊢
  have hmoved : (db.upsertVersion batch.streamId batch.payloads.length).streamVersions
      ≠ db.streamVersions := upsertVersion_ne (by omega)
  generalize hrun : counter.run _ db = result at h ⊢
  obtain ⟨acknowledged, advanced⟩ := result
  cases acknowledged with
  | false =>
    rcases Outcome.run_eq_false.mp hrun with ⟨rfl, hafter⟩ | ⟨hnone, rfl⟩
    · obtain rfl := Option.some.inj hafter
      simpa using fun heq => hmoved (congrArg Tables.streamVersions heq)
    · simpa using hnone
  | true =>
    obtain ⟨rfl, hafter⟩ := Outcome.run_eq_true.mp hrun
    obtain rfl := Option.some.inj hafter
    simp only at h ⊢
    generalize hlast : last.run _ _ = result at h ⊢
    obtain ⟨acknowledged, db'⟩ := result
    have hne : db' ≠ db := by
      rintro rfl
      exact hmoved (streamVersions_of_insertBatch hlast).symm
    cases acknowledged with
    | true => cases h
    | false => simpa using hne

/-- A failed call leaves the tables as they were just where nothing was done. -/
lemma unchanged_iff {error : String}
    (h : (db.appendBatchVersioned batch draws counter last).1 = .error error) :
    (db.appendBatchVersioned batch draws counter last).2 = db ↔
      NothingDone db batch draws counter last := by
  rw [NothingDone]
  rcases Nat.lt_trichotomy batch.payloads.length 1 with hlength | hlength | hlength
  · have hnil : batch.payloads = [] := List.length_eq_zero_iff.mp (by omega)
    simp [Tables.appendBatchVersioned, hnil] at h
  · rw [unchanged_single_iff hlength h, if_pos hlength, upsertAndInsert_eq_none hlength]
  · rw [unchanged_batch_iff hlength h, if_neg (Nat.ne_of_gt hlength)]

end

end PostgresClient

/-! ### MongoDB -/

namespace MongoClient

/-- The first operation fails without an effect, or the batch is empty and the documents of the
counters that it touches before it fails are there. -/
def NothingDone (db : Database P) (batch : Batch P) (version sequence : Outcome) : Prop :=
  version = .rejected ∨
    (batch.payloads = [] ∧ (db.streamVersions batch.collectionName).isSome ∧
      (version = .unacknowledged ∨ sequence = .rejected ∨ db.globalSeq.isSome))

section

variable {db db' : Database P} {batch : Batch P} {ids : ℕ → String} {version sequence : Outcome}
  {insert : InsertOutcome}

lemma increment_eq {field : Option Int} {n : ℕ} :
    increment field n = field ↔ n = 0 ∧ field.isSome := by
  cases field with
  | none => simp [increment]
  | some v =>
    simp only [increment, Option.getD_some, Option.some.injEq, Option.isSome_some, and_true]
    omega

/-- A state whose counter has moved from that of `db` is not `db`. -/
lemma of_incVersion {name : String} {n : ℕ}
    (h : db'.streamVersions = (db.incVersion name n).streamVersions) (heq : db' = db) :
    n = 0 ∧ (db.streamVersions name).isSome := by
  rw [heq] at h
  have hfield := congrFun h name
  rw [← increment_eq]
  simpa [Database.incVersion] using hfield.symm

lemma of_incGlobalSeq {n : ℕ} (h : db'.globalSeq = (db.incGlobalSeq n).globalSeq)
    (heq : db' = db) : n = 0 ∧ db.globalSeq.isSome := by
  rw [heq] at h
  rw [← increment_eq]
  exact h.symm

lemma incVersion_eq {name : String} {n : ℕ} :
    db.incVersion name n = db ↔ n = 0 ∧ (db.streamVersions name).isSome := by
  constructor
  · exact of_incVersion rfl
  · intro h
    rw [Database.incVersion, increment_eq.mpr h, Function.update_eq_self]

lemma incGlobalSeq_eq {n : ℕ} : db.incGlobalSeq n = db ↔ n = 0 ∧ db.globalSeq.isSome := by
  constructor
  · exact of_incGlobalSeq rfl
  · intro h
    rw [Database.incGlobalSeq, increment_eq.mpr h]

/-- Two counters that have moved are put back by nothing. -/
lemma counters_unchanged_iff {name : String} {n : ℕ}
    (hversion : db'.streamVersions = (db.incVersion name n).streamVersions)
    (hsequence : db'.globalSeq = (db.incGlobalSeq n).globalSeq)
    (hnone : n = 0 → db' = (db.incVersion name n).incGlobalSeq n) :
    db' = db ↔ n = 0 ∧ (db.streamVersions name).isSome ∧ db.globalSeq.isSome := by
  constructor
  · intro heq
    exact ⟨(of_incVersion hversion heq).1, (of_incVersion hversion heq).2,
      (of_incGlobalSeq hsequence heq).2⟩
  · rintro ⟨hn, hv, hg⟩
    rw [hnone hn, incVersion_eq.mpr ⟨hn, hv⟩, incGlobalSeq_eq.mpr ⟨hn, hg⟩]

lemma incVersion_incGlobalSeq_eq {name : String} {n : ℕ} :
    (db.incVersion name n).incGlobalSeq n = db ↔
      n = 0 ∧ (db.streamVersions name).isSome ∧ db.globalSeq.isSome :=
  counters_unchanged_iff rfl rfl fun _ => rfl

lemma insertMany_nil {name : String} : (db.insertMany name [] insert).2 = db := by
  cases insert <;> simp [Database.insertMany, Database.accepted]

lemma documents_nil {startVersion globalStart : Int} {docs : List (BenchDocument P)}
    (h : batch.payloads = []) (hdocs : batch.documents startVersion globalStart ids = some docs) :
    docs = [] := by
  simpa [Batch.documents, h, collect, eq_comm] using hdocs

/-- A failed call leaves the database as it was just where nothing was done. -/
lemma unchanged_iff {error : String}
    (h : (db.appendBatchVersioned batch ids version sequence insert).1 = .error error) :
    (db.appendBatchVersioned batch ids version sequence insert).2 = db ↔
      NothingDone db batch version sequence := by
  simp only [NothingDone, ← List.length_eq_zero_iff]
  simp only [Database.appendBatchVersioned] at h ⊢
  generalize hversion : version.run _ db = result at h ⊢
  obtain ⟨acknowledged, counted⟩ := result
  cases acknowledged with
  | false =>
    rcases Outcome.run_eq_false.mp hversion with ⟨rfl, hafter⟩ | ⟨hnone, rfl⟩
    · obtain rfl := Option.some.inj hafter
      simp [incVersion_eq]
    · simp [hnone.resolve_right (Option.some_ne_none _)]
  | true =>
    obtain ⟨rfl, hafter⟩ := Outcome.run_eq_true.mp hversion
    obtain rfl := Option.some.inj hafter
    simp only at h ⊢
    generalize hsequence : sequence.run _ _ = result at h ⊢
    obtain ⟨acknowledged, positioned⟩ := result
    cases acknowledged with
    | false =>
      rcases Outcome.run_eq_false.mp hsequence with ⟨rfl, hafter⟩ | ⟨hnone, rfl⟩
      · obtain rfl := Option.some.inj hafter
        rw [incVersion_incGlobalSeq_eq]
        simp
      · simp [incVersion_eq, hnone.resolve_right (Option.some_ne_none _)]
    | true =>
      obtain ⟨rfl, hafter⟩ := Outcome.run_eq_true.mp hsequence
      obtain rfl := Option.some.inj hafter
      simp only at h ⊢
      cases hdocs : batch.documents _ _ ids with
      | none =>
        rw [incVersion_incGlobalSeq_eq]
        simp
      | some docs =>
        simp only [hdocs] at h ⊢
        generalize hinsert : Database.insertMany _ _ docs insert = result at h ⊢
        obtain ⟨acknowledged, stored⟩ := result
        cases acknowledged with
        | true => cases h
        | false =>
          have hstored : stored = _ := (congrArg Prod.snd hinsert).symm
          have hunchanged : stored = db ↔ batch.payloads.length = 0 ∧
              (db.streamVersions batch.collectionName).isSome ∧ db.globalSeq.isSome := by
            apply counters_unchanged_iff
            · rw [hstored]
              rfl
            · rw [hstored]
              rfl
            · intro hnil
              rw [hstored, documents_nil (List.length_eq_zero_iff.mp hnil) hdocs, insertMany_nil]
          simp [hunchanged]

end

end MongoClient

/-! ### Both clients -/

/-- A call that returns an error has left the counters and the stored events as they were just
where the operation that failed was the first one and had no effect. -/
theorem failed_batch_unchanged (P : Type) :
    (∀ (db : PostgresClient.Tables P) batch draws counter last error,
      (db.appendBatchVersioned batch draws counter last).1 = .error error →
      ((db.appendBatchVersioned batch draws counter last).2 = db ↔
        PostgresClient.NothingDone db batch draws counter last)) ∧
    (∀ (db : MongoClient.Database P) batch ids version sequence insert error,
      (db.appendBatchVersioned batch ids version sequence insert).1 = .error error →
      ((db.appendBatchVersioned batch ids version sequence insert).2 = db ↔
        MongoClient.NothingDone db batch version sequence)) :=
  ⟨fun _ _ _ _ _ _ h => PostgresClient.unchanged_iff h,
    fun _ _ _ _ _ _ _ h => MongoClient.unchanged_iff h⟩

/-! ### A hole -/

namespace BatchFailure

def batch : PostgresClient.Batch ℕ := ⟨"order-1", "OrderPlaced", [1, 2], 0, 0⟩

def draws : PostgresClient.Draws := ⟨toString, fun i => i + 1⟩

def batchMongo : MongoClient.Batch ℕ := ⟨"order-1", "OrderPlaced", [some 1, some 2]⟩

/-- Two events whose `INSERT` is rejected after the counters have moved. -/
theorem failed_batch_unchanged_fails :
    (¬ ∀ (db : PostgresClient.Tables ℕ) batch draws counter last error,
      (db.appendBatchVersioned batch draws counter last).1 = .error error →
      (db.appendBatchVersioned batch draws counter last).2 = db) ∧
    (¬ ∀ (db : MongoClient.Database ℕ) batch ids version sequence insert error,
      (db.appendBatchVersioned batch ids version sequence insert).1 = .error error →
      (db.appendBatchVersioned batch ids version sequence insert).2 = db) := by
  constructor
  · intro hclaim
    have hkept := hclaim ⟨fun _ => none, []⟩ batch draws .done .rejected _ rfl
    exact absurd (congrFun (congrArg PostgresClient.Tables.streamVersions hkept) "order-1")
      (by decide)
  · intro hclaim
    have hkept := hclaim ⟨.empty, fun _ => none, fun _ => []⟩ batchMongo toString .done .done
      (.failed 0) _ rfl
    exact absurd (congrFun (congrArg MongoClient.Database.streamVersions hkept) "order-1")
      (by decide)

/-- Rejected counter updates leave the tables and the database as they were. -/
theorem failed_batch_unchanged_rejected :
    (PostgresClient.Tables.appendBatchVersioned ⟨fun _ => none, []⟩ batch draws .rejected .done).2
      = ⟨fun _ => none, []⟩ ∧
    (MongoClient.Database.appendBatchVersioned ⟨.empty, fun _ => none, fun _ => []⟩ batchMongo
      toString .rejected .done .done).2 = ⟨.empty, fun _ => none, fun _ => []⟩ :=
  ⟨((failed_batch_unchanged ℕ).1 _ batch draws .rejected .done _ rfl).mpr rfl,
    ((failed_batch_unchanged ℕ).2 _ batchMongo toString .rejected .done .done _ rfl).mpr (.inl rfl)⟩

end BatchFailure

end EventSourcing
