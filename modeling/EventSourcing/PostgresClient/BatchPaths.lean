import EventSourcing.BatchFailure
import Mathlib.Algebra.Group.Int.Defs
import Mathlib.Data.Int.ConditionallyCompleteOrder
import Mathlib.Data.List.Nodup
import Mathlib.Order.Lattice.Nat
import Mathlib.Order.Monotone.Basic

/-!
# The two paths of `append_batch_versioned`

A single event is appended by one statement that moves the counter and inserts the row; a batch
moves the counter by its length and then inserts all its rows. Where both succeed they leave the
same counter and, up to the ids, the same rows. A batch binds the parameters of all its rows in
one statement and so has a greatest length; single events have none.
-/

namespace EventSourcing.PostgresClient

open Bench

variable {P : Type}

namespace Tables

variable (db : Tables P)

/-- The greatest value of a `BIGINT`. -/
def maxBigint : Int := 2 ^ 63 - 1

/-- An upsert whose counter would be out of range is rejected. -/
def upsertOutcome (s : String) (n : ℕ) : Outcome :=
  if db.version s + n ≤ maxBigint then .done else .rejected

/-- A call of `append_batch_versioned` that has the database to itself. The upsert is the first
statement of a batch, and a part of the statement for a single event. -/
def append (batch : Batch P) (draws : Draws) : Except String Int × Tables P :=
  let upsert := db.upsertOutcome batch.streamId batch.payloads.length
  db.appendBatchVersioned batch draws upsert
    (if batch.payloads.length = 1 then upsert else .done)

end Tables

/-- What is left of the draws after the first row. -/
def Draws.tail (draws : Draws) : Draws where
  eventId i := draws.eventId (i + 1)
  globalPosition i := draws.globalPosition (i + 1)

/-- A batch of its own for each payload. -/
def Batch.singles (batch : Batch P) : List (Batch P) :=
  batch.payloads.mapIdx fun i payload =>
    { batch with payloads := [payload], baseSeq := batch.baseSeq + .ofNat i }

/-- One call after the other, each with a single row to draw for: the results, and the tables
at the end. -/
def Tables.appendEach : List (Batch P) → Draws → Tables P → List (Except String Int) × Tables P
  | [], _, db => ([], db)
  | single :: rest, draws, db =>
    let (result, db) := db.append single draws
    let (results, db) := appendEach rest draws.tail db
    (result :: results, db)

/-! ### Tables up to ids -/

/-- A row without its id and its position. -/
def BenchEvent.columns (e : BenchEvent P) : String × Int × String × Int64 × Int64 × P :=
  (e.streamId, e.streamVersion, e.eventType, e.seq, e.taskId, e.payload)

/-- The same counters and the same rows, up to the ids and up to the values of the positions,
which come in the same order. -/
structure SameUpToIds (db db' : Tables P) : Prop where
  streamVersions : db.streamVersions = db'.streamVersions
  columns : db.benchEvents.map (·.columns) = db'.benchEvents.map (·.columns)
  positions : ∀ p ∈ db.benchEvents.zip db'.benchEvents,
    ∀ q ∈ db.benchEvents.zip db'.benchEvents,
      p.1.globalPosition < q.1.globalPosition ↔ p.2.globalPosition < q.2.globalPosition

/-- A batch and its events one by one: all calls succeed, and the tables are the same. -/
def PathsAgree (db : Tables P) (batch : Batch P) (draws draws' : Draws) : Prop :=
  (db.append batch draws).1 = .ok batch.payloads.length ∧
    (∀ result ∈ (db.appendEach batch.singles draws').1, result = .ok 1) ∧
    SameUpToIds (db.append batch draws).2 (db.appendEach batch.singles draws').2

/-- What is drawn is new: an id is drawn once, and a position lies above all before it. -/
structure Tables.Fresh (db : Tables P) (draws : Draws) : Prop where
  eventId : Function.Injective draws.eventId
  unstored : ∀ e ∈ db.benchEvents, ∀ i, e.eventId ≠ draws.eventId i
  globalPosition : StrictMono draws.globalPosition
  above : ∀ e ∈ db.benchEvents, ∀ i, e.globalPosition < draws.globalPosition i

/-- The stored versions of a stream lie below its counter. -/
def Tables.Below (db : Tables P) (s : String) : Prop :=
  ∀ e ∈ db.benchEvents, e.streamId = s → e.streamVersion < db.version s

/-- One statement can bind the parameters of the batch, and the counter has room for it. -/
def Tables.Fits (db : Tables P) (batch : Batch P) : Prop :=
  7 * batch.payloads.length ≤ maxBinds ∧
    db.version batch.streamId + batch.payloads.length ≤ maxBigint

instance (db : Tables P) (batch : Batch P) : Decidable (db.Fits batch) :=
  inferInstanceAs (Decidable (_ ∧ _))

/-- The tables after a batch: the counter is moved, the rows are there. -/
def Tables.stored (db : Tables P) (batch : Batch P) (draws : Draws) : Tables P where
  streamVersions := (db.upsertVersion batch.streamId batch.payloads.length).streamVersions
  benchEvents := db.benchEvents ++ batch.rows (db.version batch.streamId) draws

/-! ### One call -/

section Append

variable {db : Tables P} {batch : Batch P} {draws : Draws}

lemma Batch.eventIds_rows (v : Int) : (batch.rows v draws).map (·.eventId)
    = (List.range batch.payloads.length).map draws.eventId := by
  apply List.ext_getElem <;> simp [Batch.rows]

/-- New rows violate no key, whatever the counters. -/
lemma insert_rows (h : db.Fresh draws) (hbelow : db.Below batch.streamId)
    (streamVersions : String → Option Int) :
    Tables.insert ⟨streamVersions, db.benchEvents⟩ (batch.rows (db.version batch.streamId) draws)
      = some ⟨streamVersions,
          db.benchEvents ++ batch.rows (db.version batch.streamId) draws⟩ := by
  rw [Tables.insert, if_neg]
  rintro (⟨row, hrow, e, he, hid⟩ | ⟨row, hrow, e, he, hstream, hversion⟩ | hdup)
  · obtain ⟨i, hi, rfl⟩ := List.mem_mapIdx.mp hrow
    exact h.unstored e he i hid
  · obtain ⟨i, hi, rfl⟩ := List.mem_mapIdx.mp hrow
    have hlt : e.streamVersion < db.version batch.streamId := hbelow e he hstream
    simp only at hversion
    omega
  · rw [Batch.eventIds_rows] at hdup
    exact hdup (List.Nodup.map h.eventId List.nodup_range)

lemma append_of_fits (h : db.Fresh draws) (hbelow : db.Below batch.streamId)
    (hne : batch.payloads ≠ []) (hfits : db.Fits batch) :
    db.append batch draws = (.ok batch.payloads.length, db.stored batch draws) := by
  have hpos : 0 < batch.payloads.length := List.length_pos_of_ne_nil hne
  obtain ⟨hbinds, hroom⟩ := hfits
  rw [Tables.append, Tables.upsertOutcome, if_pos hroom]
  by_cases hone : batch.payloads.length = 1
  · have hinsert : db.upsertAndInsert batch draws = some (db.stored batch draws) := by
      rw [Tables.upsertAndInsert, Tables.upsertVersion, insert_rows h hbelow, Tables.stored,
        Tables.upsertVersion, hone]
      rfl
    rw [appendBatchVersioned_single hone, if_pos hone, hinsert, hone]
    rfl
  · have hinsert : (db.upsertVersion batch.streamId batch.payloads.length).insertBatch batch
        (db.version batch.streamId) draws = some (db.stored batch draws) := by
      rw [Tables.insertBatch, if_neg (by omega), Tables.upsertVersion, insert_rows h hbelow]
      rfl
    rw [appendBatchVersioned_batch (by omega), if_neg hone]
    simp only [Outcome.run, hinsert]

/-- A batch that is too long, or too long for its counter, fails. -/
lemma fits_of_append {n : Int} (hne : batch.payloads ≠ [])
    (h : (db.append batch draws).1 = .ok n) : db.Fits batch := by
  have hpos : 0 < batch.payloads.length := List.length_pos_of_ne_nil hne
  by_contra hfits
  rw [Tables.append] at h
  by_cases hroom : db.version batch.streamId + batch.payloads.length ≤ Tables.maxBigint
  · -- the counter moves, and the `INSERT` has too many parameters
    have hbinds : Tables.maxBinds < 7 * batch.payloads.length := by
      by_contra hbinds
      exact hfits ⟨by omega, hroom⟩
    rw [Tables.upsertOutcome, if_pos hroom, appendBatchVersioned_over_maxBinds hbinds] at h
    cases h
  · rw [Tables.upsertOutcome, if_neg hroom] at h
    by_cases hone : batch.payloads.length = 1
    · rw [appendBatchVersioned_single hone, if_pos hone] at h
      cases h
    · rw [appendBatchVersioned_batch (by omega)] at h
      cases h

end Append

/-! ### One call for each event -/

section Singles

variable {db : Tables P} {batch : Batch P} {draws draws' : Draws} {payload : P}
  {payloads : List P}

/-- The batch without its first event. -/
def Batch.rest (batch : Batch P) (payloads : List P) : Batch P :=
  { batch with payloads := payloads, baseSeq := batch.baseSeq + 1 }

/-- The batch of its first event. -/
def Batch.single (batch : Batch P) (payload : P) : Batch P := { batch with payloads := [payload] }

lemma add_one_ofNat (n : UInt64) (i : ℕ) : n + 1 + .ofNat i = n + .ofNat (i + 1) := by
  rw [UInt64.ofNat_add, UInt64.add_assoc, UInt64.add_comm 1]
  rfl

lemma Batch.singles_cons (h : batch.payloads = payload :: payloads) :
    batch.singles = batch.single payload :: (batch.rest payloads).singles := by
  rw [Batch.singles, h, List.mapIdx_cons]
  simp [Batch.singles, Batch.single, Batch.rest, add_one_ofNat]

/-- The counter of the first event is the version before the batch, that of the others goes on
from there. -/
lemma Batch.rows_cons (h : batch.payloads = payload :: payloads) (v : Int) :
    batch.rows v draws
      = (batch.single payload).rows v draws ++ (batch.rest payloads).rows (v + 1) draws.tail := by
  rw [Batch.rows, h, List.mapIdx_cons]
  simp [Batch.rows, Batch.single, Batch.rest, Draws.tail, add_one_ofNat, Int.add_assoc,
    Int.add_comm 1]

lemma upsertVersion_upsertVersion (s : String) (m n : Int) :
    (db.upsertVersion s m).upsertVersion s n = db.upsertVersion s (m + n) := by
  simp [Tables.upsertVersion, Tables.version, Int.add_assoc]

lemma version_stored :
    (db.stored batch draws).version batch.streamId
      = db.version batch.streamId + batch.payloads.length := by
  simp [Tables.stored, Tables.version, Tables.upsertVersion]

lemma version_stored_single : (db.stored (batch.single payload) draws).version batch.streamId
    = db.version batch.streamId + 1 :=
  @version_stored P db (batch.single payload) draws

/-- Storing the first event and then the others is storing the batch. -/
lemma stored_cons (h : batch.payloads = payload :: payloads) :
    (db.stored (batch.single payload) draws).stored (batch.rest payloads) draws.tail
      = db.stored batch draws := by
  have hcounter :
      ((db.stored (batch.single payload) draws).upsertVersion batch.streamId
        payloads.length).streamVersions
        = (db.upsertVersion batch.streamId batch.payloads.length).streamVersions := by
    rw [h, List.length_cons, Int.natCast_succ, Int.add_comm, ← upsertVersion_upsertVersion]
    rfl
  have hrows : (db.stored (batch.single payload) draws).benchEvents
      ++ (batch.rest payloads).rows
        ((db.stored (batch.single payload) draws).version batch.streamId) draws.tail
        = db.benchEvents ++ batch.rows (db.version batch.streamId) draws := by
    rw [version_stored_single, Batch.rows_cons h, ← List.append_assoc]
    rfl
  exact congrArg₂ Tables.mk hcounter hrows

/-- The next rows are new to what has been stored. -/
lemma Tables.Fresh.tail (h : db.Fresh draws) :
    (db.stored (batch.single payload) draws).Fresh draws.tail where
  eventId i j hij := Nat.succ.inj (h.eventId hij)
  unstored e he i := by
    rcases List.mem_append.mp he with he | he
    · exact h.unstored e he (i + 1)
    · obtain ⟨k, hk, rfl⟩ := List.mem_mapIdx.mp he
      obtain rfl : k = 0 := Nat.lt_one_iff.mp hk
      exact fun hid => absurd (h.eventId hid) (Nat.succ_ne_zero i).symm
  globalPosition i j hij := h.globalPosition (Nat.succ_lt_succ hij)
  above e he i := by
    rcases List.mem_append.mp he with he | he
    · exact h.above e he (i + 1)
    · obtain ⟨k, hk, rfl⟩ := List.mem_mapIdx.mp he
      obtain rfl : k = 0 := Nat.lt_one_iff.mp hk
      exact h.globalPosition (Nat.succ_pos i)

lemma Tables.Below.stored (h : db.Below batch.streamId) :
    (db.stored batch draws).Below batch.streamId := by
  intro e he hs
  rw [version_stored]
  rcases List.mem_append.mp he with he | he
  · have hlt : e.streamVersion < db.version batch.streamId := h e he hs
    omega
  · obtain ⟨k, hk, rfl⟩ := List.mem_mapIdx.mp he
    simpa using hk

/-- By induction on the payloads: each call stores the first of the events that are left, and
its counter is where the next one goes on. -/
lemma appendEach_of_room (h : db.Fresh draws) (hbelow : db.Below batch.streamId)
    (hne : batch.payloads ≠ [])
    (hroom : db.version batch.streamId + batch.payloads.length ≤ Tables.maxBigint) :
    (∀ result ∈ (db.appendEach batch.singles draws).1, result = .ok 1) ∧
      (db.appendEach batch.singles draws).2 = db.stored batch draws := by
  generalize hpayloads : batch.payloads = payloads at hne
  induction payloads generalizing db batch draws with
  | nil => exact absurd rfl hne
  | cons payload payloads ih =>
    have hfits : db.Fits (batch.single payload) := by
      refine ⟨by simp [Batch.single, Tables.maxBinds], ?_⟩
      simp only [hpayloads, List.length_cons] at hroom
      simp only [Batch.single, List.length_singleton]
      omega
    have hcall : db.append (batch.single payload) draws
        = (.ok 1, db.stored (batch.single payload) draws) :=
      append_of_fits h hbelow (by simp [Batch.single]) hfits
    rw [Batch.singles_cons hpayloads, Tables.appendEach, hcall]
    simp only [List.forall_mem_cons, true_and]
    cases payloads with
    | nil =>
      have hsingle : batch.single payload = batch := by
        rw [Batch.single, ← hpayloads]
      rw [hsingle]
      exact ⟨fun result hresult => absurd hresult List.not_mem_nil, rfl⟩
    | cons next payloads =>
      have hroom' : (db.stored (batch.single payload) draws).version batch.streamId
          + (next :: payloads).length ≤ Tables.maxBigint := by
        rw [version_stored_single]
        simp only [hpayloads, List.length_cons] at hroom ⊢
        omega
      have hbelow' : (db.stored (batch.single payload) draws).Below batch.streamId :=
        @Tables.Below.stored P db (batch.single payload) draws hbelow
      have hrest := @ih _ (batch.rest (next :: payloads)) _ h.tail hbelow' hroom' rfl
        (List.cons_ne_nil _ _)
      rwa [stored_cons hpayloads] at hrest

end Singles

/-! ### Both paths -/

section Paths

variable {db : Tables P} {batch : Batch P} {draws draws' : Draws}

lemma Batch.columns_rows (v : Int) :
    (batch.rows v draws).map (·.columns) = (batch.rows v draws').map (·.columns) := by
  apply List.ext_getElem <;> simp [Batch.rows, BenchEvent.columns]

lemma exists_of_mem_zip_rows {v : Int} {p : BenchEvent P × BenchEvent P}
    (h : p ∈ (batch.rows v draws).zip (batch.rows v draws')) :
    ∃ i, p.1.globalPosition = draws.globalPosition i ∧
      p.2.globalPosition = draws'.globalPosition i := by
  obtain ⟨i, hi, rfl⟩ := List.mem_iff_getElem.mp h
  refine ⟨i, ?_, ?_⟩ <;> simp [Batch.rows]

lemma mem_zip_self {α : Type} {l : List α} {p : α × α} (h : p ∈ l.zip l) :
    p.1 ∈ l ∧ p.1 = p.2 := by
  obtain ⟨i, hi, rfl⟩ := List.mem_iff_getElem.mp h
  simp

/-- A batch stored under two draws: the rows of before are shared and lie below the new ones,
which come in the order of the batch. -/
lemma sameUpToIds_stored (h : db.Fresh draws) (h' : db.Fresh draws') :
    SameUpToIds (db.stored batch draws) (db.stored batch draws') where
  streamVersions := rfl
  columns := by
    simp only [Tables.stored, List.map_append]
    rw [Batch.columns_rows]
  positions := by
    simp only [Tables.stored, List.zip_append, List.mem_append]
    rintro p (hp | hp) q (hq | hq)
    · rw [(mem_zip_self hp).2, (mem_zip_self hq).2]
    · obtain ⟨i, hi, hi'⟩ := exists_of_mem_zip_rows hq
      obtain ⟨hmem, heq⟩ := mem_zip_self hp
      rw [hi, hi', ← heq]
      exact iff_of_true (h.above _ hmem i) (h'.above _ hmem i)
    · obtain ⟨i, hi, hi'⟩ := exists_of_mem_zip_rows hp
      obtain ⟨hmem, heq⟩ := mem_zip_self hq
      rw [hi, hi', ← heq]
      exact iff_of_false (h.above _ hmem i).le.not_gt (h'.above _ hmem i).le.not_gt
    · obtain ⟨i, hi, hi'⟩ := exists_of_mem_zip_rows hp
      obtain ⟨j, hj, hj'⟩ := exists_of_mem_zip_rows hq
      rw [hi, hi', hj, hj', h.globalPosition.lt_iff_lt, h'.globalPosition.lt_iff_lt]

end Paths

/-- On tables that no one else writes to, whose rows of the stream lie below its counter: the
batch and its events one by one all succeed and leave the same tables up to ids if and only if
one statement can bind the parameters of the batch and the counter has room for it. -/
theorem paths_agree_iff_fits {db : Tables P} {batch : Batch P} {draws draws' : Draws}
    (hbelow : db.Below batch.streamId) (hne : batch.payloads ≠ []) (h : db.Fresh draws)
    (h' : db.Fresh draws') :
    PathsAgree db batch draws draws' ↔ db.Fits batch := by
  constructor
  · intro hagree
    exact fits_of_append hne hagree.1
  · intro hfits
    have hbatch := append_of_fits h hbelow hne hfits
    obtain ⟨hresults, hsingles⟩ := appendEach_of_room h' hbelow hne hfits.2
    refine ⟨by rw [hbatch], hresults, ?_⟩
    rw [hbatch, hsingles]
    exact sameUpToIds_stored h h'

/-- Ids of different lengths, and the positions `1, 2, …`. -/
def countingDraws : Draws where
  eventId i := String.ofList (List.replicate i 'e')
  globalPosition i := i + 1

lemma fresh_countingDraws : emptyTables.Fresh countingDraws where
  eventId i j hij := by
    have hlength := congrArg (fun id => id.toList.length) hij
    simpa [countingDraws] using hlength
  unstored e he := absurd he List.not_mem_nil
  globalPosition i j hij := by
    simpa [countingDraws] using hij
  above e he := absurd he List.not_mem_nil

theorem paths_agree_iff_fits_three :
    PathsAgree emptyTables (benchBatch 3) countingDraws countingDraws :=
  (paths_agree_iff_fits (fun e he => absurd he List.not_mem_nil) (by decide) fresh_countingDraws
    fresh_countingDraws).mpr (by decide)

lemma length_benchBatch (n : ℕ) : (benchBatch n).payloads.length = n := List.length_range

/-- A batch of `9363` events would bind `65541` parameters. -/
theorem paths_agree_fails : ¬ ∀ (db : Tables ℕ) (batch : Batch ℕ) (draws draws' : Draws),
    db.Below batch.streamId → batch.payloads ≠ [] → db.Fresh draws → db.Fresh draws' →
      PathsAgree db batch draws draws' := by
  intro hclaim
  have hne : (benchBatch 9363).payloads ≠ [] := by
    refine List.ne_nil_of_length_pos ?_
    rw [length_benchBatch]
    omega
  have hagree := hclaim emptyTables (benchBatch 9363) countingDraws countingDraws
    (fun e he => absurd he List.not_mem_nil) hne fresh_countingDraws fresh_countingDraws
  have hfits := (fits_of_append hne hagree.1).1
  rw [length_benchBatch, Tables.maxBinds] at hfits
  omega

end EventSourcing.PostgresClient
