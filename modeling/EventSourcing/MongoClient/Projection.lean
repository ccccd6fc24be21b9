import EventSourcing.Bench.Consumers
import EventSourcing.Bench.Statement
import EventSourcing.Fold.Window
import EventSourcing.Text.Bytes

/-!
# The projection bench on MongoDB

`projection_bench::run_mongo` seeds a collection and fills a view from it: the documents are read
in the order of their `_id`, and the view keeps the last `seq` values. An `_id` is a random UUID,
so the order of the replay is the order of insertion where the ids happen to ascend; the view
needs it of the documents that it is to hold (`coldStart_last_iff`).
-/

namespace EventSourcing.MongoClient.Projection

open Bench Fold

/-- A document of `append_batch`. -/
structure Document where
  id : String
  eventType : String
  seq : Int64
  deriving DecidableEq

/-- A `u64` in BSON, which has `i64` only. -/
def toBson (n : UInt64) : Option Int64 :=
  if n ≤ Int64.maxValue.toUInt64 then some n.toInt64 else none

/-- `append_batch`, for events of given `seq` and with the ids that are drawn one after another:
the documents after a success. -/
def appendBatch (ids : ℕ → String) (docs : List Document) (seqs : List UInt64) :
    Option (List Document) :=
  (collect (seqs.map toBson)).bind fun seqs =>
    let docs := docs ++ seqs.mapIdx fun i seq => ⟨ids (docs.length + i), "BenchmarkEvent", seq⟩
    -- the index on `_id` is unique
    if (docs.map (·.id)).Nodup then some docs else none

/-- `(0..count).map(|_| { global_seq += 1; … })`: the `seq` of the events, and `global_seq` after
them. -/
def payloads : (count : ℕ) → (globalSeq : UInt64) → List UInt64 × UInt64
  | 0, globalSeq => ([], globalSeq)
  | count + 1, globalSeq =>
    let (rest, after) := payloads count (globalSeq + 1)
    ((globalSeq + 1) :: rest, after)

def batchSize : ℕ := 100

/-- The loop over full batches. -/
def seedBatches (ids : ℕ → String) :
    (batches : ℕ) → List Document × UInt64 → Option (List Document × UInt64)
  | 0, state => some state
  | batches + 1, (docs, globalSeq) =>
    let next := payloads batchSize globalSeq
    (appendBatch ids docs next.1).bind fun docs => seedBatches ids batches (docs, next.2)

/-- The seed phase, into a collection that has been truncated. -/
def seed (ids : ℕ → String) (seedEvents : UInt64) : Option (List Document) :=
  (seedBatches ids (seedEvents.toNat / batchSize) ([], 0)).bind fun (docs, globalSeq) =>
    let remainder := seedEvents.toNat % batchSize
    if 0 < remainder then appendBatch ids docs (payloads remainder globalSeq).1 else some docs

local instance byteOrder : LinearOrder UInt8 where
  le_refl := UInt8.le_refl
  le_trans _ _ _ := UInt8.le_trans
  le_antisymm _ _ := UInt8.le_antisymm
  le_total := UInt8.le_total
  lt_iff_le_not_ge _ _ := by
    rw [UInt8.not_le]
    exact ⟨fun h => ⟨UInt8.le_of_lt h, h⟩, fun h => h.2⟩
  toDecidableLE := inferInstance

/-- `find(doc! {}).sort(doc! { "_id": 1 })`; texts compare by their bytes. -/
def findSorted (docs : List Document) : List Document :=
  docs.insertionSort fun d d' => Text.bytes d.id ≤ Text.bytes d'.id

/-- The replay of the historical documents, all of which the cursor gives. -/
def replay (viewSize : ℕ) (docs : List Document) : List UInt64 :=
  (findSorted docs).foldl (fun view doc => pushToView view doc.seq.toUInt64 viewSize) []

/-- The view when the cold start is complete. -/
def coldStart (ids : ℕ → String) (seedEvents : UInt64) (viewSize : ℕ) : Option (List UInt64) :=
  (seed ids seedEvents).map (replay viewSize)

/-- The `seq` values of the first `n` events, in the order of insertion. -/
def insertedSeqs (n : ℕ) : List UInt64 := (List.range n).map fun i => .ofNat (i + 1)

variable {ids : ℕ → String} {docs : List Document} {seedEvents : UInt64} {viewSize : ℕ}

/-! ### The seed phase -/

/-- The first `n` documents. -/
def documents (ids : ℕ → String) (n : ℕ) : List Document :=
  (List.range n).map fun i => ⟨ids i, "BenchmarkEvent", (UInt64.ofNat (i + 1)).toInt64⟩

@[simp] lemma length_documents (n : ℕ) : (documents ids n).length = n := by simp [documents]

lemma documents_add (k count : ℕ) :
    documents ids (k + count) = documents ids k ++ (List.range count).map fun i =>
      ⟨ids (k + i), "BenchmarkEvent", (UInt64.ofNat (k + i + 1)).toInt64⟩ := by
  rw [documents, documents, List.range_add, List.map_append, List.map_map]
  rfl

lemma payloads_ofNat (count k : ℕ) :
    payloads count (.ofNat k)
      = ((List.range count).map fun i => .ofNat (k + i + 1), .ofNat (k + count)) := by
  induction count generalizing k with
  | zero => rfl
  | succ count ih =>
    have hsucc : UInt64.ofNat k + 1 = .ofNat (k + 1) := (UInt64.ofNat_add k 1).symm
    have hrange : (List.range (count + 1)).map (fun i => UInt64.ofNat (k + i + 1))
        = .ofNat (k + 1) :: (List.range count).map fun i => UInt64.ofNat (k + 1 + i + 1) := by
      rw [List.range_succ_eq_map, List.map_cons, List.map_map]
      congr 1
      exact List.map_congr_left fun i _ => congrArg UInt64.ofNat (by simp; omega)
    rw [payloads, hsucc, ih, hrange]
    simp only [Nat.add_comm count 1, Nat.add_assoc]

lemma toBson_eq_some {n : UInt64} {seq : Int64} (h : toBson n = some seq) : seq = n.toInt64 := by
  rw [toBson] at h
  split_ifs at h
  exact (Option.some.inj h).symm

lemma collect_toBson {seqs : List UInt64} {seqs' : List Int64}
    (h : collect (seqs.map toBson) = some seqs') : seqs' = seqs.map UInt64.toInt64 := by
  rw [collect_eq_some] at h
  induction seqs generalizing seqs' with
  | nil => simpa using h.symm
  | cons seq seqs ih =>
    cases seqs' with
    | nil => simp at h
    | cons seq' seqs' =>
      rw [List.map_cons, List.map_cons, List.cons.injEq] at h
      rw [List.map_cons, toBson_eq_some h.1, ih h.2]

/-- A batch after the first `k` documents. -/
lemma appendBatch_documents {k count : ℕ}
    (h : appendBatch ids (documents ids k) (payloads count (.ofNat k)).1 = some docs) :
    docs = documents ids (k + count) ∧ (docs.map (·.id)).Nodup := by
  rw [appendBatch, Option.bind_eq_some_iff] at h
  obtain ⟨seqs, hseqs, h⟩ := h
  have hdocs : documents ids k ++ seqs.mapIdx
      (fun i seq => ⟨ids ((documents ids k).length + i), "BenchmarkEvent", seq⟩)
      = documents ids (k + count) := by
    rw [collect_toBson hseqs, payloads_ofNat, documents_add, length_documents]
    congr 1
    apply List.ext_getElem
    · simp
    · intro i hi hi'
      simp
  simp only [hdocs] at h
  split_ifs at h with hnodup
  obtain rfl := Option.some.inj h
  exact ⟨rfl, hnodup⟩

lemma seedBatches_documents {batches k : ℕ} {globalSeq : UInt64}
    (hk : ((documents ids k).map (·.id)).Nodup)
    (h : seedBatches ids batches (documents ids k, .ofNat k) = some (docs, globalSeq)) :
    docs = documents ids (k + batchSize * batches) ∧ globalSeq = .ofNat (k + batchSize * batches)
      ∧ (docs.map (·.id)).Nodup := by
  induction batches generalizing k with
  | zero =>
    rw [seedBatches, Option.some.injEq, Prod.mk.injEq] at h
    obtain ⟨rfl, rfl⟩ := h
    exact ⟨rfl, rfl, hk⟩
  | succ batches ih =>
    rw [seedBatches] at h
    obtain ⟨docs', happend, hrest⟩ := Option.bind_eq_some_iff.mp h
    obtain ⟨rfl, hnodup⟩ := appendBatch_documents happend
    rw [payloads_ofNat] at hrest
    rw [Nat.mul_succ, Nat.add_comm (batchSize * batches), ← Nat.add_assoc]
    exact ih hnodup hrest

/-- What a seed phase that succeeds leaves. -/
lemma seed_eq_some (h : seed ids seedEvents = some docs) :
    docs = documents ids seedEvents.toNat ∧ (docs.map (·.id)).Nodup := by
  rw [seed, Option.bind_eq_some_iff] at h
  obtain ⟨⟨docs', globalSeq⟩, hbatches, h⟩ := h
  obtain ⟨rfl, rfl, hnodup⟩ :=
    seedBatches_documents (k := 0) (by simp [documents]) hbatches
  have hsum := Nat.div_add_mod seedEvents.toNat batchSize
  simp only [Nat.zero_add] at h hnodup
  split_ifs at h with hremainder
  · rw [← hsum]
    exact appendBatch_documents h
  · obtain rfl := Option.some.inj h
    have hzero : seedEvents.toNat % batchSize = 0 := Nat.eq_zero_of_not_pos hremainder
    rw [hzero, Nat.add_zero] at hsum
    rw [hsum] at hnodup ⊢
    exact ⟨rfl, hnodup⟩

/-! ### The replay -/

/-- The view holds the end of what it is fed. -/
lemma replay_eq (hsize : viewSize ≠ 0) (docs : List Document) :
    replay viewSize docs = ((findSorted docs).rtake viewSize).map fun d => d.seq.toUInt64 := by
  rw [map_rtake, ← foldl_slide_nil hsize, List.foldl_map]
  rfl

/-- The `seq` of a document tells its place. -/
lemma documents_seqs (ids : ℕ → String) (n : ℕ) :
    (documents ids n).map (fun d => d.seq.toUInt64) = insertedSeqs n := by
  rw [documents, insertedSeqs, List.map_map]
  exact List.map_congr_left fun i _ => UInt64.toUInt64_toInt64 _

lemma insertedSeqs_nodup {n : ℕ} (h : n < 2 ^ 64) : (insertedSeqs n).Nodup := by
  refine List.Nodup.map_on ?_ List.nodup_range
  intro i hi j hj heq
  rw [List.mem_range] at hi hj
  have hnat := congrArg UInt64.toNat heq
  rw [UInt64.toNat_ofNat', UInt64.toNat_ofNat', Nat.mod_eq_of_lt (by omega),
    Nat.mod_eq_of_lt (by omega)] at hnat
  omega

/-- Documents are told apart by what `f` gives for them. -/
lemma map_inj_on {α β : Type} {f : α → β} {all l l' : List α} (h : (all.map f).Nodup)
    (hl : ∀ a ∈ l, a ∈ all) (hl' : ∀ a ∈ l', a ∈ all) : l.map f = l'.map f ↔ l = l' := by
  refine ⟨fun heq => ?_, congrArg _⟩
  have hunique := List.inj_on_of_nodup_map h
  induction l generalizing l' with
  | nil => simpa [eq_comm] using heq
  | cons a l ih =>
    cases l' with
    | nil => simp at heq
    | cons a' l' =>
      rw [List.map_cons, List.map_cons, List.cons.injEq] at heq
      have ha := hunique (hl a (by simp)) (hl' a' (by simp)) heq.1
      rw [ha, ih (fun b hb => hl b (by simp [hb])) (fun b hb => hl' b (by simp [hb])) heq.2]

/-- When the cold start is complete, the view holds the `seq` values of the last events in the
order of insertion if and only if the id of each of the last documents is above those of all the
documents inserted before it. -/
theorem coldStart_last_iff {view : List UInt64} (hsize : 1 ≤ viewSize)
    (hview : coldStart ids seedEvents viewSize = some view) :
    view = (insertedSeqs seedEvents.toNat).rtake viewSize
      ↔ ∀ i j, i < j → j < seedEvents.toNat → seedEvents.toNat ≤ j + viewSize →
        Text.bytes (ids i) < Text.bytes (ids j) := by
  obtain ⟨docs, hseed, rfl⟩ := Option.map_eq_some_iff.mp hview
  obtain ⟨rfl, hids⟩ := seed_eq_some hseed
  have hkeys : ((documents ids seedEvents.toNat).map fun d => Text.bytes d.id).Nodup := by
    have := hids.map Text.bytes_injective
    rwa [List.map_map] at this
  have hseqs := insertedSeqs_nodup seedEvents.toNat_lt
  rw [← documents_seqs ids] at hseqs
  rw [replay_eq (by omega), ← documents_seqs ids, ← map_rtake, map_inj_on hseqs ?_ ?_,
    findSorted, rtake_insertionSort_iff hkeys, end_iff]
  · simp only [length_documents]
    constructor
    · intro h i j hij hj hlast
      have hlt := h i j hij hj hlast
      simpa [documents] using hlt
    · intro h i j hij hj hlast
      simpa [documents] using h i j hij hj hlast
  · intro d hd
    exact (List.mem_insertionSort _).mp (List.mem_of_mem_drop hd)
  · intro d hd
    exact List.mem_of_mem_drop hd

/-- Two ids of version 4. -/
def twoIds : ℕ → String
  | 0 => "16fd2706-8baf-433b-82eb-8c7fada847da"
  | _ => "f47ac10b-58cc-4372-a567-0e02b2c3d479"

theorem coldStart_last_of_two :
    coldStart twoIds 2 1 = some [2] ∧ [2] = (insertedSeqs 2).rtake 1 := by
  have hview : coldStart twoIds 2 1 = some [2] := by decide
  refine ⟨hview, (coldStart_last_iff (by decide) hview).mpr ?_⟩
  intro i j hij hj _
  have htwo : UInt64.toNat 2 = 2 := rfl
  obtain rfl : j = 1 := by omega
  obtain rfl : i = 0 := by omega
  decide

/-- A view of one event holds the first event of two, where its id is above that of the second. -/
theorem coldStart_last_fails :
    ¬ ∀ (ids : ℕ → String) (seedEvents : UInt64) (viewSize : ℕ) (view : List UInt64),
      1 ≤ viewSize → coldStart ids seedEvents viewSize = some view →
      view = (insertedSeqs seedEvents.toNat).rtake viewSize := by
  intro h
  have := h (fun i => twoIds (1 - i)) 2 1 [1] (by decide) (by decide)
  exact absurd this (by decide)

end EventSourcing.MongoClient.Projection
