import EventSourcing.Concurrency.Numbering
import EventSourcing.HotTail.Runner
import EventSourcing.KurrentDB.Stream
import EventSourcing.MongoClient.Appends

/-!
# The databases of the hot tail benches

KurrentDB and MongoDB as the benches use them. On KurrentDB the tail is read backwards from the
end of the stream; on MongoDB it is what has the greatest versions, and the versions ascend with
the inserts because there is one writer. With that the cached tail of all four runners follows
the stream (`cached_tail`).
-/

namespace EventSourcing.HotTail

open Concurrency Events
open Bench (Failure Outcome collect collect_eq_some)
open Text (Json)
open KurrentDB.Stream (Missing SaysNotFound)
open MongoClient (BenchDocument Batch Database InsertOutcome)

/-! ### Stored events -/

namespace Codec

variable {α β : Type} (codec : Codec α β)

/-- The values that can be read. -/
def decodeAll (stored : List β) : List α := stored.filterMap codec.decode

variable {codec} {values : List α} {stored : List β}

@[simp] lemma decodeAll_append {stored' : List β} :
    codec.decodeAll (stored ++ stored') = codec.decodeAll stored ++ codec.decodeAll stored' :=
  List.filterMap_append

lemma decode_of_collect (h : collect (values.map codec.encode) = some stored) :
    stored.map codec.decode = values.map some := by
  have hall := collect_eq_some.mp h
  apply List.ext_getElem
  · simpa using (congrArg List.length hall).symm
  · intro i hi hi'
    rw [List.length_map] at hi hi'
    have hget : codec.encode values[i] = some stored[i] := by
      simpa [hi, hi'] using congrArg (·[i]?) hall
    rw [List.getElem_map, List.getElem_map, codec.decode_encode hget]

/-- What has been stored is read as the values it was stored for. -/
lemma decodeAll_of_collect (h : collect (values.map codec.encode) = some stored) :
    codec.decodeAll stored = values := by
  have hdecode := congrArg (List.filterMap id) (decode_of_collect h)
  simpa [decodeAll, List.filterMap_map] using hdecode

lemma isSome_of_collect (h : collect (values.map codec.encode) = some stored) :
    ∀ b ∈ stored, (codec.decode b).isSome := by
  intro b hb
  have hmem := List.mem_map_of_mem (f := codec.decode) hb
  rw [decode_of_collect h] at hmem
  obtain ⟨a, -, ha⟩ := List.mem_map.mp hmem
  rw [← ha, Option.isSome_some]

/-- The values at the end, read from the newest on and put in order again. -/
lemma decodeAll_newest (h : ∀ b ∈ stored, (codec.decode b).isSome) (n : ℕ) :
    (codec.decodeAll (stored.reverse.take n)).reverse = (codec.decodeAll stored).rtake n := by
  rw [decodeAll, ← List.filterMap_reverse, Fold.reverse_take_reverse, Fold.filterMap_rtake h,
    decodeAll]

end Codec

/-! ### KurrentDB -/

section

variable (json : Codec BenchmarkEvent Json) (missing : Missing) (streamName : String)

/-- The benchmark events of a stream, oldest first. -/
def kurrentEvents (stream : KurrentDB.Stream) : List BenchmarkEvent :=
  json.decodeAll (stream.events.map (·.data))

/-- `KurrentClient::append_batch`, and `append` for a batch of one. -/
def kurrentAppend (stream : KurrentDB.Stream) (payloads : List BenchmarkEvent)
    (outcome : Outcome) : Bool × KurrentDB.Stream :=
  match collect (payloads.map json.encode) with
  | none => (false, stream)
  | some events =>
    outcome.run (some (stream.append (events.map fun data => ("BenchmarkEvent", data)))) stream

/-- `KurrentClient::read_last_n_bench_events` -/
def kurrentReadLastN (stream : KurrentDB.Stream) (n : UInt64) :
    Except Failure (List BenchmarkEvent) :=
  if stream.events = [] then
    match missing with
    | .atOpening msg =>
      if SaysNotFound msg then .ok []
      else .error (.failed ("read_last_n '" ++ streamName ++ "' failed: " ++ msg))
    -- the capacity is allocated before the first `next`
    | .atNext e =>
      (withCapacity n).bind fun _ =>
        .error (.failed ("error reading '" ++ streamName ++ "': " ++ e))
  else
    (withCapacity n).map fun _ =>
      (json.decodeAll ((stream.events.reverse.take n.toNat).map (·.data))).reverse

/-- KurrentDB for the benches; the stream may hold benchmark events already. -/
def kurrentDb : Backend KurrentDB.Stream Outcome where
  init stream := ∀ e ∈ stream.events, (json.decode e.data).isSome
  size stream := stream.events.length
  prepare stream _ := (true, stream)
  append := kurrentAppend json
  readLastNBenchEvents := kurrentReadLastN json missing streamName

variable {json missing streamName}

lemma data_append (stream : KurrentDB.Stream) (events : List Json) :
    (stream.append (events.map fun data => ("BenchmarkEvent", data))).events.map (·.data)
      = stream.events.map (·.data) ++ events := by
  rw [KurrentDB.Stream.append, List.map_append]
  congr 1
  apply List.ext_getElem <;> simp [KurrentDB.Stream.record]

/-- What an append leaves: what was there, or that and the batch. -/
lemma kurrentAppend_cases {stream stream' : KurrentDB.Stream} {batch : List BenchmarkEvent}
    {outcome : Outcome} {ok : Bool} (hs : kurrentAppend json stream batch outcome = (ok, stream')) :
    (∃ events, collect (batch.map json.encode) = some events ∧
      stream' = stream.append (events.map fun data => ("BenchmarkEvent", data))) ∨
      ok = false ∧ stream' = stream := by
  rw [kurrentAppend] at hs
  split at hs
  · obtain ⟨rfl, rfl⟩ := Prod.mk.inj hs
    exact .inr ⟨rfl, rfl⟩
  · rename_i events hevents
    cases ok with
    | true =>
      obtain ⟨-, happend⟩ := Outcome.run_eq_true.mp hs
      exact .inl ⟨events, hevents, (Option.some.inj happend).symm⟩
    | false =>
      rcases Outcome.run_eq_false.mp hs with ⟨-, happend⟩ | ⟨-, hsame⟩
      · exact .inl ⟨events, hevents, (Option.some.inj happend).symm⟩
      · exact .inr ⟨rfl, hsame.symm⟩

lemma length_kurrentEvents {stream : KurrentDB.Stream}
    (hdecode : ∀ data ∈ stream.events.map (·.data), (json.decode data).isSome) :
    (kurrentEvents json stream).length = stream.events.length := by
  rw [kurrentEvents, Codec.decodeAll, List.filterMap_length_eq_length.mpr hdecode,
    List.length_map]

lemma kurrentReadLastN_eq {stream : KurrentDB.Stream} {n : UInt64} {tail : List BenchmarkEvent}
    (hdecode : ∀ data ∈ stream.events.map (·.data), (json.decode data).isSome)
    (hs : kurrentReadLastN json missing streamName stream n = .ok tail) :
    tail = (kurrentEvents json stream).rtake n.toNat := by
  unfold kurrentReadLastN at hs
  by_cases hempty : stream.events = []
  · -- a stream that is not found gives no events, any other error is one of the read
    have hnil : tail = [] := by
      rw [if_pos hempty] at hs
      cases missing with
      | atOpening msg =>
        by_cases hmsg : SaysNotFound msg
        · simp only [if_pos hmsg] at hs
          exact (Except.ok.inj hs).symm
        · simp [hmsg] at hs
      | atNext msg => cases hcapacity : withCapacity n <;> simp [hcapacity, Except.bind] at hs
    simp [hnil, kurrentEvents, hempty, Codec.decodeAll]
  · rw [if_neg hempty] at hs
    cases hcapacity : withCapacity n with
    | error reason =>
      rw [hcapacity] at hs
      cases hs
    | ok =>
      rw [hcapacity] at hs
      obtain rfl := Except.ok.inj hs
      rw [kurrentEvents, ← Codec.decodeAll_newest hdecode, List.map_take, List.map_reverse]

/-- KurrentDB keeps the laws of the benches. -/
theorem kurrentDb_laws : (kurrentDb json missing streamName).Laws
    (fun stream => ∀ data ∈ stream.events.map (·.data), (json.decode data).isSome)
    (kurrentEvents json) where
  prepare := by
    intro db db' answers hinit hs
    obtain ⟨-, rfl⟩ := Prod.mk.inj hs
    exact List.forall_mem_map.mpr hinit
  append := by
    intro db db' batch answer ok hinv hs
    rcases kurrentAppend_cases hs with ⟨events, hevents, rfl⟩ | ⟨rfl, rfl⟩
    · rw [kurrentEvents, data_append]
      refine ⟨?_, batch, List.prefix_rfl, ?_, fun _ => rfl⟩
      · intro data hdata
        rcases List.mem_append.mp hdata with hdata | hdata
        · exact hinv data hdata
        · exact Codec.isSome_of_collect hevents data hdata
      · rw [Codec.decodeAll_append, Codec.decodeAll_of_collect hevents, kurrentEvents]
    · exact ⟨hinv, [], List.nil_prefix, (List.append_nil _).symm, by simp⟩
  size hinv := (length_kurrentEvents hinv).symm
  read hinv _ := kurrentReadLastN_eq hinv

end

/-! ### MongoDB -/

section

variable {P : Type} (bson : Codec BenchmarkEvent P) (name : String)

/-- The benchmark events of the stream that the collection is for, in the order of their
versions. -/
def mongoEvents (db : Database P) : List BenchmarkEvent :=
  bson.decodeAll ((((db.docs name).filter fun d => d.streamId = name).insertionSort
    fun d d' => d.streamVersion ≤ d'.streamVersion).map (·.payload))

/-- `truncate_collection` -/
def truncateCollection (db : Database P) : Database P :=
  { db with docs := Function.update db.docs name [] }

/-- `init_event_store_counters`: `$setOnInsert` on both counters -/
def initEventStoreCounters (db : Database P) (globalSeq version : Outcome) : Bool × Database P :=
  match globalSeq.run (some { db with globalSeq := some db.sequence }) db with
  | (false, db) => (false, db)
  | (true, db) =>
    let versions := Function.update db.streamVersions name (some (db.version name))
    version.run (some { db with streamVersions := versions }) db

/-- A `usize` as the `i64` of a limit. -/
def limit (n : UInt64) : Int := if n.toNat < 2 ^ 63 then n.toNat else n.toNat - 2 ^ 64

/-- The first documents of a cursor; no limit is `0`, and a negative one counts like its absolute
value. -/
def limited {D : Type} (docs : List D) (limit : Int) : List D :=
  if limit = 0 then docs else docs.take limit.natAbs

/-- `MongoClient::read_last_n_bench_events` -/
def mongoReadLastN (db : Database P) (n : UInt64) : Except Failure (List BenchmarkEvent) :=
  let newest := ((db.docs name).filter fun d => d.streamId = name).insertionSort
    fun d d' => d'.streamVersion ≤ d.streamVersion
  (withCapacity n).map fun _ =>
    (bson.decodeAll ((limited newest (limit n)).map (·.payload))).reverse

/-- What is drawn for a call of `append_batch_versioned`, and what becomes of its operations. -/
structure MongoAnswer where
  ids : ℕ → String
  version : Outcome
  sequence : Outcome
  insert : InsertOutcome

/-- The batch of a call. -/
def mongoBatch (payloads : List BenchmarkEvent) : Batch P where
  collectionName := name
  eventType := "BenchmarkEvent"
  payloads := payloads.map bson.encode

/-- MongoDB for the benches, once `ensure_collection_event_store` has returned: whatever the
collection holds, and whatever its indexes are. -/
def mongoDb : Backend (Database P) MongoAnswer where
  init _ := True
  size db := (db.docs name).length
  prepare db answers :=
    match (answers 0).run (some (truncateCollection name db)) db with
    | (false, db) => (false, db)
    | (true, db) => initEventStoreCounters name db (answers 1) (answers 2)
  append db payloads answer :=
    match db.appendBatchVersioned (mongoBatch bson name payloads) answer.ids answer.version
        answer.sequence answer.insert with
    | (.ok _, db) => (true, db)
    | (.error _, db) => (false, db)
  readLastNBenchEvents := mongoReadLastN bson name

variable {bson name}

/-- The collection holds its own stream alone, in the order of the versions, all of them below
the counter. -/
structure MongoInv (bson : Codec BenchmarkEvent P) (name : String) (db : Database P) : Prop where
  stream : ∀ d ∈ db.docs name, d.streamId = name
  decodes : ∀ payload ∈ (db.docs name).map (·.payload), (bson.decode payload).isSome
  ascending : ((db.docs name).map (·.streamVersion)).Pairwise (· < ·)
  below : ∀ d ∈ db.docs name, d.streamVersion < db.version name

lemma MongoInv.filter {db : Database P} (h : MongoInv bson name db) :
    (db.docs name).filter (fun d => d.streamId = name) = db.docs name :=
  List.filter_eq_self.mpr fun d hd => decide_eq_true (h.stream d hd)

lemma MongoInv.events_eq {db : Database P} (h : MongoInv bson name db) :
    mongoEvents bson name db = bson.decodeAll ((db.docs name).map (·.payload)) := by
  have hsorted : (db.docs name).Pairwise fun d d' => d.streamVersion ≤ d'.streamVersion :=
    (List.pairwise_map.mp h.ascending).imp le_of_lt
  rw [mongoEvents, h.filter, hsorted.insertionSort_eq]

lemma MongoInv.length {db : Database P} (h : MongoInv bson name db) :
    (mongoEvents bson name db).length = (db.docs name).length := by
  rw [h.events_eq, Codec.decodeAll, List.filterMap_length_eq_length.mpr h.decodes,
    List.length_map]

lemma MongoInv.read {db : Database P} {n : UInt64} {tail : List BenchmarkEvent}
    (h : MongoInv bson name db) (hn : n ≠ 0) (hs : mongoReadLastN bson name db n = .ok tail) :
    tail = (mongoEvents bson name db).rtake n.toNat := by
  simp only [mongoReadLastN, withCapacity] at hs
  split_ifs at hs with hcapacity
  · obtain rfl := Except.ok.inj hs
    have hlimit : limit n = n.toNat := by
      rw [limit, if_pos]
      simp only [eventSize] at hcapacity
      omega
    have hpos : limit n ≠ 0 := by
      have hne := toNat_ne_zero hn
      omega
    rw [h.events_eq, ← Codec.decodeAll_newest h.decodes, h.filter,
      Fold.insertionSort_newest h.ascending, limited, if_neg hpos, hlimit, Int.natAbs_natCast,
      List.map_take, List.map_reverse]
  · cases hs

/-! #### Appends -/

/-- What a call leaves: the documents that were there, and the first ones of the batch, under
the versions from the counter on; both counters have advanced by the batch. -/
lemma appendBatchVersioned_cases {db db' : Database P} {batch : Batch P} {answer : MongoAnswer}
    {result : Except String Unit}
    (hs : db.appendBatchVersioned batch answer.ids answer.version answer.sequence answer.insert
      = (result, db')) :
    (result ≠ .ok () ∧ db'.docs = db.docs ∧
      db.version batch.collectionName ≤ db'.version batch.collectionName) ∨
    ∃ docs stored, batch.documents (db.version batch.collectionName) db.sequence answer.ids
        = some docs ∧ stored <+: docs ∧ (result = .ok () → stored = docs) ∧
      db'.docs batch.collectionName = db.docs batch.collectionName ++ stored ∧
      db'.version batch.collectionName
        = db.version batch.collectionName + batch.payloads.length ∧
      db'.sequence = db.sequence + batch.payloads.length := by
  have hcounted : (db.incVersion batch.collectionName batch.payloads.length).version
      batch.collectionName = db.version batch.collectionName + batch.payloads.length := by
    rw [MongoClient.Appends.version_incVersion, if_pos rfl]
  simp only [Database.appendBatchVersioned] at hs
  split at hs
  · rename_i db₁ hversion
    obtain ⟨rfl, rfl⟩ := Prod.mk.inj hs
    rcases Outcome.run_eq_false.mp hversion with ⟨-, heq⟩ | ⟨-, rfl⟩
    · obtain rfl := Option.some.inj heq
      exact .inl ⟨by simp, rfl, by omega⟩
    · exact .inl ⟨by simp, rfl, le_refl _⟩
  · rename_i counted hversion
    obtain rfl := Option.some.inj (Outcome.run_eq_true.mp hversion).2
    split at hs
    · rename_i db₂ hsequence
      obtain ⟨rfl, rfl⟩ := Prod.mk.inj hs
      rcases Outcome.run_eq_false.mp hsequence with ⟨-, heq⟩ | ⟨-, rfl⟩
      · obtain rfl := Option.some.inj heq
        exact .inl ⟨by simp, rfl, by
          show _ ≤ (db.incVersion batch.collectionName batch.payloads.length).version _
          omega⟩
      · exact .inl ⟨by simp, rfl, by omega⟩
    · rename_i positioned hsequence
      obtain rfl := Option.some.inj (Outcome.run_eq_true.mp hsequence).2
      split at hs
      · obtain ⟨rfl, rfl⟩ := Prod.mk.inj hs
        exact .inl ⟨by simp, rfl, by
          show _ ≤ (db.incVersion batch.collectionName batch.payloads.length).version _
          omega⟩
      · rename_i docs hdocs
        right
        split at hs
        · rename_i db₃ hinsert
          obtain ⟨rfl, rfl⟩ := Prod.mk.inj hs
          have houtcome : answer.insert = .done :=
            (of_decide_eq_true (Prod.mk.inj hinsert).1).2.1
          rw [houtcome] at hinsert
          rw [MongoClient.Appends.insertMany_ok hinsert]
          exact ⟨docs, docs, hdocs, List.prefix_rfl, fun _ => rfl, Function.update_self ..,
            hcounted, rfl⟩
        · rename_i db₃ hinsert
          obtain ⟨rfl, rfl⟩ := Prod.mk.inj hs
          obtain ⟨-, rfl⟩ := Prod.mk.inj hinsert
          refine ⟨docs, _, hdocs, ?_, by simp, Function.update_self .., hcounted, rfl⟩
          refine (MongoClient.Appends.accepted_documents _ _).trans ?_
          cases answer.insert with
          | done => exact List.prefix_rfl
          | failed stored => exact List.take_prefix _ _

/-- What the documents of a batch are. -/
lemma documents_spec {batch : Batch P} {startVersion globalStart : Int} {ids : ℕ → String}
    {docs : List (BenchDocument P)}
    (h : batch.documents startVersion globalStart ids = some docs) :
    collect batch.payloads = some (docs.map (·.payload)) ∧
      (∀ d ∈ docs, d.streamId = batch.collectionName) ∧
      docs.map (·.streamVersion)
        = (List.range batch.payloads.length).map (fun i : ℕ => startVersion + i) ∧
      docs.map (·.globalPosition)
        = (List.range batch.payloads.length).map fun i : ℕ => globalStart + i := by
  have hversions := congrArg (List.map Prod.fst) (MongoClient.Appends.documents_numbered h)
  have hpositions := congrArg (List.map Prod.snd) (MongoClient.Appends.documents_numbered h)
  obtain ⟨payloads, hpayloads, rfl⟩ := Option.map_eq_some_iff.mp h
  refine ⟨?_, ?_, by simpa [List.map_map, Function.comp_def] using hversions,
    by simpa [List.map_map, Function.comp_def] using hpositions⟩
  · rw [hpayloads]
    congr 1
    apply List.ext_getElem <;> simp
  · intro d hd
    obtain ⟨i, hi, rfl⟩ := List.mem_mapIdx.mp hd
    rfl

/-- The first documents of a batch join the stream as the first events of the batch. -/
lemma MongoInv.join {db db' : Database P} (h : MongoInv bson name db)
    {payloads : List BenchmarkEvent} {globalStart : Int} {ids : ℕ → String}
    {docs stored : List (BenchDocument P)}
    (hdocs : (mongoBatch bson name payloads).documents (db.version name) globalStart ids
      = some docs)
    (hstored : stored <+: docs) (hdb : db'.docs name = db.docs name ++ stored)
    (hversion : db'.version name = db.version name + payloads.length) :
    MongoInv bson name db' ∧ ∃ events, events <+: payloads ∧
      mongoEvents bson name db' = mongoEvents bson name db ++ events ∧
      (stored = docs → events = payloads) := by
  obtain ⟨hcollect, hstream, hversions, -⟩ := documents_spec hdocs
  rw [show (mongoBatch bson name payloads).payloads.length = payloads.length from
    List.length_map _] at hversions
  have hdecode := Codec.decodeAll_of_collect hcollect
  have hdecodes := Codec.isSome_of_collect hcollect
  obtain ⟨rest, rfl⟩ := hstored
  -- the versions of the documents run on from the counter
  obtain ⟨hall, hdrawn⟩ := ascending_of_range hversions
  rw [List.map_append, List.pairwise_append] at hall
  obtain ⟨hascending, hbelow⟩ := ascending_append h.ascending h.below hall.1
    (fun d hd => hdrawn d (List.mem_append_left _ hd)) (by omega)
  have hinv : MongoInv bson name db' := by
    refine ⟨?_, ?_, hdb ▸ hascending, hdb ▸ hversion ▸ hbelow⟩
    · intro d hd
      rw [hdb] at hd
      rcases List.mem_append.mp hd with hd | hd
      · exact h.stream d hd
      · exact hstream d (List.mem_append_left _ hd)
    · intro payload hpayload
      rw [hdb, List.map_append] at hpayload
      rcases List.mem_append.mp hpayload with hpayload | hpayload
      · exact h.decodes payload hpayload
      · rw [List.map_append] at hdecodes
        exact hdecodes payload (List.mem_append_left _ hpayload)
  refine ⟨hinv, bson.decodeAll (stored.map (·.payload)), ?_, ?_, ?_⟩
  · rw [← hdecode, List.map_append, Codec.decodeAll_append]
    exact List.prefix_append _ _
  · rw [hinv.events_eq, h.events_eq, hdb, List.map_append, Codec.decodeAll_append]
  · intro hall
    rw [← hdecode, ← hall]

/-- A collection after it has been truncated. -/
lemma mongoInv_of_empty {db : Database P} (h : db.docs name = []) : MongoInv bson name db := by
  constructor <;> simp [h]

/-- The setup empties the collection and leaves the counters where they were. -/
lemma mongoDb_prepare {db db' : Database P} {answers : ℕ → Outcome}
    (hs : (mongoDb bson name).prepare db answers = (true, db')) :
    db'.docs name = [] ∧ db'.version name = db.version name ∧ db'.sequence = db.sequence := by
  simp only [mongoDb] at hs
  split at hs
  · cases hs
  · rename_i db₁ htruncate
    obtain rfl := Option.some.inj (Outcome.run_eq_true.mp htruncate).2
    rw [initEventStoreCounters] at hs
    split at hs
    · cases hs
    · rename_i db₂ hglobal
      obtain rfl := Option.some.inj (Outcome.run_eq_true.mp hglobal).2
      obtain rfl := Option.some.inj (Outcome.run_eq_true.mp hs).2
      exact ⟨Function.update_self .., by simp [Database.version, truncateCollection],
        by simp [Database.sequence, truncateCollection]⟩

lemma mongoDb_append {db db' : Database P} {batch : List BenchmarkEvent} {answer : MongoAnswer}
    {ok : Bool} (hs : (mongoDb bson name).append db batch answer = (ok, db')) :
    ∃ result, db.appendBatchVersioned (mongoBatch bson name batch) answer.ids answer.version
      answer.sequence answer.insert = (result, db') ∧ (ok = true → result = .ok ()) := by
  simp only [mongoDb] at hs
  split at hs
  · rename_i db₁ hcall
    obtain ⟨-, rfl⟩ := Prod.mk.inj hs
    exact ⟨_, hcall, fun _ => rfl⟩
  · rename_i db₁ hcall
    obtain ⟨rfl, rfl⟩ := Prod.mk.inj hs
    exact ⟨_, hcall, by simp⟩

/-- MongoDB keeps the laws of the benches. -/
theorem mongoDb_laws :
    (mongoDb bson name).Laws (MongoInv bson name) (mongoEvents bson name) where
  prepare := by
    intro db db' answers _ hs
    exact mongoInv_of_empty (mongoDb_prepare hs).1
  append := by
    intro db db' batch answer ok hinv hs
    obtain ⟨result, hresult, hok⟩ := mongoDb_append hs
    rcases appendBatchVersioned_cases hresult with
      ⟨hfailed, hdocs, hversion⟩ | ⟨docs, stored, hdocs, hstored, hall, hdb, hversion, -⟩
    · have hsame : db'.docs name = db.docs name := by rw [hdocs]
      have hinv' : MongoInv bson name db' := by
        refine ⟨?_, ?_, ?_, ?_⟩
        · rw [hsame]
          exact hinv.stream
        · rw [hsame]
          exact hinv.decodes
        · rw [hsame]
          exact hinv.ascending
        · rw [hsame]
          exact fun d hd => (hinv.below d hd).trans_le hversion
      refine ⟨hinv', [], List.nil_prefix, ?_, fun h => absurd (hok h) hfailed⟩
      rw [hinv'.events_eq, hinv.events_eq, hsame, List.append_nil]
    · rw [mongoBatch, List.length_map] at hversion
      obtain ⟨hinv', events, hprefix, hevents, hwhole⟩ := hinv.join hdocs hstored hdb hversion
      exact ⟨hinv', events, hprefix, hevents, fun h => hwhole (hall (hok h))⟩
  size hinv := hinv.length.symm
  read := MongoInv.read

end

/-- In every run of the four runners, whatever the stream held before, whatever fails and
wherever the process stops, the cached tail is the end of the stream between two live writes, and
the end of the stream without its newest event from the append of a live write to the update of
the cache. Memcached may have dropped the tail; what it holds is never another one. -/
theorem cached_tail {P : Type} (config : Config) (hn : config.cacheSize ≠ 0)
    (json : Codec BenchmarkEvent Json) (bson : Codec BenchmarkEvent P)
    (bincode : Codec (List BenchmarkEvent) (List UInt8)) (missing : Missing) :
    let size := config.cacheSize.toNat
    let kurrent := kurrentDb json missing config.streamName
    let mongo := mongoDb bson config.streamName
    (∀ σ, (hotCache kurrent config).Reachable σ →
      Follows size (kurrentEvents json σ.db) σ.cache.snapshot σ.point) ∧
    (∀ σ, (hotCache mongo config).Reachable σ →
      Follows size (mongoEvents bson config.streamName σ.db) σ.cache.snapshot σ.point) ∧
    (∀ σ, (memcache bincode kurrent config).Reachable σ →
      (∀ bytes ∈ σ.cache.item, ∃ tail, bincode.decode bytes = some tail ∧
        Follows size (kurrentEvents json σ.db) tail σ.point) ∧
      (σ.cache.dropped = false → σ.cache.item.isSome)) ∧
    (∀ σ, (memcache bincode mongo config).Reachable σ →
      (∀ bytes ∈ σ.cache.item, ∃ tail, bincode.decode bytes = some tail ∧
        Follows size (mongoEvents bson config.streamName σ.db) tail σ.point) ∧
      (σ.cache.dropped = false → σ.cache.item.isSome)) := by
  refine ⟨fun σ hσ => ?_, fun σ hσ => ?_, fun σ hσ => ?_, fun σ hσ => ?_⟩
  · exact hot_cache_follows kurrentDb_laws hn hσ
  · exact hot_cache_follows mongoDb_laws hn hσ
  · exact memcache_follows kurrentDb_laws hn hσ
  · exact memcache_follows mongoDb_laws hn hσ

/-! ### A live write on a stream of one event -/

/-- `serde_json` on the events of the epoch; the documents of the BSON encoder have the same
fields. -/
def epochJson : Codec BenchmarkEvent Json where
  encode e :=
    if e.createdAt = .epoch then
      some (.object [("seq", .posInt e.seq), ("task_id", .posInt e.taskId),
        ("payload", .array (e.payload.map fun b => .posInt b.toUInt64)),
        ("created_at", .string "1970-01-01T00:00:00Z")])
    else none
  decode value :=
    match (value.get "seq").asU64, (value.get "task_id").asU64, value.get "payload" with
    | some seq, some taskId, .array payload =>
      some ⟨seq, taskId, payload.filterMap fun b => b.asU64.map (·.toUInt8), .epoch⟩
    | _, _, _ => none
  decode_encode := by
    rintro ⟨seq, taskId, payload, createdAt⟩ value h
    split_ifs at h with hepoch
    obtain rfl := Option.some.inj h
    obtain rfl : createdAt = .epoch := hepoch
    simp [Json.get, Json.member?, Json.asU64, List.filterMap_map]

/-! `bincode` on tails of at most one event, of the epoch and with small numbers. -/

def smallU64 (n : UInt64) : List UInt8 := n.toUInt8 :: List.replicate 7 0

/-- The tail of one event: its length, and the fields. -/
def bincodeOne (seq taskId : UInt64) : List UInt8 :=
  smallU64 1 ++ smallU64 seq ++ smallU64 taskId
    ++ (0 :: 1 :: List.replicate 6 0) ++ List.replicate 256 0xAB
    ++ smallU64 20 ++ "1970-01-01T00:00:00Z".toList.map fun c => .ofNat c.toNat

lemma toUInt64_toUInt8 {n : UInt64} (h : n < 256) : n.toUInt8.toUInt64 = n := by
  rw [UInt64.lt_iff_toNat_lt] at h
  rw [← UInt64.toNat_inj, UInt8.toNat_toUInt64, UInt64.toNat_toUInt8]
  exact Nat.mod_eq_of_lt h

def shortBincode : Codec (List BenchmarkEvent) (List UInt8) where
  encode
    | [] => some (smallU64 0)
    | [e] =>
      if e = newEvent e.seq e.taskId .epoch ∧ e.seq < 256 ∧ e.taskId < 256 then
        some (bincodeOne e.seq e.taskId)
      else none
    | _ => none
  decode bytes :=
    if bytes = smallU64 0 then some []
    else
      match bytes[8]?, bytes[16]? with
      | some seq, some taskId =>
        if bytes = bincodeOne seq.toUInt64 taskId.toUInt64 then
          some [newEvent seq.toUInt64 taskId.toUInt64 .epoch]
        else none
      | _, _ => none
  decode_encode := by
    intro tail bytes h
    match tail with
    | [] =>
      obtain rfl := Option.some.inj h
      exact if_pos rfl
    | [e] =>
      dsimp only at h
      split_ifs at h with hshort
      obtain ⟨hevent, hseq, htaskId⟩ := hshort
      obtain rfl := Option.some.inj h
      have hlength : bincodeOne e.seq e.taskId ≠ smallU64 0 :=
        fun heq => absurd (List.cons.inj heq).1 (by decide)
      have hfirst : (bincodeOne e.seq e.taskId)[8]? = some e.seq.toUInt8 := rfl
      have hsecond : (bincodeOne e.seq e.taskId)[16]? = some e.taskId.toUInt8 := rfl
      rw [if_neg hlength, hfirst, hsecond]
      simp only [toUInt64_toUInt8 hseq, toUInt64_toUInt8 htaskId, if_true, ← hevent]

/-- One event is seeded and one is written. -/
def oneWrite : Config where
  seedEvents := 1
  cacheSize := 1
  liveWrites := 1
  seedBatchSize := 1
  streamName := "hot-tail"

def notFound : Missing := .atOpening "stream not found"

def freshDatabase : Database Json where
  toSchema := .empty
  streamVersions := fun _ => none
  docs := fun _ => []

/-- Everything is done; the ids are drawn from `first` on. -/
def allDone (first : ℕ) : MongoAnswer := ⟨fun i => toString (first + i), .done, .done, .done⟩

/-- `hot_cache_bench` with `oneWrite` on KurrentDB. -/
def hotCacheBench : System (HotCache KurrentDB.Stream) (Step Outcome) :=
  hotCache (kurrentDb epochJson notFound "hot-tail") oneWrite

/-- `memcache_bench` with `oneWrite` on MongoDB. -/
def memcacheBench : System (Memcache (Database Json)) (Step MongoAnswer) :=
  memcache shortBincode (mongoDb epochJson "hot-tail") oneWrite

def loadedTail : List BenchmarkEvent := [newEvent 0 0 .epoch]

/-- `hot_cache_bench` at the start of the live phase. -/
def hotCacheStart : HotCache KurrentDB.Stream :=
  .start (kurrentAppend epochJson .empty loadedTail .done).2
    (loadedTail.foldl RecentEventsCache.push (.new 1))

set_option maxRecDepth 4000 in
lemma init_hotCacheStart : hotCacheBench.init hotCacheStart :=
  ⟨.empty, ⟨fun _ => .done, fun _ => .epoch, fun _ => .done⟩, _, loadedTail,
    List.forall_mem_nil _, rfl, rfl⟩

/-- MongoDB after the setup and the seed phase. -/
def seededDatabase : Database Json :=
  let db := mongoDb epochJson "hot-tail"
  (db.append (db.prepare freshDatabase fun _ => .done).2 loadedTail (allDone 0)).2

/-- `memcache_bench` at the start of the live phase. -/
def memcacheStart : Memcache (Database Json) :=
  .start seededDatabase
    { localTail := loadedTail, item := some (bincodeOne 0 0), dropped := false }

set_option maxRecDepth 4000 in
lemma init_memcacheStart : memcacheBench.init memcacheStart :=
  ⟨freshDatabase, ⟨fun _ => .done, fun _ => .epoch, fun _ => allDone 0⟩, seededDatabase,
    loadedTail, none, _, trivial, rfl, rfl, rfl⟩

/-- `memcache_bench` after a live write, whose SET comes to `outcome`. -/
def afterSet (outcome : Outcome) : Memcache (Database Json) :=
  memcacheBench.after [.append .epoch (allDone 1), .keep, .set outcome] memcacheStart

set_option maxRecDepth 4000 in
lemma reachable_afterSet (outcome : Outcome) : memcacheBench.Reachable (afterSet outcome) := by
  refine System.reachable_after _ init_memcacheStart ?_
  cases outcome <;> rfl

set_option maxRecDepth 4000 in
/-- The loaded event leaves the ring buffer for the written one. A SET that returns an error
leaves the tail with the written event under the key if it has taken effect, and the loaded tail
if it has not. -/
theorem cached_tail_one_write :
    (∃ σ, hotCacheBench.Reachable σ ∧ σ.writes = 1 ∧ (kurrentEvents epochJson σ.db).length = 2 ∧
      σ.cache.snapshot = (kurrentEvents epochJson σ.db).rtake 1) ∧
    ((afterSet .unacknowledged).point = .setFailed true ∧
      ∃ bytes ∈ (afterSet .unacknowledged).cache.item, ∃ tail,
        shortBincode.decode bytes = some tail ∧
          tail = (mongoEvents epochJson "hot-tail" (afterSet .unacknowledged).db).rtake 1) ∧
    ((afterSet .rejected).point = .setFailed false ∧
      ∃ bytes ∈ (afterSet .rejected).cache.item, ∃ tail,
        shortBincode.decode bytes = some tail ∧
          Behind 1 (mongoEvents epochJson "hot-tail" (afterSet .rejected).db) tail) := by
  obtain ⟨hhot, -, -, hmemcache⟩ :=
    cached_tail oneWrite (by decide) epochJson epochJson shortBincode notFound
  refine ⟨?_, ⟨rfl, _, rfl, ?_⟩, ⟨rfl, _, rfl, ?_⟩⟩
  · have hreach : hotCacheBench.Reachable (hotCacheBench.after [.append .epoch .done, .keep]
        hotCacheStart) := System.reachable_after _ init_hotCacheStart rfl
    exact ⟨_, hreach, rfl, rfl, hhot _ hreach⟩
  · exact (hmemcache _ (reachable_afterSet .unacknowledged)).1 _ rfl
  · exact (hmemcache _ (reachable_afterSet .rejected)).1 _ rfl

end EventSourcing.HotTail
