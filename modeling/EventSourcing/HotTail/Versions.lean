import EventSourcing.Bench.WriteLoops
import EventSourcing.Concurrency.Ledger
import EventSourcing.HotTail.Databases

/-!
# The versions of the hot tail benches on MongoDB

The setup truncates the collection of the stream and leaves the counters that earlier runs have
advanced: `$setOnInsert` writes on a new document only. So the versions run on from the counter
that a bench finds, and start at zero if and only if there is none or it is zero
(`versions_from_zero_iff`).
-/

namespace EventSourcing.HotTail

open Concurrency
open Bench (Outcome)
open Events (BenchmarkEvent)
open MongoClient (BenchDocument Database)
open Text (Json)

variable {P : Type}

/-! ### The runs of a bench -/

section Runs

variable (bson : Codec BenchmarkEvent P) (bincode : Codec (List BenchmarkEvent) (List UInt8))
  (config : Config) (found : Database P)

/-- MongoDB for a bench that finds the given database. -/
def mongoFrom : Backend (Database P) MongoAnswer :=
  { mongoDb bson config.streamName with init := fun db => db = found }

/-- The databases that `run_mongo` leaves on its way, in `hot_cache_bench` or `memcache_bench`. -/
inductive Visits : Database P → Prop where
  /-- after the setup -/
  | prepared {answers : ℕ → Outcome} {db : Database P}
      (hprepare : (mongoFrom bson config found).prepare found answers = (true, db)) : Visits db
  /-- after a batch of the seed phase, whether or not its append has succeeded -/
  | seeding {answers : ℕ → Outcome} {now : UInt64 → DateTime} {seed : ℕ → MongoAnswer}
      {answer : MongoAnswer} {before after : List (List BenchmarkEvent)}
      {batch : List BenchmarkEvent} {db db' db'' : Database P} {ok : Bool}
      (hprepare : (mongoFrom bson config found).prepare found answers = (true, db))
      (hbatches : config.seedBatches now = some (before ++ batch :: after))
      (hbefore : (mongoFrom bson config found).appendAll before seed db = some db')
      (hbatch : (mongoFrom bson config found).append db' batch answer = (ok, db'')) : Visits db''
  | hotCache {σ : HotCache (Database P)}
      (h : (hotCache (mongoFrom bson config found) config).Reachable σ) : Visits σ.db
  | memcache {σ : Memcache (Database P)}
      (h : (memcache bincode (mongoFrom bson config found) config).Reachable σ) : Visits σ.db

end Runs

/-! ### Events in the order of the writes -/

/-- Events whose numbers run on from `n`. -/
def RunOn (n : ℕ) (events : List BenchmarkEvent) : Prop :=
  events.map (·.seq) = (List.range' n events.length).map UInt64.ofNat

variable {n : ℕ} {events events' : List BenchmarkEvent}

lemma runOn_nil : RunOn n [] := rfl

lemma runOn_append : RunOn n (events ++ events') ↔
    RunOn n events ∧ RunOn (n + events.length) events' := by
  rw [RunOn, RunOn, RunOn, List.map_append, List.length_append, ← List.range'_append_1,
    List.map_append]
  constructor
  · exact fun h => List.append_inj h (by simp)
  · rintro ⟨h, h'⟩
    rw [h, h']

lemma runOn_of_prefix (h : RunOn n events) (hfirst : events' <+: events) : RunOn n events' := by
  obtain ⟨rest, rfl⟩ := hfirst
  exact (runOn_append.mp h).1

/-- The batches of the seed phase are the events from zero on. -/
lemma runOn_seedBatches {config : Config} {now : UInt64 → DateTime}
    {batches : List (List BenchmarkEvent)} (h : config.seedBatches now = some batches) :
    RunOn 0 batches.flatten ∧ batches.flatten.length = config.seedEvents.toNat := by
  have hsize : config.seedBatchSize ≠ 0 := by
    intro hzero
    rw [Config.seedBatches, if_pos hzero] at h
    cases h
  rw [Bench.WriteLoops.seedBatches_eq config now hsize] at h
  obtain rfl := Option.some.inj h
  have hcuts : Loops.Cuts 0 config.seedEvents.toNat config.seedBatchSize.toNat
      (Loops.divided config.seedEvents.toNat config.seedBatchSize.toNat) :=
    Loops.cuts_divided (Nat.pos_of_ne_zero (toNat_ne_zero hsize))
  rw [RunOn, ← List.map_flatten, hcuts.numbers, List.map_map, List.length_map,
    List.length_range']
  exact ⟨List.map_congr_left fun i _ => rfl, rfl⟩

/-- The event of a live write. -/
lemma runOn_newEvent {config : Config} {writes : ℕ} {now : DateTime} :
    RunOn (config.seedEvents.toNat + writes)
      [newEvent (config.seedEvents + .ofNat writes) 1 now] := by
  show [config.seedEvents + .ofNat writes] = [UInt64.ofNat (config.seedEvents.toNat + writes)]
  rw [UInt64.ofNat_add, UInt64.ofNat_toNat]

/-! ### What a run leaves -/

variable {bson : Codec BenchmarkEvent P} {bincode : Codec (List BenchmarkEvent) (List UInt8)}
  {config : Config} {found : Database P} {name : String} {start : ℤ} {db db' : Database P}

/-- The versions run on from `start`, in the order of the writes, and the positions ascend. -/
structure Stored (bson : Codec BenchmarkEvent P) (name : String) (start : ℤ)
    (db : Database P) : Prop where
  inv : MongoInv bson name db
  versions : (db.docs name).map (·.streamVersion) = numbers start (db.docs name).length
  positions : ((db.docs name).map (·.globalPosition)).Pairwise (· < ·)
  inOrder : RunOn 0 (mongoEvents bson name db)

/-- The counters stand behind what is stored. -/
structure Ready (bson : Codec BenchmarkEvent P) (name : String) (start : ℤ)
    (db : Database P) : Prop extends Stored bson name start db where
  version : db.version name = start + (db.docs name).length
  below : ∀ d ∈ db.docs name, d.globalPosition < db.sequence

/-- The setup starts the stream at the version that it finds. -/
lemma ready_prepare {answers : ℕ → Outcome}
    (hs : (mongoFrom bson config found).prepare found answers = (true, db)) :
    Ready bson config.streamName (found.version config.streamName) db ∧
      (db.docs config.streamName).length = 0 := by
  have hs : (mongoDb bson config.streamName).prepare found answers = (true, db) := hs
  obtain ⟨hdocs, hversion, -⟩ := mongoDb_prepare hs
  have hinv : MongoInv bson config.streamName db := mongoInv_of_empty hdocs
  have hnone : mongoEvents bson config.streamName db = [] := by
    rw [← List.length_eq_zero_iff, MongoInv.length hinv, hdocs, List.length_nil]
  refine ⟨⟨⟨hinv, by simp [hdocs, numbers], by simp [hdocs], ?_⟩, by simp [hdocs, hversion],
    by simp [hdocs]⟩, by simp [hdocs]⟩
  rw [hnone]
  exact runOn_nil

/-- An append goes on where the stream ends; if it fails, with the first events of the batch or
with none. -/
lemma Ready.append (h : Ready bson config.streamName start db) {batch : List BenchmarkEvent}
    (hbatch : RunOn (db.docs config.streamName).length batch) {answer : MongoAnswer} {ok : Bool}
    (hs : (mongoFrom bson config found).append db batch answer = (ok, db')) :
    Stored bson config.streamName start db' ∧ (ok = true → Ready bson config.streamName start db' ∧
      (db'.docs config.streamName).length = (db.docs config.streamName).length + batch.length) := by
  have hs : (mongoDb bson config.streamName).append db batch answer = (ok, db') := hs
  obtain ⟨hinv', events, hprefix, hevents, hall⟩ := mongoDb_laws.append h.inv hs
  have hlength : (db'.docs config.streamName).length
      = (db.docs config.streamName).length + events.length := by
    rw [← MongoInv.length hinv', hevents, List.length_append, MongoInv.length h.inv]
  have hinOrder : RunOn 0 (mongoEvents bson config.streamName db') := by
    rw [hevents, runOn_append, Nat.zero_add, MongoInv.length h.inv]
    exact ⟨h.inOrder, runOn_of_prefix hbatch hprefix⟩
  obtain ⟨result, hresult, hok⟩ := mongoDb_append hs
  rcases appendBatchVersioned_cases hresult with
    ⟨hfailed, hdocs, -⟩ | ⟨docs, stored, hdocs, hstored, -, hdb, hversion, hsequence⟩
  · have hsame : db'.docs config.streamName = db.docs config.streamName := by rw [hdocs]
    refine ⟨⟨hinv', ?_, ?_, hinOrder⟩, fun htrue => absurd (hok htrue) hfailed⟩
    · rw [hsame, h.versions]
    · rw [hsame]
      exact h.positions
  · obtain ⟨-, -, hversions, hpositions⟩ := documents_spec hdocs
    have hdb' : db'.docs config.streamName = db.docs config.streamName ++ stored := hdb
    have hpayloads : (mongoBatch bson config.streamName batch).payloads.length = batch.length :=
      List.length_map _
    have hprefix : stored.map (·.streamVersion)
        <+: numbers (db.version config.streamName)
          (mongoBatch bson config.streamName batch).payloads.length := by
      refine (hstored.map _).trans ?_
      rw [hversions]
      exact List.prefix_rfl
    have hdrawn := eq_numbers_of_prefix hprefix
    rw [List.length_map] at hdrawn
    -- the positions of the batch lie above those that are stored
    obtain ⟨rest, rfl⟩ := hstored
    obtain ⟨hascending, hbetween⟩ := ascending_of_range hpositions
    rw [List.map_append, List.pairwise_append] at hascending
    obtain ⟨hpositions', hbelow⟩ := ascending_append h.positions h.below hascending.1
      (fun d hd => hbetween d (List.mem_append_left _ hd)) (by omega)
    have hstored' : Stored bson config.streamName start db' := by
      refine ⟨hinv', ?_, hdb' ▸ hpositions', hinOrder⟩
      rw [hdb', List.map_append, h.versions, hdrawn, h.version, List.length_append,
        numbers_append]
    refine ⟨hstored', fun htrue => ?_⟩
    have hcount : (db'.docs config.streamName).length
        = (db.docs config.streamName).length + batch.length := by
      rw [hlength, hall htrue]
    have hversion' : db'.version config.streamName
        = db.version config.streamName + batch.length := hpayloads ▸ hversion
    refine ⟨⟨hstored', ?_, ?_⟩, hcount⟩
    · rw [hversion', h.version, hcount]
      omega
    · rw [hdb', hsequence]
      exact hbelow

/-- The batches of a phase go on one after the other. -/
lemma Ready.appendAll (h : Ready bson config.streamName start db)
    {batches : List (List BenchmarkEvent)}
    (hbatches : RunOn (db.docs config.streamName).length batches.flatten) {seed : ℕ → MongoAnswer}
    (hs : (mongoFrom bson config found).appendAll batches seed db = some db') :
    Ready bson config.streamName start db' ∧ (db'.docs config.streamName).length
      = (db.docs config.streamName).length + batches.flatten.length := by
  induction batches generalizing db seed with
  | nil =>
    obtain rfl := Option.some.inj hs
    exact ⟨h, rfl⟩
  | cons batch batches ih =>
    rw [List.flatten_cons, runOn_append] at hbatches
    rw [Backend.appendAll] at hs
    split at hs
    · rename_i db₁ hbatch
      obtain ⟨hready, hcount⟩ := (h.append hbatches.1 hbatch).2 rfl
      obtain ⟨hready', hcount'⟩ := ih hready (hcount ▸ hbatches.2) hs
      refine ⟨hready', ?_⟩
      rw [hcount', hcount, List.flatten_cons, List.length_append, Nat.add_assoc]
    · cases hs

/-! ### The live phase -/

/-- How far the database is ahead of the number of live writes done; nothing where the phase has
ended with an error. -/
def Point.ahead : Point → Option ℕ
  | .idle => some 0
  | .appended _ => some 1
  | .kept => some 1
  | .appendFailed _ => none
  | .setFailed _ => none

structure LiveReady (bson : Codec BenchmarkEvent P) (config : Config) (start : ℤ) {C : Type}
    (σ : Live (Database P) C) : Prop where
  stored : Stored bson config.streamName start σ.db
  ready : ∀ ahead, σ.point.ahead = some ahead → Ready bson config.streamName start σ.db ∧
    (σ.db.docs config.streamName).length = config.seedEvents.toNat + σ.writes + ahead

variable {C : Type} {σ σ' : Live (Database P) C}

lemma LiveReady.append (h : LiveReady bson config start σ) {now : DateTime}
    {answer : MongoAnswer}
    (hs : Live.append (mongoFrom bson config found) config σ now answer = some σ') :
    LiveReady bson config start σ' := by
  rw [Live.append] at hs
  split at hs
  · rename_i hpoint
    obtain ⟨hready, hcount⟩ := h.ready 0 (by rw [hpoint]; rfl)
    have hevent : RunOn (σ.db.docs config.streamName).length
        [newEvent (config.seedEvents + .ofNat σ.writes) 1 now] := by
      rw [hcount, Nat.add_zero]
      exact runOn_newEvent
    split_ifs at hs
    dsimp only at hs
    split at hs
    · rename_i db happend
      obtain rfl := Option.some.inj hs
      obtain ⟨hstored, hready'⟩ := hready.append hevent happend
      refine ⟨hstored, fun ahead hahead => ?_⟩
      obtain rfl : 1 = ahead := Option.some.inj hahead
      obtain ⟨hready', hcount'⟩ := hready' rfl
      refine ⟨hready', ?_⟩
      rw [hcount', hcount]
      rfl
    · rename_i db happend
      obtain rfl := Option.some.inj hs
      exact ⟨(hready.append hevent happend).1, fun ahead hahead => by cases hahead⟩
  · cases hs

/-- The live phase starts where the seed phase has ended. -/
lemma liveReady_start {env : Backend.Startup MongoAnswer} {tail : List BenchmarkEvent}
    {cache : C}
    (hs : (mongoFrom bson config found).startup config found env = some (db, tail)) :
    LiveReady bson config (found.version config.streamName) (Live.start db cache) := by
  rw [Backend.startup] at hs
  split at hs
  · cases hs
  · rename_i db₁ hprepare
    obtain ⟨batches, hbatches, hs⟩ := Option.bind_eq_some_iff.mp hs
    obtain ⟨db₂, hseed, hs⟩ := Option.bind_eq_some_iff.mp hs
    split at hs
    · obtain ⟨rfl, -⟩ := Prod.mk.inj (Option.some.inj hs)
      obtain ⟨hready, hempty⟩ := ready_prepare hprepare
      obtain ⟨hrun, hcount⟩ := runOn_seedBatches hbatches
      obtain ⟨hready', hcount'⟩ := hready.appendAll (hempty.symm ▸ hrun) hseed
      rw [hempty, hcount, Nat.zero_add] at hcount'
      refine ⟨hready'.toStored, fun ahead hahead => ?_⟩
      obtain rfl : 0 = ahead := Option.some.inj hahead
      exact ⟨hready', hcount'⟩
    · cases hs

lemma liveReady_hotCache {σ : HotCache (Database P)}
    (hσ : (hotCache (mongoFrom bson config found) config).Reachable σ) :
    LiveReady bson config (found.version config.streamName) σ := by
  induction hσ with
  | init hinit =>
    obtain ⟨_, env, db, tail, rfl, hstartup, rfl⟩ := hinit
    exact liveReady_start hstartup
  | @step σ σ' step _ _ hs ih =>
    cases step with
    | append now answer => exact ih.append hs
    | keep =>
      simp only [hotCache, HotCache.next] at hs
      split at hs
      · rename_i event hpoint hrunning
        obtain rfl := Option.some.inj hs
        refine ⟨ih.stored, fun ahead hahead => ?_⟩
        obtain rfl : 0 = ahead := Option.some.inj hahead
        exact ih.ready 1 (by rw [hpoint]; rfl)
      · cases hs
    | set outcome => cases hs
    | stop =>
      obtain rfl := Option.some.inj hs
      exact ⟨ih.stored, ih.ready⟩
    | drop => cases hs

lemma liveReady_memcache {σ : Memcache (Database P)}
    (hσ : (memcache bincode (mongoFrom bson config found) config).Reachable σ) :
    LiveReady bson config (found.version config.streamName) σ := by
  induction hσ with
  | init hinit =>
    obtain ⟨_, env, db, tail, left, item, rfl, hstartup, -, rfl⟩ := hinit
    exact liveReady_start hstartup
  | @step σ σ' step _ _ hs ih =>
    cases step with
    | append now answer => exact ih.append hs
    | keep =>
      simp only [memcache, Memcache.next] at hs
      split at hs
      · rename_i event hpoint hrunning
        obtain rfl := Option.some.inj hs
        refine ⟨ih.stored, fun ahead hahead => ?_⟩
        obtain rfl : 1 = ahead := Option.some.inj hahead
        exact ih.ready 1 (by rw [hpoint]; rfl)
      · cases hs
    | set outcome =>
      simp only [memcache, Memcache.next] at hs
      split at hs
      · rename_i hpoint hrunning
        split at hs
        · obtain rfl := Option.some.inj hs
          refine ⟨ih.stored, fun ahead hahead => ?_⟩
          obtain rfl : 0 = ahead := Option.some.inj hahead
          exact ih.ready 1 (by rw [hpoint]; rfl)
        · obtain rfl := Option.some.inj hs
          exact ⟨ih.stored, fun ahead hahead => by cases hahead⟩
      · cases hs
    | stop =>
      obtain rfl := Option.some.inj hs
      exact ⟨ih.stored, ih.ready⟩
    | drop =>
      obtain rfl := Option.some.inj hs
      exact ⟨ih.stored, ih.ready⟩

/-! ### Versions from zero -/

lemma Visits.stored (h : Visits bson bincode config found db) :
    Stored bson config.streamName (found.version config.streamName) db := by
  cases h with
  | prepared hprepare => exact (ready_prepare hprepare).1.toStored
  | seeding hprepare hbatches hbefore hbatch =>
    obtain ⟨hready, hempty⟩ := ready_prepare hprepare
    obtain ⟨hrun, -⟩ := runOn_seedBatches hbatches
    rw [List.flatten_append, runOn_append, List.flatten_cons, runOn_append] at hrun
    obtain ⟨hready', hcount⟩ := hready.appendAll (hempty.symm ▸ hrun.1) hbefore
    rw [hempty] at hcount
    have hnext := hrun.2.1
    rw [← hcount] at hnext
    exact (hready'.append hnext hbatch).1
  | hotCache h => exact (liveReady_hotCache h).stored
  | memcache h => exact (liveReady_memcache h).stored

/-- In every run of the two benches on MongoDB, whatever the database holds from earlier runs:
the versions are 0, 1, 2, … in the order of the writes if and only if nothing is stored yet or
the counter that the run finds is absent or zero. The positions strictly ascend, and the events
are stored in the order of the writes, in any case. -/
theorem versions_from_zero_iff (h : Visits bson bincode config found db) :
    ((db.docs config.streamName).map (·.streamVersion)
        = numbers 0 (db.docs config.streamName).length ↔
      db.docs config.streamName = [] ∨ found.version config.streamName = 0) ∧
    ((db.docs config.streamName).map (·.globalPosition)).Pairwise (· < ·) ∧
    (mongoEvents bson config.streamName db).map (·.seq)
      = (List.range (db.docs config.streamName).length).map UInt64.ofNat := by
  have hstored := h.stored
  refine ⟨?_, hstored.positions, ?_⟩
  · rw [hstored.versions, numbers_inj, List.length_eq_zero_iff]
  · have hinOrder := hstored.inOrder
    rwa [RunOn, MongoInv.length hstored.inv, ← List.range_eq_range'] at hinOrder

/-! ### A first run and a second one -/

def oneSeed : Config where
  seedEvents := 1
  cacheSize := 1
  liveWrites := 0
  seedBatchSize := 1
  streamName := "hot-tail"

/-- What the setup leaves. -/
def prepared (found : Database Json) : Database Json :=
  ((mongoFrom epochJson oneSeed found).prepare found fun _ => .done).2

/-- What the append of the seed phase comes to. -/
def seedAppend (found : Database Json) : Bool × Database Json :=
  (mongoFrom epochJson oneSeed found).append (prepared found) [newEvent 0 0 .epoch] (allDone 0)

def seeded (found : Database Json) : Database Json := (seedAppend found).2

lemma visits_seeded (found : Database Json) :
    Visits epochJson shortBincode oneSeed found (seeded found) := by
  have hprepare : (mongoFrom epochJson oneSeed found).prepare found (fun _ => .done)
      = (true, prepared found) := rfl
  have hbatches : oneSeed.seedBatches (fun _ => .epoch)
      = some ([] ++ [newEvent 0 0 .epoch] :: []) := rfl
  have hbefore : (mongoFrom epochJson oneSeed found).appendAll [] (fun _ => allDone 0)
      (prepared found) = some (prepared found) := rfl
  have hbatch : (mongoFrom epochJson oneSeed found).append (prepared found)
      [newEvent 0 0 .epoch] (allDone 0) = ((seedAppend found).1, seeded found) := rfl
  exact .seeding hprepare hbatches hbefore hbatch

/-- A run on a database that nothing has been created in. -/
theorem versions_from_zero_fresh :
    ((seeded freshDatabase).docs "hot-tail").map (·.streamVersion)
        = numbers 0 ((seeded freshDatabase).docs "hot-tail").length ∧
      ((seeded freshDatabase).docs "hot-tail").length = 1 := by
  have hvisits := visits_seeded freshDatabase
  exact ⟨(versions_from_zero_iff hvisits).1.mpr (.inr rfl), rfl⟩

/-- A second run with the same stream goes on at version one. -/
theorem versions_from_zero_fails :
    Visits epochJson shortBincode oneSeed (seeded freshDatabase)
        (seeded (seeded freshDatabase)) ∧
      ((seeded (seeded freshDatabase)).docs "hot-tail").map (·.streamVersion) = [1] ∧
      ((seeded (seeded freshDatabase)).docs "hot-tail").map (·.streamVersion)
        ≠ numbers 0 ((seeded (seeded freshDatabase)).docs "hot-tail").length :=
  ⟨visits_seeded _, rfl, by decide⟩

end EventSourcing.HotTail
