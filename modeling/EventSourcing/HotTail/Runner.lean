import EventSourcing.Bench.Statement
import EventSourcing.Concurrency.System
import EventSourcing.Events
import EventSourcing.Fold.Window

/-!
# The benches of the hot tail

`hot_cache_bench` and `memcache_bench` seed a stream, load its last `cache_size` events and then
append event after event, keeping the loaded tail up to date themselves: `hot_cache_bench` in a
ring buffer of its own, `memcache_bench` in a local deque that it stores in Memcached after
every write. Both run over a database (`Backend`) that is given by the operations they use.

What the databases have in common (`Backend.Laws`) is enough for the tail to follow the stream:
between two writes it is the end of the stream, and between the append and the update of the
cache the end of the stream without its newest event (`hot_cache_follows`, `memcache_follows`).
-/

namespace EventSourcing.HotTail

open Concurrency Events
open Bench (Failure Outcome)

/-- `HotCacheConfig` and `MemcachedCacheConfig` -/
structure Config where
  seedEvents : UInt64
  cacheSize : UInt64
  liveWrites : UInt64
  seedBatchSize : UInt64
  streamName : String

/-- `BenchmarkEvent::new`; `now` is what the clock says. -/
def newEvent (seq taskId : UInt64) (now : DateTime) : BenchmarkEvent where
  seq := seq
  taskId := taskId
  payload := List.replicate 256 0xAB
  createdAt := now

/-- The batches of the seed phase, by what the clock says for the event of a number. -/
def Config.seedBatches (config : Config) (now : UInt64 → DateTime) :
    Option (List (List BenchmarkEvent)) :=
  -- the division by the batch size panics
  if config.seedBatchSize = 0 then none
  else
    let batch (base n : UInt64) : List BenchmarkEvent :=
      (List.range n.toNat).map fun i => newEvent (base + .ofNat i) 0 (now (base + .ofNat i))
    let batches := config.seedEvents / config.seedBatchSize
    let full := (List.range batches.toNat).map fun b =>
      batch (.ofNat b * config.seedBatchSize) config.seedBatchSize
    let remainder := config.seedEvents % config.seedBatchSize
    some (full ++ if 0 < remainder then [batch (batches * config.seedBatchSize) remainder] else [])

/-- The size of a `BenchmarkEvent` in bytes. -/
def eventSize : ℕ := 56

/-- `Vec::with_capacity` for events; a capacity of more than `isize::MAX` bytes panics. -/
def withCapacity (n : UInt64) : Except Failure Unit :=
  if n.toNat * eventSize < 2 ^ 63 then .ok () else .error (.panicked "capacity overflow")

/-! ### The database of a bench -/

/-- How values are stored: what is stored is read as what it was. -/
structure Codec (α β : Type) where
  encode : α → Option β
  decode : β → Option α
  decode_encode : ∀ {a b}, encode a = some b → decode b = some a

/-- What the benches use of a database: `S` is its state, `A` what is drawn and what happens
during an append. An operation tells the bench whether it has succeeded. -/
structure Backend (S A : Type) where
  /-- what the stream may hold before the bench -/
  init : S → Prop
  /-- the number of events that the stream holds -/
  size : S → ℕ
  prepare : S → (ℕ → Outcome) → Bool × S
  append : S → List BenchmarkEvent → A → Bool × S
  /-- of a read that is not cut short; one that is ends the bench before the live writes -/
  readLastNBenchEvents : S → UInt64 → Except Failure (List BenchmarkEvent)

namespace Backend

variable {S A : Type} (backend : Backend S A)

/-- Appends that all succeed. -/
def appendAll : List (List BenchmarkEvent) → (ℕ → A) → S → Option S
  | [], _, db => some db
  | batch :: batches, answers, db =>
    match backend.append db batch (answers 0) with
    | (true, db) => appendAll batches (fun i => answers (i + 1)) db
    | (false, _) => none

/-- What is drawn and what happens before the live writes. -/
structure Startup (A : Type) where
  prepare : ℕ → Outcome
  now : UInt64 → DateTime
  seed : ℕ → A

/-- Seeds the stream and loads its tail; nothing where the bench ends before that. -/
def startup (config : Config) (db : S) (env : Startup A) : Option (S × List BenchmarkEvent) :=
  match backend.prepare db env.prepare with
  | (false, _) => none
  | (true, db) =>
    (config.seedBatches env.now).bind fun batches =>
      (backend.appendAll batches env.seed db).bind fun db =>
        match backend.readLastNBenchEvents db config.cacheSize with
        | .ok tail => some (db, tail)
        | .error _ => none

end Backend

/-! ### The live writes -/

/-- Where the loop of the live writes stands. -/
inductive Point where
  /-- between two live writes, or after the last -/
  | idle
  /-- the database has confirmed the event -/
  | appended (event : BenchmarkEvent)
  /-- the event is in the local deque of `memcache_bench` as well -/
  | kept
  /-- the append has returned an error; history: whether the event is stored all the same -/
  | appendFailed (stored : Bool)
  /-- the SET has returned an error; history: whether it has taken effect all the same -/
  | setFailed (stored : Bool)

/-- The live phase over a database and a cache. -/
structure Live (S C : Type) where
  db : S
  cache : C
  /-- `i`, the number of live writes done -/
  writes : ℕ
  point : Point
  /-- neither stopped nor returned with an error -/
  running : Bool

inductive Step (A : Type) where
  /-- the clock, and the append of the next live write -/
  | append (now : DateTime) (answer : A)
  /-- the cache of the process takes the event -/
  | keep
  /-- `mc_set_tail` -/
  | set (outcome : Outcome)
  /-- the process stops -/
  | stop
  /-- Memcached drops the item -/
  | drop

variable {S A C : Type}

/-- The append of the next live write, in both benches. -/
def Live.append (backend : Backend S A) (config : Config) (σ : Live S C) (now : DateTime)
    (answer : A) : Option (Live S C) :=
  match σ.point with
  | .idle =>
    if σ.running = true ∧ σ.writes < config.liveWrites.toNat then
      let event := newEvent (config.seedEvents + .ofNat σ.writes) 1 now
      match backend.append σ.db [event] answer with
      | (true, db) => some { σ with db := db, point := .appended event }
      | (false, db) =>
        let stored := decide (backend.size σ.db < backend.size db)
        some { σ with db := db, point := .appendFailed stored, running := false }
    else none
  | _ => none

/-- What a bench starts its live phase with. -/
def Live.start (db : S) (cache : C) : Live S C where
  db := db
  cache := cache
  writes := 0
  point := .idle
  running := true

/-! ### `hot_cache_bench` -/

structure RecentEventsCache where
  inner : List BenchmarkEvent
  capacity : UInt64

namespace RecentEventsCache

def new (capacity : UInt64) : RecentEventsCache where
  inner := []
  capacity := capacity

def push (cache : RecentEventsCache) (event : BenchmarkEvent) : RecentEventsCache :=
  let kept :=
    if cache.inner.length = cache.capacity.toNat then cache.inner.drop 1 else cache.inner
  { cache with inner := kept ++ [event] }

def snapshot (cache : RecentEventsCache) : List BenchmarkEvent := cache.inner

end RecentEventsCache

abbrev HotCache (S : Type) := Live S RecentEventsCache

def HotCache.next (backend : Backend S A) (config : Config) (σ : HotCache S) :
    Step A → Option (HotCache S)
  | .append now answer => Live.append backend config σ now answer
  | .keep =>
    match σ.point, σ.running with
    | .appended event, true =>
      some { σ with cache := σ.cache.push event, writes := σ.writes + 1, point := .idle }
    | _, _ => none
  | .stop => some { σ with running := false }
  | .set _ => none
  | .drop => none

/-- The live phase of `hot_cache_bench`; the cache is filled by pushing the loaded events. -/
def hotCache (backend : Backend S A) (config : Config) : System (HotCache S) (Step A) where
  init σ := ∃ db₀ env db tail, backend.init db₀ ∧
    backend.startup config db₀ env = some (db, tail) ∧
    σ = .start db (tail.foldl RecentEventsCache.push (.new config.cacheSize))
  next := HotCache.next backend config

/-! ### `memcache_bench` -/

/-- The local deque, and what Memcached holds under the key. -/
structure Memcached where
  localTail : List BenchmarkEvent
  item : Option (List UInt8)
  /-- history: the server has dropped an item -/
  dropped : Bool

variable (bincode : Codec (List BenchmarkEvent) (List UInt8))

/-- `mc_set_tail` -/
def mcSetTail (item : Option (List UInt8)) (tail : List BenchmarkEvent) (outcome : Outcome) :
    Bool × Option (List UInt8) :=
  outcome.run ((bincode.encode tail).map some) item

/-- The local deque takes an event. -/
def keepTail (config : Config) (localTail : List BenchmarkEvent) (event : BenchmarkEvent) :
    List BenchmarkEvent :=
  (if localTail.length = config.cacheSize.toNat then localTail.drop 1 else localTail) ++ [event]

abbrev Memcache (S : Type) := Live S Memcached

def Memcache.next (backend : Backend S A) (config : Config) (σ : Memcache S) :
    Step A → Option (Memcache S)
  | .append now answer => Live.append backend config σ now answer
  | .keep =>
    match σ.point, σ.running with
    | .appended event, true =>
      let localTail := keepTail config σ.cache.localTail event
      some { σ with cache := { σ.cache with localTail := localTail }, point := .kept }
    | _, _ => none
  | .set outcome =>
    match σ.point, σ.running with
    | .kept, true =>
      match mcSetTail bincode σ.cache.item σ.cache.localTail outcome with
      | (true, item) =>
        some { σ with
          cache := { σ.cache with item := item }, writes := σ.writes + 1, point := .idle }
      | (false, item) =>
        let stored := outcome.takesEffect (bincode.encode σ.cache.localTail)
        some { σ with
          cache := { σ.cache with item := item }, point := .setFailed stored, running := false }
    | _, _ => none
  | .stop => some { σ with running := false }
  | .drop => some { σ with cache := { σ.cache with item := none, dropped := true } }

/-- The live phase of `memcache_bench`. The loaded tail is stored, over whatever item an earlier
run may have left. -/
def memcache (backend : Backend S A) (config : Config) : System (Memcache S) (Step A) where
  init σ := ∃ db₀ env db tail left item, backend.init db₀ ∧
    backend.startup config db₀ env = some (db, tail) ∧
    mcSetTail bincode left tail .done = (true, item) ∧
    σ = .start db { localTail := tail, item := item, dropped := false }
  next := Memcache.next bincode backend config

/-! ### The tail follows the stream -/

/-- What a database does for the benches: `stream` gives the events of its stream, oldest first,
in the states of `Inv`. -/
structure Backend.Laws (backend : Backend S A) (Inv : S → Prop)
    (stream : S → List BenchmarkEvent) : Prop where
  prepare : ∀ {db db' answers}, backend.init db → backend.prepare db answers = (true, db') → Inv db'
  /-- an append that fails may have stored events, from the first on -/
  append : ∀ {db db' batch answer ok}, Inv db → backend.append db batch answer = (ok, db') →
    Inv db' ∧ ∃ stored, stored <+: batch ∧ stream db' = stream db ++ stored ∧
      (ok = true → stored = batch)
  size : ∀ {db}, Inv db → backend.size db = (stream db).length
  read : ∀ {db n tail}, Inv db → n ≠ 0 → backend.readLastNBenchEvents db n = .ok tail →
    tail = (stream db).rtake n.toNat

/-- The tail is the end of the stream without its newest event. -/
def Behind (n : ℕ) (stream tail : List BenchmarkEvent) : Prop :=
  ∃ before newest, stream = before ++ [newest] ∧ tail = before.rtake n

/-- What the cached tail is, by where the loop stands. -/
def Follows (n : ℕ) (stream tail : List BenchmarkEvent) : Point → Prop
  | .idle => tail = stream.rtake n
  | .appended event => ∃ before, stream = before ++ [event] ∧ tail = before.rtake n
  | .kept => Behind n stream tail
  -- an operation that fails may have taken effect: the append, so that the stream is ahead
  | .appendFailed true => Behind n stream tail
  | .appendFailed false => tail = stream.rtake n
  -- or the SET, so that the tail is up to date
  | .setFailed true => tail = stream.rtake n
  | .setFailed false => Behind n stream tail

section

variable {bincode : Codec (List BenchmarkEvent) (List UInt8)} {backend : Backend S A}
  {Inv : S → Prop} {stream : S → List BenchmarkEvent} {config : Config}

lemma toNat_ne_zero {n : UInt64} (hn : n ≠ 0) : n.toNat ≠ 0 :=
  fun h => hn (UInt64.toNat_inj.mp (by simpa using h))

lemma push_eq_slide (cache : RecentEventsCache) (event : BenchmarkEvent) :
    cache.push event
      = { cache with inner := Fold.slide cache.capacity.toNat cache.inner event } := rfl

lemma foldl_push (cache : RecentEventsCache) (events : List BenchmarkEvent) :
    events.foldl RecentEventsCache.push cache
      = { cache with inner := events.foldl (Fold.slide cache.capacity.toNat) cache.inner } := by
  induction events generalizing cache with
  | nil => rfl
  | cons event events ih => rw [List.foldl_cons, ih, push_eq_slide, List.foldl_cons]

lemma Backend.Laws.appendAll (h : backend.Laws Inv stream) {batches : List (List BenchmarkEvent)}
    {answers : ℕ → A} {db db' : S} (hdb : Inv db)
    (hs : backend.appendAll batches answers db = some db') : Inv db' := by
  induction batches generalizing db answers with
  | nil =>
    obtain rfl := Option.some.inj hs
    exact hdb
  | cons batch batches ih =>
    rw [Backend.appendAll] at hs
    split at hs
    · rename_i db₁ hbatch
      exact ih (h.append hdb hbatch).1 hs
    · cases hs

/-- The live phase starts with the end of the stream. -/
lemma Backend.Laws.startup (h : backend.Laws Inv stream) (hn : config.cacheSize ≠ 0)
    {db₀ db : S} {env : Backend.Startup A} {tail : List BenchmarkEvent} (hinit : backend.init db₀)
    (hs : backend.startup config db₀ env = some (db, tail)) :
    Inv db ∧ tail = (stream db).rtake config.cacheSize.toNat := by
  rw [Backend.startup] at hs
  split at hs
  · cases hs
  · rename_i db₁ hprepare
    obtain ⟨batches, -, hs⟩ := Option.bind_eq_some_iff.mp hs
    obtain ⟨db₂, hseed, hs⟩ := Option.bind_eq_some_iff.mp hs
    split at hs
    · rename_i loaded hread
      obtain ⟨rfl, rfl⟩ := Prod.mk.inj (Option.some.inj hs)
      have hinv := h.appendAll (h.prepare hinit hprepare) hseed
      exact ⟨hinv, h.read hinv hn hread⟩
    · cases hs

/-- The append of a live write leaves the tail where it was. -/
lemma Backend.Laws.liveAppend (h : backend.Laws Inv stream) {C : Type} {σ σ' : Live S C}
    {now : DateTime} {answer : A} {n : ℕ} {tail : List BenchmarkEvent} (hinv : Inv σ.db)
    (htail : Follows n (stream σ.db) tail σ.point)
    (hs : Live.append backend config σ now answer = some σ') :
    σ.point = .idle ∧ Inv σ'.db ∧ σ'.cache = σ.cache ∧
      ((∃ event, σ'.point = .appended event) ∨ ∃ stored, σ'.point = .appendFailed stored) ∧
      Follows n (stream σ'.db) tail σ'.point := by
  simp only [Live.append] at hs
  split at hs
  · rename_i hpoint
    rw [hpoint] at htail
    have hidle : tail = (stream σ.db).rtake n := htail
    split_ifs at hs
    split at hs
    · rename_i db happend
      obtain rfl := Option.some.inj hs
      obtain ⟨hinv', stored, -, hstream, hall⟩ := h.append hinv happend
      exact ⟨hpoint, hinv', rfl, .inl ⟨_, rfl⟩, stream σ.db, by rw [hstream, hall rfl], hidle⟩
    · rename_i db happend
      obtain rfl := Option.some.inj hs
      obtain ⟨hinv', stored, hprefix, hstream, -⟩ := h.append hinv happend
      refine ⟨hpoint, hinv', rfl, .inr ⟨_, rfl⟩, ?_⟩
      -- of one event either nothing is stored or the event
      rw [h.size hinv, h.size hinv', hstream]
      rcases List.prefix_cons_iff.mp hprefix with rfl | ⟨rest, rfl, hrest⟩
      · rw [List.append_nil, decide_eq_false (lt_irrefl _)]
        exact hidle
      · obtain rfl := List.prefix_nil.mp hrest
        rw [decide_eq_true (by simp)]
        exact ⟨stream σ.db, _, rfl, hidle⟩
  · cases hs

/-! ### `hot_cache_bench` -/

structure HotInv (Inv : S → Prop) (stream : S → List BenchmarkEvent) (config : Config)
    (σ : HotCache S) : Prop where
  db : Inv σ.db
  capacity : σ.cache.capacity = config.cacheSize
  follows : Follows config.cacheSize.toNat (stream σ.db) σ.cache.snapshot σ.point

lemma HotInv.next (h : backend.Laws Inv stream) (hn : config.cacheSize ≠ 0) {σ σ' : HotCache S}
    {step : Step A} (hinv : HotInv Inv stream config σ)
    (hs : HotCache.next backend config σ step = some σ') : HotInv Inv stream config σ' := by
  cases step with
  | append now answer =>
    obtain ⟨-, hdb, hcache, -, hfollows⟩ := h.liveAppend hinv.db hinv.follows hs
    exact ⟨hdb, by rw [hcache, hinv.capacity], by rw [hcache]; exact hfollows⟩
  | keep =>
    simp only [HotCache.next] at hs
    split at hs
    · rename_i event hpoint hrunning
      obtain rfl := Option.some.inj hs
      have hfollows := hinv.follows
      rw [hpoint] at hfollows
      obtain ⟨before, hstream, htail⟩ := hfollows
      refine ⟨hinv.db, hinv.capacity, ?_⟩
      show (σ.cache.push event).snapshot = (stream σ.db).rtake config.cacheSize.toNat
      rw [hstream, ← Fold.slide_rtake (toNat_ne_zero hn), ← htail, push_eq_slide, hinv.capacity]
      rfl
    · cases hs
  | set outcome => cases hs
  | stop =>
    obtain rfl := Option.some.inj hs
    exact ⟨hinv.db, hinv.capacity, hinv.follows⟩
  | drop => cases hs

/-- The snapshot of the cache follows the stream. -/
theorem hot_cache_follows (h : backend.Laws Inv stream) (hn : config.cacheSize ≠ 0)
    {σ : HotCache S} (hσ : (hotCache backend config).Reachable σ) :
    Follows config.cacheSize.toNat (stream σ.db) σ.cache.snapshot σ.point := by
  refine HotInv.follows (hσ.invariant (P := HotInv Inv stream config) ?_ ?_)
  · rintro _ ⟨db₀, env, db, tail, hinit, hstartup, rfl⟩
    obtain ⟨hinv, htail⟩ := h.startup hn hinit hstartup
    refine ⟨hinv, by rw [Live.start, foldl_push]; rfl, ?_⟩
    show RecentEventsCache.inner _ = (stream db).rtake config.cacheSize.toNat
    rw [Live.start, foldl_push, htail]
    exact (Fold.foldl_slide_nil (toNat_ne_zero hn) _).trans Fold.rtake_rtake
  · exact fun σ step σ' _ hinv _ hs => HotInv.next h hn hinv hs

/-! ### `memcache_bench` -/

/-- The local deque is ahead of the item from the moment it takes an event. -/
def Keeps (n : ℕ) (stream localTail : List BenchmarkEvent) : Point → Prop
  | .kept => localTail = stream.rtake n
  | .setFailed _ => True
  | point => Follows n stream localTail point

structure MemInv (bincode : Codec (List BenchmarkEvent) (List UInt8)) (Inv : S → Prop)
    (stream : S → List BenchmarkEvent) (config : Config) (σ : Memcache S) : Prop where
  db : Inv σ.db
  keeps : Keeps config.cacheSize.toNat (stream σ.db) σ.cache.localTail σ.point
  item : ∀ bytes ∈ σ.cache.item, ∃ tail, bincode.decode bytes = some tail ∧
    Follows config.cacheSize.toNat (stream σ.db) tail σ.point
  dropped : σ.cache.dropped = false → σ.cache.item.isSome

/-- What a SET leaves under the key: the tail if it takes effect, what was there otherwise. -/
lemma mcSetTail_cases {item item' : Option (List UInt8)} {tail : List BenchmarkEvent}
    {outcome : Outcome} {ok : Bool} (hs : mcSetTail bincode item tail outcome = (ok, item')) :
    (outcome.takesEffect (bincode.encode tail) = true ∧
      ∃ bytes, bincode.encode tail = some bytes ∧ item' = some bytes) ∨
    (outcome.takesEffect (bincode.encode tail) = false ∧ ok = false ∧ item' = item) := by
  have heffect : outcome.takesEffect ((bincode.encode tail).map some)
      = outcome.takesEffect (bincode.encode tail) := by
    rw [Outcome.takesEffect, Outcome.takesEffect, Option.isSome_map]
  rcases Outcome.run_cases hs with ⟨htakes, hencode⟩ | ⟨htakes, hok, hitem⟩
  · obtain ⟨bytes, hbytes, hitem⟩ := Option.map_eq_some_iff.mp hencode
    exact .inl ⟨heffect ▸ htakes, bytes, hbytes, hitem.symm⟩
  · exact .inr ⟨heffect ▸ htakes, hok, hitem.symm⟩

/-- An append leaves the local deque and the item where they were. -/
lemma MemInv.append (h : backend.Laws Inv stream) {σ σ' : Memcache S}
    (hinv : MemInv bincode Inv stream config σ) {now : DateTime} {answer : A}
    (hs : Live.append backend config σ now answer = some σ') :
    MemInv bincode Inv stream config σ' := by
  have hidle : σ.point = .idle := by
    by_contra hpoint
    rw [Live.append] at hs
    split at hs
    · exact hpoint ‹_›
    · cases hs
  have hlocal : Follows config.cacheSize.toNat (stream σ.db) σ.cache.localTail σ.point := by
    have hkeeps := hinv.keeps
    rw [hidle] at hkeeps ⊢
    exact hkeeps
  obtain ⟨-, hdb, hcache, hpoint, hfollows⟩ := h.liveAppend hinv.db hlocal hs
  refine ⟨hdb, ?_, ?_, by rw [hcache]; exact hinv.dropped⟩
  · rw [hcache]
    rcases hpoint with ⟨event, hpoint⟩ | ⟨stored, hpoint⟩
    · rwa [hpoint] at hfollows ⊢
    · rwa [hpoint] at hfollows ⊢
  · intro bytes hbytes
    rw [hcache] at hbytes
    obtain ⟨tail, hdecode, htail⟩ := hinv.item bytes hbytes
    exact ⟨tail, hdecode, (h.liveAppend hinv.db htail hs).2.2.2.2⟩

/-- The local deque takes the event of the append. -/
lemma MemInv.keep (hn : config.cacheSize ≠ 0) {σ : Memcache S}
    (hinv : MemInv bincode Inv stream config σ) {event : BenchmarkEvent}
    (hpoint : σ.point = .appended event) :
    MemInv bincode Inv stream config { σ with
      cache := { σ.cache with localTail := keepTail config σ.cache.localTail event }
      point := .kept } := by
  refine ⟨hinv.db, ?_, ?_, hinv.dropped⟩
  · have hkeeps := hinv.keeps
    rw [hpoint] at hkeeps
    obtain ⟨before, hstream, hlocal⟩ := hkeeps
    show keepTail config σ.cache.localTail event = (stream σ.db).rtake config.cacheSize.toNat
    rw [hstream, ← Fold.slide_rtake (toNat_ne_zero hn), ← hlocal]
    rfl
  · intro bytes hbytes
    obtain ⟨tail, hdecode, htail⟩ := hinv.item bytes hbytes
    rw [hpoint] at htail
    obtain ⟨before, hstream, htail⟩ := htail
    exact ⟨tail, hdecode, before, event, hstream, htail⟩

/-- An item that is set holds the local deque, which is up to date. -/
lemma MemInv.set {σ σ' : Memcache S} (hinv : MemInv bincode Inv stream config σ)
    {outcome : Outcome} (hs : Memcache.next bincode backend config σ (.set outcome) = some σ') :
    MemInv bincode Inv stream config σ' := by
  simp only [Memcache.next] at hs
  split at hs
  · rename_i hpoint hrunning
    have hlocal := hinv.keeps
    rw [hpoint] at hlocal
    have hset : ∀ {bytes}, bincode.encode σ.cache.localTail = some bytes →
        ∃ tail, bincode.decode bytes = some tail ∧
          tail = (stream σ.db).rtake config.cacheSize.toNat :=
      fun hbytes => ⟨_, bincode.decode_encode hbytes, hlocal⟩
    split at hs
    · rename_i item hitem
      obtain rfl := Option.some.inj hs
      rcases mcSetTail_cases hitem with ⟨-, bytes, hbytes, rfl⟩ | ⟨-, hok, -⟩
      · refine ⟨hinv.db, hlocal, fun bytes' hbytes' => ?_, fun _ => rfl⟩
        obtain rfl := Option.some.inj hbytes'
        exact hset hbytes
      · cases hok
    · rename_i item hitem
      obtain rfl := Option.some.inj hs
      rcases mcSetTail_cases hitem with ⟨htakes, bytes, hbytes, rfl⟩ | ⟨htakes, -, rfl⟩
      · refine ⟨hinv.db, trivial, fun bytes' hbytes' => ?_, fun _ => rfl⟩
        obtain rfl := Option.some.inj hbytes'
        rw [htakes]
        exact hset hbytes
      · refine ⟨hinv.db, trivial, fun bytes hbytes => ?_, hinv.dropped⟩
        obtain ⟨tail, hdecode, htail⟩ := hinv.item bytes hbytes
        rw [hpoint] at htail
        rw [htakes]
        exact ⟨tail, hdecode, htail⟩
  · cases hs

lemma MemInv.next (h : backend.Laws Inv stream) (hn : config.cacheSize ≠ 0) {σ σ' : Memcache S}
    {step : Step A} (hinv : MemInv bincode Inv stream config σ)
    (hs : Memcache.next bincode backend config σ step = some σ') :
    MemInv bincode Inv stream config σ' := by
  cases step with
  | append now answer => exact hinv.append h hs
  | keep =>
    simp only [Memcache.next] at hs
    split at hs
    · rename_i event hpoint hrunning
      obtain rfl := Option.some.inj hs
      exact hinv.keep hn hpoint
    · cases hs
  | set outcome => exact hinv.set hs
  | stop =>
    obtain rfl := Option.some.inj hs
    exact ⟨hinv.db, hinv.keeps, hinv.item, hinv.dropped⟩
  | drop =>
    obtain rfl := Option.some.inj hs
    exact ⟨hinv.db, hinv.keeps, by simp, by simp⟩

/-- What Memcached holds follows the stream, and it holds something unless the server has
dropped it. -/
theorem memcache_follows (h : backend.Laws Inv stream) (hn : config.cacheSize ≠ 0)
    {σ : Memcache S} (hσ : (memcache bincode backend config).Reachable σ) :
    (∀ bytes ∈ σ.cache.item, ∃ tail, bincode.decode bytes = some tail ∧
      Follows config.cacheSize.toNat (stream σ.db) tail σ.point) ∧
      (σ.cache.dropped = false → σ.cache.item.isSome) := by
  have hinv := hσ.invariant (P := MemInv bincode Inv stream config) ?_ ?_
  · exact ⟨hinv.item, hinv.dropped⟩
  · rintro _ ⟨db₀, env, db, tail, left, item, hinit, hstartup, hset, rfl⟩
    obtain ⟨hinv, htail⟩ := h.startup hn hinit hstartup
    rcases mcSetTail_cases hset with ⟨-, bytes, hbytes, rfl⟩ | ⟨-, hok, -⟩
    · refine ⟨hinv, htail, fun bytes' hbytes' => ?_, fun _ => rfl⟩
      obtain rfl := Option.some.inj hbytes'
      exact ⟨tail, bincode.decode_encode hbytes, htail⟩
    · cases hok
  · exact fun σ step σ' _ hinv _ hs => MemInv.next h hn hinv hs

end

end EventSourcing.HotTail
