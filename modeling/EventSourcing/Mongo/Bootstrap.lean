import EventSourcing.Concurrency.Restart
import EventSourcing.Mongo.Database

/-!
# Setting up the collections

`MongoEventStore::bootstrap` and `MongoClient::ensure_collection_event_store`, operation by
operation: any of them may fail, and the process may stop between any two. Both create a
collection and then its indexes, and both return before the indexes where the collection is
already there.
-/

namespace EventSourcing.Mongo

open Concurrency

structure IndexModel where
  name : String
  keys : List String
  unique : Bool
  deriving DecidableEq

/-- What the two functions set up. -/
structure Schema where
  collections : List String
  /-- the indexes of a collection -/
  indexes : String → List IndexModel
  /-- field `seq` of the document `counter` of `_global_seq` -/
  globalSeq : Option Int

namespace Schema

/-- A database nothing has been created in. -/
def empty : Schema where
  collections := []
  indexes _ := []
  globalSeq := none

/-- `create_collection`; code 48 (NamespaceExists) leaves the database as it is. -/
def createCollection (name : String) (schema : Schema) : Schema :=
  if name ∈ schema.collections then schema
  else { schema with collections := schema.collections ++ [name] }

/-- `create_indexes`; an index that is there already stays. -/
def createIndexes (name : String) (models : List IndexModel) (schema : Schema) : Schema :=
  { schema with
    indexes := Function.update schema.indexes name
      (schema.indexes name ++ models.filter (· ∉ schema.indexes name)) }

/-- `update_one` with `$setOnInsert` and upsert on the document `counter` -/
def seedGlobalSeq (schema : Schema) : Schema :=
  { schema with globalSeq := some (schema.globalSeq.getD 0) }

end Schema

def uqStreamVersion : IndexModel where
  name := "uq_stream_version"
  keys := ["stream_id", "stream_version"]
  unique := true

def idxGlobalPosition : IndexModel where
  name := "idx_global_position"
  keys := ["global_position"]
  unique := false

def idxStreamRead : IndexModel where
  name := "idx_stream_read"
  keys := ["stream_id", "stream_version"]
  unique := false

/-! ### A collection and its indexes -/

inductive EnsurePoint where
  | createCollection
  | createIndexes
  deriving DecidableEq

/-- Creates a collection and then its indexes; a collection that is there already is left with
the indexes it has. -/
def ensureStep (name : String) (models : List IndexModel) :
    EnsurePoint → Schema → Schema × Option EnsurePoint
  | .createCollection, schema =>
    if name ∈ schema.collections then (schema, none)
    else (schema.createCollection name, some .createIndexes)
  | .createIndexes, schema => (schema.createIndexes name models, none)

/-- `MongoClient::ensure_collection_event_store` -/
def ensureCollectionEventStore (name : String) : Procedure Schema EnsurePoint where
  start := .createCollection
  step := ensureStep name [uqStreamVersion, idxGlobalPosition]

/-- `MongoEventStore::ensure_events_collection` -/
def ensureEventsCollection : EnsurePoint → Schema → Schema × Option EnsurePoint :=
  ensureStep "events" [uqStreamVersion, idxGlobalPosition, idxStreamRead]

/-- Every index of the list is there. -/
def Indexed (name : String) (models : List IndexModel) (schema : Schema) : Prop :=
  ∀ model ∈ models, model ∈ schema.indexes name

/-- The collection is there with its indexes. -/
def Ensured (name : String) (models : List IndexModel) (schema : Schema) : Prop :=
  name ∈ schema.collections ∧ Indexed name models schema

/-- No run ends between the creation of the collection and that of its indexes. -/
def EndsIndexed (name : String) (schema : Schema) : EnsurePoint → Procedure.Label → Prop
  | .createCollection, .lose => name ∈ schema.collections
  | .createIndexes, .stop => False
  | _, _ => True

/-- What a run relies on at each point. -/
def AtEnsure (name : String) (models : List IndexModel) : EnsurePoint → Schema → Prop
  | .createCollection, schema => name ∈ schema.collections → Indexed name models schema
  | .createIndexes, schema => name ∈ schema.collections

section Ensure

variable {name name' : String} {models : List IndexModel} {schema : Schema} {point : EnsurePoint}

instance : Decidable (Indexed name models schema) :=
  inferInstanceAs (Decidable (∀ model ∈ models, _))

instance : Decidable (Ensured name models schema) :=
  inferInstanceAs (Decidable (_ ∧ Indexed name models schema))

instance : (point : EnsurePoint) → (label : Procedure.Label) →
    Decidable (EndsIndexed name schema point label)
  | .createCollection, .lose => inferInstanceAs (Decidable (name ∈ schema.collections))
  | .createIndexes, .stop => isFalse id
  | .createCollection, .start => isTrue trivial
  | .createCollection, .step => isTrue trivial
  | .createCollection, .stop => isTrue trivial
  | .createIndexes, .start => isTrue trivial
  | .createIndexes, .step => isTrue trivial
  | .createIndexes, .lose => isTrue trivial

lemma Schema.mem_createCollection :
    name' ∈ (schema.createCollection name).collections ↔
      name' ∈ schema.collections ∨ name' = name := by
  simp only [Schema.createCollection]
  split_ifs with h
  · exact ⟨.inl, fun hmem => hmem.elim id fun heq => heq ▸ h⟩
  · simp

@[simp] lemma Schema.createCollection_indexes :
    (schema.createCollection name).indexes = schema.indexes := by
  simp only [Schema.createCollection]
  split <;> rfl

@[simp] lemma Schema.createCollection_globalSeq :
    (schema.createCollection name).globalSeq = schema.globalSeq := by
  simp only [Schema.createCollection]
  split <;> rfl

lemma Schema.indexed_createIndexes : Indexed name models (schema.createIndexes name models) := by
  intro model hmodel
  by_cases h : model ∈ schema.indexes name <;> simp [Schema.createIndexes, h, hmodel]

lemma Ensured.createCollection (h : Ensured name models schema) (name' : String) :
    Ensured name models (schema.createCollection name') :=
  ⟨Schema.mem_createCollection.mpr (.inl h.1), by simpa [Indexed] using h.2⟩

/-- One operation leads from what its point relies on to what the next one does. -/
lemma ensureStep_spec (h : AtEnsure name models point schema) :
    (ensureStep name models point schema).2.elim
      (Ensured name models (ensureStep name models point schema).1)
      fun point' => AtEnsure name models point' (ensureStep name models point schema).1 := by
  cases point with
  | createCollection =>
    simp only [ensureStep]
    split_ifs with hmem
    · exact ⟨hmem, h hmem⟩
    · exact Schema.mem_createCollection.mpr (.inr rfl)
  | createIndexes => exact ⟨h, Schema.indexed_createIndexes⟩

/-- A run that ends otherwise leaves a collection with its indexes, or none. -/
lemma atEnsure_of_stop (h : AtEnsure name models point schema)
    (hends : EndsIndexed name schema point .stop) :
    AtEnsure name models .createCollection schema := by
  cases point with
  | createCollection => exact h
  | createIndexes => exact hends.elim

lemma atEnsure_of_lose (h : AtEnsure name models point schema)
    (hends : EndsIndexed name schema point .lose) :
    AtEnsure name models .createCollection (ensureStep name models point schema).1 := by
  cases point with
  | createCollection =>
    have hmem : name ∈ schema.collections := hends
    simpa only [ensureStep, if_pos hmem] using h
  | createIndexes => exact fun _ => Schema.indexed_createIndexes

/-- The operations of the two functions leave the sequence alone. -/
@[simp] lemma ensureStep_globalSeq :
    (ensureStep name models point schema).1.globalSeq = schema.globalSeq := by
  cases point with
  | createCollection =>
    simp only [ensureStep]
    split_ifs
    · rfl
    · exact Schema.createCollection_globalSeq
  | createIndexes => rfl

end Ensure

lemma restartable_ensureCollectionEventStore (name : String) :
    (ensureCollectionEventStore name).Restartable (EndsIndexed name)
      (AtEnsure name [uqStreamVersion, idxGlobalPosition] .createCollection)
      (AtEnsure name [uqStreamVersion, idxGlobalPosition])
      (Ensured name [uqStreamVersion, idxGlobalPosition]) where
  start _ h := h
  step _ _ h := ensureStep_spec h
  rest _ h _ := h.2
  stop _ _ h hends := atEnsure_of_stop h hends
  lose _ _ h hends := atEnsure_of_lose h hends

/-! ### The event store -/

def auxCollections : List String :=
  ["_global_seq", "_stream_versions", "_checkpoints", "_integration_outbox",
    "_competing_consumers"]

inductive BootstrapPoint where
  | events (point : EnsurePoint)
  /-- the loop over the names of the auxiliary collections -/
  | aux (names : List String)
  | seed
  deriving DecidableEq

/-- `MongoEventStore::bootstrap` -/
def bootstrap : Procedure Schema BootstrapPoint where
  start := .events .createCollection
  step
    | .events point, schema =>
      let (schema, point) := ensureEventsCollection point schema
      (schema, some (point.elim (.aux auxCollections) .events))
    | .aux [], schema => (schema, some .seed)
    | .aux (name :: names), schema => (schema.createCollection name, some (.aux names))
    | .seed, schema => (schema.seedGlobalSeq, none)

/-- What `bootstrap` is for. -/
structure Bootstrapped (schema : Schema) : Prop where
  events : Ensured "events" [uqStreamVersion, idxGlobalPosition, idxStreamRead] schema
  aux : ∀ name ∈ auxCollections, name ∈ schema.collections
  seeded : schema.globalSeq = some 0

/-- No run ends between the creation of `events` and that of its indexes. -/
def EndsEventsIndexed (schema : Schema) : BootstrapPoint → Procedure.Label → Prop
  | .events point, label => EndsIndexed "events" schema point label
  | _, _ => True

instance (schema : Schema) :
    (point : BootstrapPoint) → (label : Procedure.Label) →
      Decidable (EndsEventsIndexed schema point label)
  | .events point, label => inferInstanceAs (Decidable (EndsIndexed "events" schema point label))
  | .aux _, _ => isTrue trivial
  | .seed, _ => isTrue trivial

/-- What a run relies on at each point; `names` are the auxiliary collections still to come. -/
structure AtAux (names : List String) (schema : Schema) : Prop where
  events : Ensured "events" [uqStreamVersion, idxGlobalPosition, idxStreamRead] schema
  aux : ∀ name ∈ auxCollections, name ∈ names ∨ name ∈ schema.collections

def AtBootstrap : BootstrapPoint → Schema → Prop
  | .events point, schema =>
    AtEnsure "events" [uqStreamVersion, idxGlobalPosition, idxStreamRead] point schema
  | .aux names, schema => AtAux names schema
  | .seed, schema => AtAux [] schema

/-- The sequence has not been seeded yet or has been seeded with `0`. -/
def Unused (schema : Schema) : Prop := ∀ seq ∈ schema.globalSeq, seq = 0

lemma AtAux.createCollection {names : List String} {name : String} {schema : Schema}
    (h : AtAux (name :: names) schema) : AtAux names (schema.createCollection name) where
  events := h.events.createCollection name
  aux name' hname' := by
    rw [Schema.mem_createCollection]
    rcases h.aux name' hname' with hmem | hmem
    · rcases List.mem_cons.mp hmem with rfl | hmem
      · exact .inr (.inr rfl)
      · exact .inl hmem
    · exact .inr (.inl hmem)

/-- The last operation seeds the sequence. -/
lemma AtAux.seedGlobalSeq {schema : Schema} (h : AtAux [] schema) (hunused : Unused schema) :
    Bootstrapped schema.seedGlobalSeq where
  events := h.events
  aux name hname := (h.aux name hname).resolve_left List.not_mem_nil
  seeded := by
    cases hseq : schema.globalSeq with
    | none => simp [Schema.seedGlobalSeq, hseq]
    | some seq => simp [Schema.seedGlobalSeq, hseq, hunused seq hseq]

lemma Bootstrapped.unused {schema : Schema} (h : Bootstrapped schema) : Unused schema := by
  simp [Unused, h.seeded]

/-- Past the creation of the indexes a run may end anywhere. -/
lemma AtAux.rest {names : List String} {schema : Schema} (h : AtAux names schema) :
    AtBootstrap (.events .createCollection) schema :=
  fun _ => h.events.2

lemma restartable_bootstrap :
    bootstrap.Restartable EndsEventsIndexed
      (fun schema => AtBootstrap (.events .createCollection) schema ∧ Unused schema)
      (fun point schema => AtBootstrap point schema ∧ Unused schema)
      Bootstrapped where
  start _ h := h
  step point schema h := by
    obtain ⟨hat, hunused⟩ := h
    cases point with
    | events point =>
      have hspec := ensureStep_spec hat
      have hseq : (ensureEventsCollection point schema).1.globalSeq = schema.globalSeq :=
        ensureStep_globalSeq
      cases hnext : (ensureEventsCollection point schema).2 with
      | none =>
        rw [show (ensureStep _ _ point schema).2 = none from hnext] at hspec
        simp only [bootstrap, hnext, Option.elim]
        exact ⟨⟨hspec, fun _ => .inl⟩, by simpa [Unused, hseq] using hunused⟩
      | some point' =>
        rw [show (ensureStep _ _ point schema).2 = some point' from hnext] at hspec
        simp only [bootstrap, hnext, Option.elim]
        exact ⟨hspec, by simpa [Unused, hseq] using hunused⟩
    | aux names =>
      cases names with
      | nil => exact ⟨hat, hunused⟩
      | cons name names =>
        simp only [bootstrap, Option.elim]
        exact ⟨AtAux.createCollection hat, by simpa [Unused] using hunused⟩
    | seed => exact AtAux.seedGlobalSeq hat hunused
  rest _ h := ⟨fun _ => h.events.2, h.unused⟩
  stop point schema h hends := by
    obtain ⟨hat, hunused⟩ := h
    cases point with
    | events point => exact ⟨atEnsure_of_stop hat hends, hunused⟩
    | aux names => exact ⟨AtAux.rest hat, hunused⟩
    | seed => exact ⟨AtAux.rest hat, hunused⟩
  lose point schema h hends := by
    obtain ⟨hat, hunused⟩ := h
    cases point with
    | events point =>
      have hseq : (ensureEventsCollection point schema).1.globalSeq = schema.globalSeq :=
        ensureStep_globalSeq
      exact ⟨atEnsure_of_lose hat hends, by simpa [Unused, bootstrap, hseq] using hunused⟩
    | aux names =>
      cases names with
      | nil => exact ⟨AtAux.rest hat, hunused⟩
      | cons name names =>
        exact ⟨(AtAux.createCollection hat).rest, by simpa [Unused, bootstrap] using hunused⟩
    | seed =>
      have hdone := AtAux.seedGlobalSeq hat hunused
      exact ⟨fun _ => hdone.events.2, hdone.unused⟩

/-- In every history of runs on an initially empty database none of which ends between the
creation of the collection and that of its indexes, a run that succeeds leaves everything it is
to set up. -/
theorem setup_idempotent (name : String) :
    (∀ p, (bootstrap.runs (· = .empty)).ReachBy (Procedure.Meets EndsEventsIndexed) p →
      p.2 = .succeeded → Bootstrapped p.1) ∧
    ∀ p, ((ensureCollectionEventStore name).runs (· = .empty)).ReachBy
        (Procedure.Meets (EndsIndexed name)) p →
      p.2 = .succeeded → Ensured name [uqStreamVersion, idxGlobalPosition] p.1 := by
  constructor
  · rintro ⟨schema, status⟩ h rfl
    refine restartable_bootstrap.holds ?_ h
    rintro schema rfl
    exact ⟨fun hmem => absurd hmem List.not_mem_nil, by simp [Unused, Schema.empty]⟩
  · rintro ⟨schema, status⟩ h rfl
    refine (restartable_ensureCollectionEventStore name).holds ?_ h
    rintro schema rfl
    exact fun hmem => absurd hmem List.not_mem_nil

/-! ### Runs that are stopped -/

/-- A run is stopped after `n` operations and the next one is left alone. -/
def stoppedAfter (n m : ℕ) : List Procedure.Label :=
  .start :: List.replicate n .step ++ .stop :: .start :: List.replicate m .step

/-- Where a run is stopped right after the creation of the collection, the next one succeeds
without the indexes, in either function. -/
theorem setup_idempotent_fails :
    (¬ ∀ p, (bootstrap.runs (· = .empty)).Reachable p →
      p.2 = .succeeded → Bootstrapped p.1) ∧
    ¬ ∀ name p, ((ensureCollectionEventStore name).runs (· = .empty)).Reachable p →
      p.2 = .succeeded → Ensured name [uqStreamVersion, idxGlobalPosition] p.1 := by
  constructor
  · intro hclaim
    have hreach := System.reachable_after (M := bootstrap.runs (· = .empty)) (stoppedAfter 1 8)
      (s := (.empty, .idle)) ⟨rfl, rfl⟩ rfl
    exact absurd (hclaim _ hreach rfl).events (by decide)
  · intro hclaim
    have hreach := System.reachable_after
      (M := (ensureCollectionEventStore "bench-stream-0").runs (· = .empty)) (stoppedAfter 1 1)
      (s := (.empty, .idle)) ⟨rfl, rfl⟩ rfl
    exact absurd (hclaim _ _ hreach rfl) (by decide)

/-- A run that is stopped later does no harm. -/
theorem setup_idempotent_stopped :
    Bootstrapped ((bootstrap.runs (· = .empty)).after (stoppedAfter 4 8) (.empty, .idle)).1 ∧
    Ensured "bench-stream-0" [uqStreamVersion, idxGlobalPosition]
      (((ensureCollectionEventStore "bench-stream-0").runs (· = .empty)).after
        (stoppedAfter 0 2) (.empty, .idle)).1 := by
  have hp := System.reachBy_after (M := bootstrap.runs (· = .empty))
    (C := Procedure.Meets EndsEventsIndexed) (stoppedAfter 4 8) (s := (.empty, .idle))
    ⟨rfl, rfl⟩ (by decide) rfl
  have hq := System.reachBy_after
    (M := (ensureCollectionEventStore "bench-stream-0").runs (· = .empty))
    (C := Procedure.Meets (EndsIndexed "bench-stream-0")) (stoppedAfter 0 2)
    (s := (.empty, .idle)) ⟨rfl, rfl⟩ (by decide) rfl
  exact ⟨(setup_idempotent "bench-stream-0").1 _ hp rfl,
    (setup_idempotent "bench-stream-0").2 _ hq rfl⟩

/-! ### The run that nothing disturbs -/

/-- The schema is that of a database of the event store. -/
structure Describes {P : Type} (schema : Schema) (db : Database P) : Prop where
  collections : schema.collections = db.collections
  indexes : (schema.indexes "events").map (·.name) = db.indexes
  absent : "events" ∉ db.collections → schema.indexes "events" = []
  globalSeq : schema.globalSeq = db.globalSeq

section Describes

variable {P : Type} {schema : Schema} {db : Database P}

lemma Describes.createCollection (h : Describes schema db) (name : String) :
    Describes (schema.createCollection name) (db.createCollection name) := by
  simp only [Schema.createCollection, Database.createCollection, h.collections]
  split_ifs
  · exact h
  · exact ⟨rfl, h.indexes,
      fun habsent => h.absent fun hmem => habsent (List.mem_append_left _ hmem), h.globalSeq⟩

lemma Describes.seedGlobalSeq (h : Describes schema db) :
    Describes schema.seedGlobalSeq { db with globalSeq := some (db.globalSeq.getD 0) } where
  collections := h.collections
  indexes := h.indexes
  absent := h.absent
  globalSeq := congrArg (fun seq : Option Int => some (seq.getD 0)) h.globalSeq

/-- The auxiliary collections and the sequence. -/
lemma Describes.ensureAuxCollections (h : Describes schema db) :
    Describes (auxCollections.foldl (fun schema name => schema.createCollection name)
      schema).seedGlobalSeq db.ensureAuxCollections := by
  have hfold : ∀ (names : List String) {schema : Schema} {db : Database P}, Describes schema db →
      Describes (names.foldl (fun schema name => schema.createCollection name) schema)
        (names.foldl (fun db name => db.createCollection name) db) := by
    intro names
    induction names with
    | nil => exact id
    | cons name names ih => exact fun h => ih (h.createCollection name)
  exact (hfold auxCollections h).seedGlobalSeq

/-- The collection `events` and its indexes, where it is not there yet. -/
lemma Describes.ensureEventsCollection (h : Describes schema db)
    (hmem : "events" ∉ schema.collections) :
    Describes ((schema.createCollection "events").createIndexes "events"
      [uqStreamVersion, idxGlobalPosition, idxStreamRead]) db.ensureEventsCollection := by
  have hmem' : "events" ∉ db.collections := h.collections ▸ hmem
  have hnew := h.createCollection "events"
  simp only [Database.ensureEventsCollection, if_neg hmem']
  refine ⟨hnew.collections, ?_, fun habsent => ?_, hnew.globalSeq⟩
  · simp [Schema.createIndexes, h.absent hmem', uqStreamVersion, idxGlobalPosition, idxStreamRead]
  · simp [Database.createCollection, hmem'] at habsent

/-- A run that is not stopped does what `Database.bootstrap` computes. -/
theorem describes_bootstrap (h : Describes schema db) :
    ∃ n schema', (bootstrap.runs (· = .empty)).run (.start :: List.replicate n .step)
        (schema, .idle) = some (schema', .succeeded) ∧
      Describes schema' db.bootstrap := by
  by_cases hmem : "events" ∈ schema.collections
  · refine ⟨8, (auxCollections.foldl (fun schema name => schema.createCollection name)
      schema).seedGlobalSeq, ?_, ?_⟩
    · simp [System.run, Procedure.runs, Procedure.next, bootstrap, ensureEventsCollection,
        ensureStep, hmem, Procedure.proceed, auxCollections, List.replicate]
    · simpa [Database.bootstrap, Database.ensureEventsCollection, ← h.collections, hmem]
        using h.ensureAuxCollections
  · refine ⟨9, (auxCollections.foldl (fun schema name => schema.createCollection name)
      ((schema.createCollection "events").createIndexes "events"
        [uqStreamVersion, idxGlobalPosition, idxStreamRead])).seedGlobalSeq, ?_, ?_⟩
    · simp [System.run, Procedure.runs, Procedure.next, bootstrap, ensureEventsCollection,
        ensureStep, hmem, Procedure.proceed, auxCollections, List.replicate]
    · exact (h.ensureEventsCollection hmem).ensureAuxCollections

end Describes

end EventSourcing.Mongo
