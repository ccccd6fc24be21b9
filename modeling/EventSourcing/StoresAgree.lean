import EventSourcing.Mongo.Calls
import EventSourcing.Postgres.Calls
import EventSourcing.Rehydration
import Mathlib.Data.Set.Insert

/-!
# The two stores agree

`MongoEventStore` numbers events by two counters in the transaction, `PgEventStore` by a version
row and by an identity that skips a number with every call that is given up. The same calls, made
one after another and committed or given up alike, nevertheless leave the same events in the same
order, the same outbox, and aggregates that rehydrate alike (`stores_agree`).
-/

namespace EventSourcing

open Concurrency EventLog Text

variable {P PM PP A E : Type}

/-! ### What `rehydrate` returns while nothing else runs -/

namespace Mongo

variable (agg : Aggregate A E) (reg : UpcastRegistry) (toValue : P → Option Json)

/-- The clients of one state of the store. -/
def rehydrations (σ : State P) : System (List (Client P A)) ClientStep :=
  (clients (fun state envelope => agg.applyRow reg state (row toValue envelope))
    agg.default).alone σ

/-- What `rehydrate` of stream `s` may return. -/
def rehydrates (σ : State P) (s : String) : Set (A × Int) :=
  { r | ∃ (clients : List (Client P A)) (k : ℕ),
    (rehydrations agg reg toValue σ).Reachable clients ∧
      clients[k]? = some (.rehydrated s r.1 r.2) }

variable {agg reg toValue} {σ : State P} {s : String}

/-- A client whose cursor is exhausted takes what has been fetched and returns. -/
lemma rehydrations_finish {cursor : Cursor (EventEnvelope P) Int} {state : A} {v : Int}
    (hex : cursor.exhausted = true)
    (h : (rehydrations agg reg toValue σ).Reachable [.reading s cursor state v]) :
    ∃ state v, (rehydrations agg reg toValue σ).Reachable [.rehydrated s state v] := by
  obtain ⟨last, exhausted, fetched⟩ := cursor
  obtain rfl : exhausted = true := hex
  induction fetched generalizing state v with
  | nil => exact ⟨state, v, h.next (a := .finish 0) rfl⟩
  | cons e fetched ih => exact ih (h.next (a := .next 0) rfl)

/-- `rehydrate` returns what the events of the stream amount to. -/
theorem rehydrates_eq (hσ : (system P).Reachable σ) :
    rehydrates agg reg toValue σ s = {σ.expected agg reg toValue s} := by
  have hreturns : ∀ r ∈ rehydrates agg reg toValue σ s, r = σ.expected agg reg toValue s := by
    rintro ⟨state, v⟩ ⟨clients, k, hclients, hk⟩
    rw [State.expected, Aggregate.expected_map]
    exact readsStreams.rehydrated_alone hσ (fun _ h => h) hclients hk
  refine Set.eq_singleton_iff_unique_mem.mpr ⟨?_, hreturns⟩
  have hopened : (rehydrations agg reg toValue σ).Reachable
      [.reading s (.opened ⊥) agg.default (-1)] :=
    System.Reachable.next (.init rfl) (a := .find s) rfl
  -- one read that asks for more than there is finds the end
  obtain ⟨cursor, hcursor⟩ : ∃ cursor : Cursor (EventEnvelope P) Int, (Cursor.opened ⊥).fetch
      (·.streamVersion) (streamEvents σ.db.events s)
      ((streamEvents σ.db.events s).length + 1) = some cursor := ⟨_, rfl⟩
  have hex := Cursor.exhausted_of_fetch (Nat.lt_succ_self _) hcursor
  have hfetched : (rehydrations agg reg toValue σ).Reachable
      [.reading s cursor agg.default (-1)] := by
    refine hopened.next (a := .fetch 0 ((streamEvents σ.db.events s).length + 1)) ?_
    simp [rehydrations, Observer.alone, clients, hcursor]
  obtain ⟨state, v, hreturned⟩ := rehydrations_finish hex hfetched
  have hmem : (state, v) ∈ rehydrates agg reg toValue σ s := ⟨_, 0, hreturned, rfl⟩
  exact hreturns _ hmem ▸ hmem

end Mongo

namespace Postgres

variable (agg : Aggregate A E) (reg : UpcastRegistry) (toValue : P → Json)

/-- The clients of one state of the store. -/
def rehydrations (σ : State P) : System (List (Client P A)) String :=
  (clients (fun state envelope => agg.applyRow reg state (row toValue envelope))
    agg.default).alone σ

/-- What `rehydrate` of stream `s` may return. -/
def rehydrates (σ : State P) (s : String) : Set (A × Int) :=
  { r | ∃ (clients : List (Client P A)) (k : ℕ),
    (rehydrations agg reg toValue σ).Reachable clients ∧
      clients[k]? = some (.rehydrated s r.1 r.2) }

variable {agg reg toValue} {σ : State P} {s : String}

/-- `rehydrate` returns what the events of the stream amount to. -/
theorem rehydrates_eq (hσ : (system P).Reachable σ) :
    rehydrates agg reg toValue σ s = {σ.expected agg reg toValue s} := by
  have hreturns : ∀ r ∈ rehydrates agg reg toValue σ s, r = σ.expected agg reg toValue s := by
    rintro ⟨state, v⟩ ⟨clients, k, hclients, hk⟩
    rw [State.expected, Aggregate.expected_map]
    exact readsStreams.rehydrated_alone hσ (fun _ h => h) hclients hk
  refine Set.eq_singleton_iff_unique_mem.mpr ⟨?_, hreturns⟩
  have hreturned := System.Reachable.next (M := rehydrations agg reg toValue σ) (.init rfl)
    (a := s) rfl
  have hmem : rehydrate (fun state envelope => agg.applyRow reg state (row toValue envelope))
      agg.default (σ.db.stream s) ∈ rehydrates agg reg toValue σ s := ⟨_, 0, hreturned, rfl⟩
  exact hreturns _ hmem ▸ hmem

end Postgres

/-! ### The same calls on both stores -/

/-- The arguments of an append call that both stores take, with the document and the value that
serialising its payload gives. Both are read back as the same JSON value. -/
structure SharedRequest (toDoc : PM → Option Json) (toValue : PP → Json) where
  kind : AppendKind
  streamId : String
  eventType : String
  schemaVersion : Int32
  document : PM
  value : PP
  nonneg : 0 ≤ schemaVersion
  preserved : toDoc document = some (toValue value)

namespace SharedRequest

variable {toDoc : PM → Option Json} {toValue : PP → Json} (req : SharedRequest toDoc toValue)

def mongo : Mongo.AppendRequest PM where
  kind := req.kind
  streamId := req.streamId
  eventType := req.eventType
  schemaVersion := req.schemaVersion.toUInt32
  payload := some req.document

def postgres : Postgres.AppendRequest PP where
  kind := req.kind
  streamId := req.streamId
  eventType := req.eventType
  schemaVersion := req.schemaVersion
  payload := some req.value

end SharedRequest

/-! ### What the stores have in common -/

section Same

variable (toDoc : PM → Option Json) (toValue : PP → Json)

/-- The events differ at most in their ids, versions, positions and times. -/
structure SharedContent (e : Mongo.EventEnvelope PM) (e' : Postgres.EventEnvelope PP) : Prop where
  streamId : e.streamId = e'.streamId
  eventType : e.eventType = e'.eventType
  schemaVersion : (e.schemaVersion.toNat : Int) = e'.schemaVersion.toInt
  payload : toDoc e.payload = some (toValue e'.payload)

/-- The events differ at most in their ids, positions and times. -/
structure SharedEvent (e : Mongo.EventEnvelope PM) (e' : Postgres.EventEnvelope PP) : Prop extends
    SharedContent toDoc toValue e e' where
  streamVersion : e.streamVersion = e'.streamVersion

/-- The entries differ at most in their ids and positions. -/
structure SharedEntry (o : OutboxEntry PM) (o' : OutboxEntry PP) : Prop where
  streamId : o.streamId = o'.streamId
  eventType : o.eventType = o'.eventType
  payload : toDoc o.payload = some (toValue o'.payload)
  dispatched : o.dispatched = o'.dispatched
  dispatchedAt : o.dispatchedAt = o'.dispatchedAt

/-- The commits are of one function, and their events have the same content. -/
def SharedCommit (commit : Commit UInt32 PM) (commit' : Commit Int32 PP) : Prop :=
  commit.kind = commit'.kind ∧ SharedContent toDoc toValue commit.envelope commit'.envelope

end Same

/-- A list in the order of the positions. -/
def inOrder {D : Type} (position : D → Int) (docs : List D) : List D :=
  docs.insertionSort fun d d' => position d ≤ position d'

lemma inOrder_eq {D : Type} {position : D → Int} {docs : List D}
    (h : (docs.map position).Pairwise (· < ·)) : inOrder position docs = docs :=
  ((List.pairwise_map.mp h).imp le_of_lt).insertionSort_eq

section Lists

variable {α β γ : Type} {l : List α} {l' : List β} {rs : List γ}

lemma forall₂_eq_iff {f : α → γ} {g : β → γ} :
    List.Forall₂ (fun a b => f a = g b) l l' ↔ l.map f = l'.map g := by
  rw [← List.forall₂_eq_eq_eq, List.forall₂_map_left_iff, List.forall₂_map_right_iff]

/-- What two lists have in common with a third they have in common. -/
lemma forall₂_join {R : γ → α → Prop} {R' : γ → β → Prop} {T : α → β → Prop}
    (hT : ∀ r a b, R r a → R' r b → T a b) (h : List.Forall₂ R rs l)
    (h' : List.Forall₂ R' rs l') : List.Forall₂ T l l' := by
  induction h generalizing l' with
  | nil =>
    cases h'
    exact .nil
  | cons hr _ ih =>
    cases h' with
    | cons hr' h' => exact .cons (hT _ _ _ hr hr') (ih h')

end Lists

section Agree

variable {toDoc : PM → Option Json} {toValue : PP → Json}

/-- A schema version that is not negative is the same number in both stores. -/
lemma toNat_schemaVersion {v : Int32} (h : 0 ≤ v) : (v.toUInt32.toNat : Int) = v.toInt := by
  rw [Int32.toNat_toUInt32_of_le h, Int32.cast_toNatClampNeg v h]

/-- The two stores commit the same content for a call. -/
lemma SharedRequest.same_commit (req : SharedRequest toDoc toValue) {commit : Commit UInt32 PM}
    {commit' : Commit Int32 PP} (h : req.mongo.Commits commit) (h' : req.postgres.Commits commit') :
    SharedCommit toDoc toValue commit commit' := by
  refine ⟨h.1.trans h'.1.symm, ?_, ?_, ?_, ?_⟩
  · exact h.2.streamId.trans h'.2.streamId.symm
  · exact h.2.eventType.trans h'.2.eventType.symm
  · rw [h.2.schemaVersion, h'.2.schemaVersion]
    exact toNat_schemaVersion req.nonneg
  · rw [← Option.some.inj h.2.payload, ← Option.some.inj h'.2.payload]
    exact req.preserved

/-- `rehydrate` takes an event alike in both stores. -/
lemma SharedContent.row_eq {e : Mongo.EventEnvelope PM} {e' : Postgres.EventEnvelope PP}
    (h : SharedContent toDoc toValue e e') : Mongo.row toDoc e = Postgres.row toValue e' := by
  have hnonneg : 0 ≤ e'.schemaVersion := by
    rw [Int32.le_iff_toInt_le, ← h.schemaVersion]
    exact Int.natCast_nonneg _
  have hversion : e.schemaVersion = e'.schemaVersion.toUInt32 := by
    rw [← UInt32.toNat_inj, ← Int.natCast_inj, h.schemaVersion, toNat_schemaVersion hnonneg]
  rw [Mongo.row, Postgres.row, h.eventType, hversion, h.payload, Option.getD_some]

lemma committed_map {V P : Type} (f : SharedRequest toDoc toValue → AppendRequest V P)
    (calls : List (SharedRequest toDoc toValue × Bool)) :
    AppendStore.committed (calls.map fun call => (f call.1, call.2))
      = ((calls.filter (·.2)).map (·.1)).map f := by
  simp [AppendStore.committed, List.filter_map, Function.comp_def]

variable {calls : List (SharedRequest toDoc toValue × Bool)} {σ : Mongo.State PM}
  {τ : Postgres.State PP} {commits : List (Commit UInt32 PM)} {commits' : List (Commit Int32 PP)}

/-- The commits of the same calls. -/
lemma same_commits
    (h : List.Forall₂ AppendRequest.Commits
      (AppendStore.committed (calls.map fun call => (call.1.mongo, call.2))) commits)
    (h' : List.Forall₂ AppendRequest.Commits
      (AppendStore.committed (calls.map fun call => (call.1.postgres, call.2))) commits') :
    List.Forall₂ (SharedCommit toDoc toValue) commits commits' := by
  rw [committed_map SharedRequest.mongo, List.forall₂_map_left_iff] at h
  rw [committed_map SharedRequest.postgres, List.forall₂_map_left_iff] at h'
  exact forall₂_join (fun req _ _ => req.same_commit) h h'

/-- Events of the same contents have the same versions, because both stores number streams. -/
lemma same_events {events : List (Mongo.EventEnvelope PM)}
    {events' : List (Postgres.EventEnvelope PP)} (hstreams : StreamsNumbered events)
    (hstreams' : StreamsNumbered events')
    (h : List.Forall₂ (SharedContent toDoc toValue) events events') :
    List.Forall₂ (SharedEvent toDoc toValue) events events' := by
  have hids := forall₂_eq_iff.mp (h.imp fun _ _ he => he.streamId)
  have hversions := forall₂_eq_iff.mpr (hstreams.map_eq hstreams' hids)
  exact List.Forall₂.mp (fun _ _ he hv => ⟨he, hv⟩) h hversions

lemma same_outbox (h : List.Forall₂ (SharedCommit toDoc toValue) commits commits') :
    List.Forall₂ (SharedEntry toDoc toValue)
      ((outboxCommits commits).map fun commit => .ofEnvelope commit.envelope)
      ((outboxCommits commits').map fun commit => .ofEnvelope commit.envelope) := by
  rw [List.forall₂_map_left_iff, List.forall₂_map_right_iff]
  have hfilter := List.rel_filter (R := SharedCommit toDoc toValue)
    (p := fun commit => commit.kind = .appendWithOutbox)
    (q := fun commit => commit.kind = .appendWithOutbox) (fun _ _ hc => by simp [hc.1]) h
  exact hfilter.imp fun _ _ hc => ⟨hc.2.streamId, hc.2.eventType, hc.2.payload, rfl, rfl⟩

/-- The events of a stream are the same rows to `rehydrate`. -/
lemma same_rows {events : List (Mongo.EventEnvelope PM)}
    {events' : List (Postgres.EventEnvelope PP)} (s : String)
    (h : List.Forall₂ (SharedEvent toDoc toValue) events events') :
    (streamEvents events s).map (Mongo.row toDoc)
      = (streamEvents events' s).map (Postgres.row toValue) := by
  have hfilter := List.rel_filter (R := SharedEvent toDoc toValue)
    (p := fun e => e.streamId = s) (q := fun e => e.streamId = s)
    (fun _ _ he => by simp [he.streamId]) h
  exact forall₂_eq_iff.mp (hfilter.imp fun _ _ he => he.row_eq)

end Agree

/-- The same calls, one after another on an empty store of each kind, where the same calls commit:
the events in the order of their positions have the same contents and the same versions, the
outboxes hold the same entries, and `rehydrate` returns the same aggregate and last version of
every stream, for every registry of upcasters. -/
theorem stores_agree {toDoc : PM → Option Json} {toValue : PP → Json}
    (calls : List (SharedRequest toDoc toValue × Bool)) (σ : Mongo.State PM) (τ : Postgres.State PP)
    (hσ : (Mongo.appendStore PM).Sequential (calls.map fun call => (call.1.mongo, call.2)) σ)
    (hτ : (Postgres.appendStore PP).Sequential (calls.map fun call => (call.1.postgres, call.2))
      τ) :
    List.Forall₂ (SharedEvent toDoc toValue) (inOrder (·.globalPosition) σ.db.events)
      (inOrder (·.globalPosition) τ.db.events) ∧
    List.Forall₂ (SharedEntry toDoc toValue) (inOrder (·.globalPosition) σ.db.outbox)
      (inOrder (·.globalPosition) τ.db.outbox) ∧
    ∀ (A E : Type) (agg : Aggregate A E) (reg : UpcastRegistry) (s : String), ∃ result,
      Mongo.rehydrates agg reg toDoc σ s = {result} ∧
        Postgres.rehydrates agg reg toValue τ s = {result} := by
  obtain ⟨hreach, commits, hrecords⟩ := Mongo.appendStore_laws.records hσ
  obtain ⟨hreach', commits', hrecords'⟩ := Postgres.appendStore_laws.records hτ
  change AppendStore.Records _ commits σ.db.events σ.db.outbox at hrecords
  change AppendStore.Records _ commits' τ.db.events τ.db.outbox at hrecords'
  have hcommits := same_commits hrecords.requests hrecords'.requests
  have hevents : List.Forall₂ (SharedEvent toDoc toValue) σ.db.events τ.db.events := by
    refine same_events (Mongo.inv_of_reachable hreach).db.streams
      (Postgres.inv_of_reachable hreach').db.streams ?_
    rw [hrecords.events_eq, hrecords'.events_eq, List.forall₂_map_left_iff,
      List.forall₂_map_right_iff]
    exact hcommits.imp fun _ _ hc => hc.2
  have houtbox : List.Forall₂ (SharedEntry toDoc toValue) σ.db.outbox τ.db.outbox := by
    rw [hrecords.outbox_eq, hrecords'.outbox_eq]
    exact same_outbox hcommits
  refine ⟨?_, ?_, fun A E agg reg s => ?_⟩
  · rw [inOrder_eq hrecords.ascending, inOrder_eq hrecords'.ascending]
    exact hevents
  · rw [inOrder_eq hrecords.outbox_ascending, inOrder_eq hrecords'.outbox_ascending]
    exact houtbox
  · refine ⟨_, Mongo.rehydrates_eq hreach, ?_⟩
    rw [Postgres.rehydrates_eq hreach', Postgres.State.expected, Mongo.State.expected,
      same_rows s hevents]

/-! ### Three calls, the second of which is given up -/

def placeOrder : SharedRequest (fun n => some (quantity n)) quantity :=
  ⟨.appendWithOutbox, "order-1", "OrderPlaced", 1, 2, 2, by decide, rfl⟩

def cancelOrder : SharedRequest (fun n => some (quantity n)) quantity :=
  ⟨.append, "order-1", "OrderCancelled", 1, 0, 0, by decide, rfl⟩

/-- A call up to its insert, and `last` after it. -/
def Mongo.insertThen (c : String) (last : List (Mongo.CallStep ℕ)) : List (Mongo.CallStep ℕ) :=
  [.advanceVersion, .advanceSeq, .insertEvent c "t"] ++ last

def Postgres.insertThen (c : String) (g : Int) (last : List (Postgres.CallStep ℕ)) :
    List (Postgres.CallStep ℕ) :=
  [.advanceVersion, .drawPosition g, .insertEvent c "t"] ++ last

/-- The second event has the position `1` in MongoDB and `3` in PostgreSQL. -/
theorem stores_agree_given_up : ∃ (σ : Mongo.State ℕ) (τ : Postgres.State ℕ),
    σ.db.events.map (fun e => (e.streamVersion, e.globalPosition)) = [(0, 0), (1, 1)] ∧
    τ.db.events.map (fun e => (e.streamVersion, e.globalPosition)) = [(0, 1), (1, 3)] ∧
    List.Forall₂ (SharedEvent (fun n => some (quantity n)) quantity)
      (inOrder (·.globalPosition) σ.db.events) (inOrder (·.globalPosition) τ.db.events) ∧
    ∃ result, Mongo.rehydrates noted addNotes (fun n => some (quantity n)) σ "order-1" = {result} ∧
      Postgres.rehydrates noted addNotes quantity τ "order-1" = {result} := by
  have hempty : (Mongo.appendStore ℕ).Sequential [] .initial := .nil rfl
  have hσ := ((hempty.call placeOrder.mongo (Mongo.insertThen "0" [.insertOutbox, .commit true])
    (System.run_after (by decide))).call cancelOrder.mongo
    (Mongo.insertThen "1" [.fail "failed to commit transaction", .abort])
    (System.run_after (by decide))).call cancelOrder.mongo
    (Mongo.insertThen "2" [.commit true]) (System.run_after (by decide))
  have hempty' : (Postgres.appendStore ℕ).Sequential [] .initial := .nil rfl
  have hτ := ((hempty'.call placeOrder.postgres
    (Postgres.insertThen "0" 1 [.insertOutbox, .commit true])
    (System.run_after (by decide))).call cancelOrder.postgres
    (Postgres.insertThen "1" 2 [.fail "failed to commit", .abort])
    (System.run_after (by decide))).call cancelOrder.postgres
    (Postgres.insertThen "2" 3 [.commit true]) (System.run_after (by decide))
  obtain ⟨hevents, -, hrehydrate⟩ :=
    stores_agree [(placeOrder, true), (cancelOrder, false), (cancelOrder, true)] _ _ hσ hτ
  exact ⟨_, _, by decide, by decide, hevents, hrehydrate ℕ Unit noted addNotes "order-1"⟩

end EventSourcing
