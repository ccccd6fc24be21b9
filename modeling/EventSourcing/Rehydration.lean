import EventSourcing.Mongo.Rehydrate
import EventSourcing.Postgres.Rehydrate
import EventSourcing.Store.ConsistentRead
import EventSourcing.Store.Upcast

/-!
# What `rehydrate` returns

Whatever else runs, `rehydrate` returns what the events of its stream amount to that were
committed at one moment between its call and its return, in commit order: each is taken through
its upcasters and applied, unless it cannot be decoded (`rehydrate_exact`).
-/

namespace EventSourcing

open Concurrency Text

variable {P A E : Type} {k : ℕ}

/-! ### MongoDB -/

namespace Mongo

/-- An event as the loop of `rehydrate` takes it; `toValue` gives the JSON value of a payload. -/
def row (toValue : P → Option Json) (envelope : EventEnvelope P) : String × UInt32 × Json :=
  (envelope.eventType, envelope.schemaVersion, (toValue envelope.payload).getD (.object []))

/-- The store, and clients that rehydrate an aggregate. -/
def rehydrating (agg : Aggregate A E) (reg : UpcastRegistry) (toValue : P → Option Json) :
    System (State P × List (Client P A)) (Action P ⊕ ClientStep) :=
  (system P).observe
    (clients (fun state envelope => agg.applyRow reg state (row toValue envelope)) agg.default)

/-- What the events of a stream amount to. -/
def State.expected (agg : Aggregate A E) (reg : UpcastRegistry) (toValue : P → Option Json)
    (σ : State P) (s : String) : A × Int :=
  agg.expected reg ((streamEvents σ.db.events s).map (row toValue))

/-- The step commits no event of stream `s`. -/
def CommitsElsewhere (s : String) (p : State P × List (Client P A)) :
    Action P ⊕ ClientStep → Prop
  | .inl a => ∀ e ∈ p.1.committing a, e.streamId ≠ s
  | .inr _ => True

variable {apply : A → EventEnvelope P → A} {default : A}

/-- What a client has read of its stream is kept by the steps of all clients. -/
lemma clients_exact {past : List (EventEnvelope P) → Prop} {σ : State P}
    {clients clients' : List (Client P A)} {step : ClientStep} (hσ : (system P).Reachable σ)
    (hpast : past σ.db.events)
    (hs : (Mongo.clients apply default).next σ clients step = some clients')
    (h : ∀ client, clients[k]? = some client → client.Exact apply default past σ.db.events) :
    ∀ client, clients'[k]? = some client → client.Exact apply default past σ.db.events := by
  have hstreams := EventLog.streamsNumbered_of_reachable (simulates_eventLog.reachable hσ)
  cases step with
  | find s =>
    obtain rfl := Option.some.inj hs
    exact process_join h fun _ => Client.exact_opened
  | fetch j n =>
    simp only [Mongo.clients] at hs
    split at hs
    · rename_i hj
      obtain ⟨cursor, hc, rfl⟩ := Option.map_eq_some_iff.mp hs
      exact process_set h fun heq => (h _ (heq ▸ hj)).fetch hstreams hpast hc
    · cases hs
  | next j =>
    simp only [Mongo.clients] at hs
    split at hs
    · rename_i hj
      obtain ⟨⟨e, cursor⟩, hc, rfl⟩ := Option.map_eq_some_iff.mp hs
      exact process_set h fun heq => (h _ (heq ▸ hj)).take hc
    · cases hs
  | finish j =>
    simp only [Mongo.clients] at hs
    split at hs
    · rename_i hj
      split_ifs at hs with hc
      obtain rfl := Option.some.inj hs
      exact process_set h fun heq => (h _ (heq ▸ hj)).finish hc
    · cases hs

lemma readsStreams : ReadsStreams (system P) (clients apply default) (·.db.events)
    State.committing apply default where
  simulates := simulates_eventLog
  commits _ _ _ hσ hs := events_next (inv_of_reachable hσ) hs
  reads _ _ _ _ _ _ hσ hpast hs h := clients_exact hσ hpast hs h

end Mongo

/-! ### PostgreSQL -/

namespace Postgres

/-- An event as the loop of `rehydrate` takes it; `toValue` gives the value of a payload. -/
def row (toValue : P → Json) (envelope : EventEnvelope P) : String × UInt32 × Json :=
  (envelope.eventType, envelope.schemaVersion.toUInt32, toValue envelope.payload)

/-- The store, and clients that rehydrate an aggregate. -/
def rehydrating (agg : Aggregate A E) (reg : UpcastRegistry) (toValue : P → Json) :
    System (State P × List (Client P A)) (Action P ⊕ String) :=
  (system P).observe
    (clients (fun state envelope => agg.applyRow reg state (row toValue envelope)) agg.default)

/-- What the events of a stream amount to. -/
def State.expected (agg : Aggregate A E) (reg : UpcastRegistry) (toValue : P → Json)
    (σ : State P) (s : String) : A × Int :=
  agg.expected reg ((streamEvents σ.db.events s).map (row toValue))

/-- The step commits no event of stream `s`. -/
def CommitsElsewhere (s : String) (p : State P × List (Client P A)) : Action P ⊕ String → Prop
  | .inl a => ∀ e ∈ p.1.committing a, e.streamId ≠ s
  | .inr _ => True

variable {apply : A → EventEnvelope P → A} {default : A}

lemma readsStreams : ReadsStreams (system P) (clients apply default) (·.db.events)
    State.committing apply default where
  simulates := simulates_eventLog
  commits _ _ _ hσ hs := events_next (inv_of_reachable hσ) hs
  reads _ _ _ _ _ _ hσ hpast hs h := by
    obtain rfl := Option.some.inj hs
    have hstreams := EventLog.streamsNumbered_of_reachable (simulates_eventLog.reachable hσ)
    exact process_join h fun _ => Client.exact_selected hstreams hpast rfl

end Postgres

/-! ### Both stores -/

/-- In every run of either store, with every registry of upcasters and every aggregate: what
`rehydrate` returns is what the events of the stream amount to that were committed at a moment
between its call and its return; where only events of other streams are committed meanwhile, it
is what they amounted to before the call. -/
theorem rehydrate_exact (P A E : Type) (agg : Aggregate A E) (reg : UpcastRegistry) (k : ℕ)
    (s : String) (state : A) (v : Int) :
    (∀ (toValue : P → Option Json) (p₀ p : Mongo.State P × List (Mongo.Client P A)),
      (Mongo.rehydrating agg reg toValue).Reachable p₀ → p₀.2[k]? = none →
      (Mongo.rehydrating agg reg toValue).Later p₀ p → p.2[k]? = some (.rehydrated s state v) →
        (∃ r, (Mongo.rehydrating agg reg toValue).Later p₀ r ∧
          (Mongo.rehydrating agg reg toValue).Later r p ∧
          (state, v) = r.1.expected agg reg toValue s) ∧
        ((Mongo.rehydrating agg reg toValue).LaterBy (Mongo.CommitsElsewhere s) p₀ p →
          (state, v) = p₀.1.expected agg reg toValue s)) ∧
    ∀ (toValue : P → Json) (p₀ p : Postgres.State P × List (Postgres.Client P A)),
      (Postgres.rehydrating agg reg toValue).Reachable p₀ → p₀.2[k]? = none →
      (Postgres.rehydrating agg reg toValue).Later p₀ p →
      p.2[k]? = some (.rehydrated s state v) →
        (∃ r, (Postgres.rehydrating agg reg toValue).Later p₀ r ∧
          (Postgres.rehydrating agg reg toValue).Later r p ∧
          (state, v) = r.1.expected agg reg toValue s) ∧
        ((Postgres.rehydrating agg reg toValue).LaterBy (Postgres.CommitsElsewhere s) p₀ p →
          (state, v) = p₀.1.expected agg reg toValue s) := by
  constructor
  · intro toValue p₀ p h hk hl hp
    simp only [Mongo.State.expected, Aggregate.expected_map]
    constructor
    · exact Mongo.readsStreams.rehydrated_of_later h hk hl hp
    · intro helsewhere
      exact Mongo.readsStreams.rehydrated_of_laterBy (fun _ _ hD => hD) h hk helsewhere hp
  · intro toValue p₀ p h hk hl hp
    simp only [Postgres.State.expected, Aggregate.expected_map]
    constructor
    · exact Postgres.readsStreams.rehydrated_of_later h hk hl hp
    · intro helsewhere
      exact Postgres.readsStreams.rehydrated_of_laterBy (fun _ _ hD => hD) h hk helsewhere hp

/-! ### An event that is committed while the cursor is open, and one that is not decoded -/

/-- An aggregate that counts the orders with notes. -/
def noted : Aggregate ℕ Unit where
  default := 0
  apply n _ := n + 1
  fromValue value :=
    if (value.get "event_type").asString = some "OrderPlaced" then
      (value.get "notes").asString.map fun _ => ()
    else none

/-- The notes are missing from version `1`. -/
def addNotes : UpcastRegistry :=
  UpcastRegistry.new.register "OrderPlaced" 1 fun value => value.orInsert "notes" (.string "")

def quantity (n : ℕ) : Json := .object [("quantity", .posInt (.ofNat n))]

namespace Mongo

/-- Call `c` appends an event to stream `s`. -/
def appends (c : ℕ) (s eventType : String) : List (Action ℕ ⊕ ClientStep) :=
  [.inl (.call c (.invoke ⟨.append, s, eventType, 1, some c⟩)), .inl (.call c .advanceVersion),
    .inl (.call c .advanceSeq), .inl (.call c (.insertEvent (toString c) "t")),
    .inl (.call c (.commit true))]

/-- The second event of the stream is committed after the first has been read. -/
def openCursor : List (Action ℕ ⊕ ClientStep) :=
  appends 0 "order-1" "OrderPlaced" ++ [.inr (.find "order-1"), .inr (.fetch 0 1)] ++
    appends 1 "order-2" "OrderPlaced" ++ appends 2 "order-1" "OrderCancelled" ++
    [.inr (.next 0), .inr (.fetch 0 5), .inr (.next 0), .inr (.finish 0)]

end Mongo

namespace Postgres

/-- Call `c` appends an event to stream `s`. -/
def appends (c : ℕ) (s eventType : String) : List (Action ℕ ⊕ String) :=
  [.inl (.call c (.invoke ⟨.append, s, eventType, 1, some c⟩)), .inl (.call c .advanceVersion),
    .inl (.call c (.drawPosition (c + 1))), .inl (.call c (.insertEvent (toString c) "t")),
    .inl (.call c (.commit true))]

def selectLast : List (Action ℕ ⊕ String) :=
  appends 0 "order-1" "OrderPlaced" ++ appends 1 "order-2" "OrderPlaced" ++
    appends 2 "order-1" "OrderCancelled" ++ [.inr "order-1"]

end Postgres

theorem rehydrate_exact_openCursor :
    let M := Mongo.rehydrating noted addNotes fun n => some (quantity n)
    let N := Postgres.rehydrating noted addNotes quantity
    (∃ r, M.Later r (M.after Mongo.openCursor (.initial, [])) ∧
      (1, 1) = r.1.expected noted addNotes (fun n => some (quantity n)) "order-1") ∧
    ∃ r, N.Later r (N.after Postgres.selectLast (.initial, [])) ∧
      (1, 1) = r.1.expected noted addNotes quantity "order-1" := by
  intro M N
  have hexact := rehydrate_exact ℕ ℕ Unit noted addNotes 0 "order-1" 1 1
  constructor
  · obtain ⟨r, -, hr, heq⟩ := (hexact.1 (fun n => some (quantity n)) (.initial, [])
      (M.after Mongo.openCursor (.initial, [])) (.init ⟨rfl, rfl⟩) rfl
      (System.later_of_run (System.run_after (by decide))) (by rfl)).1
    exact ⟨r, hr, heq⟩
  · obtain ⟨r, -, hr, heq⟩ := (hexact.2 quantity (.initial, [])
      (N.after Postgres.selectLast (.initial, [])) (.init ⟨rfl, rfl⟩) rfl
      (System.later_of_run (System.run_after (by decide))) (by rfl)).1
    exact ⟨r, hr, heq⟩

end EventSourcing
