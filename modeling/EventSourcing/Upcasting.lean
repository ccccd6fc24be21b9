import EventSourcing.Rehydration
import EventSourcing.Store.Registrations

/-!
# What `rehydrate` applies

The payload of a stored event goes through its upcasters, gets the event type as its
discriminator unless it carries one, and is deserialised. An aggregate that records what it is
given shows what `rehydrate` hands over (`recorded_of_later`): it has passed every version up to
the current one where no version in between is without an upcaster (`applies_current_versions`),
and is of the type of the event where the payload does not say otherwise
(`handed_as_appended`).
-/

namespace EventSourcing

open Concurrency Text

variable {P E : Type} {history : List Registration} {reg : UpcastRegistry} {eventType : String}

/-- The value `rehydrate` hands to deserialisation. -/
def UpcastRegistry.handed (reg : UpcastRegistry) (row : String × UInt32 × Json) : Json :=
  (reg.throughChain row.1 row.2.1 row.2.2).orInsert "event_type" (.string row.1)

/-- The aggregate that keeps the events it is given, in order. -/
def Aggregate.recording (fromValue : Json → Option E) : Aggregate (List E) E where
  default := []
  apply events ev := events ++ [ev]
  fromValue := fromValue

lemma expected_recording (fromValue : Json → Option E) (reg : UpcastRegistry)
    (rows : List (String × UInt32 × Json)) :
    ((Aggregate.recording fromValue).expected reg rows).1
      = rows.filterMap fun row => fromValue (reg.handed row) := by
  have hreplay : ∀ events init : List E,
      Fold.replay (Aggregate.recording fromValue).apply init events = init ++ events := by
    intro events
    induction events with
    | nil => simp [Fold.replay]
    | cons ev events ih =>
      intro init
      exact (ih (init ++ [ev])).trans (List.append_assoc init [ev] events)
  exact hreplay _ []

section Recorded

variable {fromValue : Json → Option E} {k : ℕ} {s : String} {events : List E} {v : Int}

/-- The events `rehydrate` applies are those decoded from the values handed over. -/
lemma Mongo.recorded_of_later {toValue : P → Option Json}
    {p₀ p : Mongo.State P × List (Mongo.Client P (List E))}
    (h : (Mongo.rehydrating (.recording fromValue) reg toValue).Reachable p₀)
    (hk : p₀.2[k]? = none)
    (hl : (Mongo.rehydrating (.recording fromValue) reg toValue).Later p₀ p)
    (hp : p.2[k]? = some (.rehydrated s events v)) :
    ∃ r, (Mongo.rehydrating (.recording fromValue) reg toValue).Later p₀ r ∧
      (Mongo.rehydrating (.recording fromValue) reg toValue).Later r p ∧
      events = ((streamEvents r.1.db.events s).map (Mongo.row toValue)).filterMap
        fun row => fromValue (reg.handed row) := by
  obtain ⟨r, hr₀, hr, heq⟩ := Mongo.readsStreams.rehydrated_of_later h hk hl hp
  refine ⟨r, hr₀, hr, ?_⟩
  rw [← expected_recording, Aggregate.expected_map]
  exact (Prod.mk.inj heq).1

lemma Postgres.recorded_of_later {toValue : P → Json}
    {p₀ p : Postgres.State P × List (Postgres.Client P (List E))}
    (h : (Postgres.rehydrating (.recording fromValue) reg toValue).Reachable p₀)
    (hk : p₀.2[k]? = none)
    (hl : (Postgres.rehydrating (.recording fromValue) reg toValue).Later p₀ p)
    (hp : p.2[k]? = some (.rehydrated s events v)) :
    ∃ r, (Postgres.rehydrating (.recording fromValue) reg toValue).Later p₀ r ∧
      (Postgres.rehydrating (.recording fromValue) reg toValue).Later r p ∧
      events = ((streamEvents r.1.db.events s).map (Postgres.row toValue)).filterMap
        fun row => fromValue (reg.handed row) := by
  obtain ⟨r, hr₀, hr, heq⟩ := Postgres.readsStreams.rehydrated_of_later h hk hl hp
  refine ⟨r, hr₀, hr, ?_⟩
  rw [← expected_recording, Aggregate.expected_map]
  exact (Prod.mk.inj heq).1

end Recorded

/-! ### The versions an event passes -/

/-- The version an event should reach: the current one of its type, if there is one. -/
def targetVersion (history : List Registration) (eventType : String) (version : UInt32) : ℕ :=
  (currentVersion history eventType).unbotD version.toNat

/-- The payload of the event has passed the upcaster of every version from its own up to the
current one, and come to `q`. -/
def FullyUpcast (history : List Registration) (row : String × UInt32 × Json) (q : Json) : Prop :=
  Passes history row.1 row.2.1.toNat row.2.2 (targetVersion history row.1 row.2.1) q

/-- Every version from that of the event up to the current one has an upcaster. -/
def Unbroken (history : List Registration) (eventType : String) (version : UInt32) : Prop :=
  ∀ v, version.toNat ≤ v → v < targetVersion history eventType version →
    (lastRegistered history eventType v).isSome

/-- `ev` is decoded from the payload of the event at the current version. -/
def DecodedCurrent (history : List Registration) (fromValue : Json → Option E)
    (row : String × UInt32 × Json) (ev : E) : Prop :=
  ∃ q, FullyUpcast history row q ∧ fromValue (q.orInsert "event_type" (.string row.1)) = some ev

lemma Passes.le {v m : ℕ} {p q : Json} (h : Passes history eventType v p m q) : v ≤ m := by
  induction h with
  | refl => exact le_refl _
  | step _ _ ih => exact Nat.le_of_succ_le ih

/-- Every version a chain has passed has an upcaster. -/
lemma Passes.isSome {v m : ℕ} {p q : Json} (h : Passes history eventType v p m q) {i : ℕ}
    (hv : v ≤ i) (hm : i < m) : (lastRegistered history eventType i).isSome := by
  induction h with
  | refl => omega
  | @step v m p q f hf _ ih =>
    rcases Nat.eq_or_lt_of_le hv with rfl | hlt
    · simp [hf]
    · exact ih hlt hm

lemma resultPayload_upcast (reg : UpcastRegistry) (row : String × UInt32 × Json) :
    UpcastRegistry.resultPayload (reg.upcast row.1 row.2.1 row.2.2)
      = reg.throughChain row.1 row.2.1 row.2.2 := by
  obtain ⟨eventType, schemaVersion, payload⟩ := row
  dsimp only
  rcases UpcastRegistry.upcast_cases schemaVersion payload with h | h
  · rw [h]
    rfl
  · rw [h]
    rfl

lemma lastRegistered_target (history : List Registration) (eventType : String)
    (version : UInt32) :
    lastRegistered history eventType (targetVersion history eventType version) = none := by
  refine UpcastRegistry.lastRegistered_of_le ?_
  rw [targetVersion]
  cases currentVersion history eventType with
  | bot => exact bot_le
  | coe c => exact le_refl _

/-- Where no version is missing the chain ends at the current one. -/
lemma fullyUpcast_of_unbroken {row : String × UInt32 × Json}
    (hversion : row.2.1.toNat ≤ targetVersion history row.1 row.2.1)
    (h : Unbroken history row.1 row.2.1) :
    FullyUpcast history row
      ((UpcastRegistry.ofHistory history).throughChain row.1 row.2.1 row.2.2) := by
  obtain ⟨m, hpasses, hend⟩ := UpcastRegistry.passes_upcast history row.1 row.2.1 row.2.2
  rw [resultPayload_upcast] at hpasses
  have hle : targetVersion history row.1 row.2.1 ≤ m := by
    by_contra hlt
    have hsome := h m hpasses.le (Nat.lt_of_not_le hlt)
    simp [hend] at hsome
  have hge : m ≤ targetVersion history row.1 row.2.1 := by
    by_contra hlt
    have hsome := hpasses.isSome hversion (Nat.lt_of_not_le hlt)
    simp [lastRegistered_target] at hsome
  rw [FullyUpcast, le_antisymm hle hge]
  exact hpasses

/-- Where a version is missing no payload passes them all. -/
lemma FullyUpcast.unbroken {row : String × UInt32 × Json} {q : Json}
    (h : FullyUpcast history row q) : Unbroken history row.1 row.2.1 :=
  fun _ hle hlt => Passes.isSome h hle hlt

/-- What the events of a stream without missing versions are decoded from. -/
lemma decodedCurrent_of_mem {fromValue : Json → Option E}
    {rows : List (String × UInt32 × Json)}
    (h : ∀ row ∈ rows, row.2.1.toNat ≤ targetVersion history row.1 row.2.1 ∧
      Unbroken history row.1 row.2.1) {ev : E}
    (hev : ev ∈ rows.filterMap
      fun row => fromValue ((UpcastRegistry.ofHistory history).handed row)) :
    ∃ row ∈ rows, DecodedCurrent history fromValue row ev := by
  obtain ⟨row, hrow, hdecoded⟩ := List.mem_filterMap.mp hev
  obtain ⟨hversion, hunbroken⟩ := h row hrow
  exact ⟨row, hrow, _, fullyUpcast_of_unbroken hversion hunbroken, hdecoded⟩

/-- For every registry: every aggregate is given the events of a type and a version at the
current version exactly when each version from theirs up to the current one has an upcaster. In
every run of either store `rehydrate` applies what is decoded of the events of the stream as it
was at a moment of the call, at the current version if their chains are complete. -/
theorem applies_current_versions (P E : Type) (history : List Registration)
    (fromValue : Json → Option E) (k : ℕ) (s : String) (events : List E) (v : Int) :
    (∀ (eventType : String) (version : UInt32),
      version.toNat ≤ targetVersion history eventType version →
        ((∀ (payload : Json) (E : Type) (fromValue : Json → Option E) (ev : E),
            fromValue ((UpcastRegistry.ofHistory history).handed (eventType, version, payload))
              = some ev →
            DecodedCurrent history fromValue (eventType, version, payload) ev) ↔
          Unbroken history eventType version)) ∧
    (∀ (toValue : P → Option Json) (p₀ p : Mongo.State P × List (Mongo.Client P (List E))),
      let M := Mongo.rehydrating (.recording fromValue) (.ofHistory history) toValue
      M.Reachable p₀ → p₀.2[k]? = none → M.Later p₀ p →
      p.2[k]? = some (.rehydrated s events v) →
        ∃ r, M.Later p₀ r ∧ M.Later r p ∧
          let rows := (streamEvents r.1.db.events s).map (Mongo.row toValue)
          events = rows.filterMap
            (fun row => fromValue ((UpcastRegistry.ofHistory history).handed row)) ∧
          ((∀ row ∈ rows, row.2.1.toNat ≤ targetVersion history row.1 row.2.1 ∧
              Unbroken history row.1 row.2.1) →
            ∀ ev ∈ events, ∃ row ∈ rows, DecodedCurrent history fromValue row ev)) ∧
    ∀ (toValue : P → Json) (p₀ p : Postgres.State P × List (Postgres.Client P (List E))),
      let M := Postgres.rehydrating (.recording fromValue) (.ofHistory history) toValue
      M.Reachable p₀ → p₀.2[k]? = none → M.Later p₀ p →
      p.2[k]? = some (.rehydrated s events v) →
        ∃ r, M.Later p₀ r ∧ M.Later r p ∧
          let rows := (streamEvents r.1.db.events s).map (Postgres.row toValue)
          events = rows.filterMap
            (fun row => fromValue ((UpcastRegistry.ofHistory history).handed row)) ∧
          ((∀ row ∈ rows, row.2.1.toNat ≤ targetVersion history row.1 row.2.1 ∧
              Unbroken history row.1 row.2.1) →
            ∀ ev ∈ events, ∃ row ∈ rows, DecodedCurrent history fromValue row ev) := by
  refine ⟨?_, ?_, ?_⟩
  · intro eventType version hversion
    constructor
    · intro h
      obtain ⟨q, hq, -⟩ := h .null Unit (fun _ => some ()) () rfl
      exact hq.unbroken
    · intro h payload E fromValue ev hev
      exact ⟨_, fullyUpcast_of_unbroken hversion h, hev⟩
  · intro toValue p₀ p M h hk hl hp
    obtain ⟨r, hr₀, hr, heq⟩ := Mongo.recorded_of_later h hk hl hp
    refine ⟨r, hr₀, hr, heq, fun hrows ev hev => ?_⟩
    exact decodedCurrent_of_mem hrows (heq ▸ hev)
  · intro toValue p₀ p M h hk hl hp
    obtain ⟨r, hr₀, hr, heq⟩ := Postgres.recorded_of_later h hk hl hp
    refine ⟨r, hr₀, hr, heq, fun hrows ev hev => ?_⟩
    exact decodedCurrent_of_mem hrows (heq ▸ hev)

/-- Version `2` has no upcaster. -/
def gapped : List Registration :=
  [⟨"OrderPlaced", 1, fun value => value.orInsert "notes" (.string ""), by decide⟩,
    ⟨"OrderPlaced", 3, fun value => value.orInsert "currency" (.string "EUR"), by decide⟩]

/-- One event at schema version `1`, which is then rehydrated. -/
def rehydrateOne : List (Mongo.Action ℕ ⊕ Mongo.ClientStep) :=
  Mongo.appends 0 "order-1" "OrderPlaced" ++
    [.inr (.find "order-1"), .inr (.fetch 0 1), .inr (.next 0), .inr (.fetch 0 1), .inr (.finish 0)]

/-- The event is applied with its notes and without its currency. -/
theorem applies_current_versions_fails :
    let M := Mongo.rehydrating (.recording some) (.ofHistory gapped) fun n => some (quantity n)
    let p := M.after rehydrateOne (.initial, [])
    M.Reachable p ∧
      p.2[0]? = some (.rehydrated "order-1" [.object [("quantity", .posInt 0),
        ("notes", .string ""), ("event_type", .string "OrderPlaced")]] 0) ∧
      (1 : UInt32).toNat ≤ targetVersion gapped "OrderPlaced" 1 ∧
      ∀ q, ¬ FullyUpcast gapped ("OrderPlaced", 1, quantity 0) q := by
  intro M p
  refine ⟨System.reachable_after _ ⟨rfl, rfl⟩ (by decide), by rfl, by decide, ?_⟩
  intro q hq
  exact absurd (hq.unbroken 2 (by decide) (by decide)) (by decide)

/-! ### The discriminator -/

/-- What the upcasters make of the payload is an object, and its event type, if it carries one,
is that of the event. -/
def KeepsType (reg : UpcastRegistry) (row : String × UInt32 × Json) : Prop :=
  ∃ members, reg.throughChain row.1 row.2.1 row.2.2 = .object members ∧
    ∀ w, (Json.object members).member? "event_type" = some w → w = .string row.1

/-- The value handed over is of the type of the event. -/
def HandedAsAppended (reg : UpcastRegistry) (row : String × UInt32 × Json) : Prop :=
  (reg.handed row).member? "event_type" = some (.string row.1)

lemma handedAsAppended_iff (row : String × UInt32 × Json) :
    HandedAsAppended reg row ↔ KeepsType reg row := by
  rw [HandedAsAppended, UpcastRegistry.handed, KeepsType]
  cases hchain : reg.throughChain row.1 row.2.1 row.2.2 with
  | object members =>
    rw [Json.member?_orInsert]
    constructor
    · intro h
      refine ⟨members, rfl, fun w hw => ?_⟩
      simpa [hw] using h
    · rintro ⟨_, heq, h⟩
      obtain rfl := Json.object.inj heq
      cases hw : (Json.object members).member? "event_type" with
      | none => rfl
      | some w => simp [h w hw]
  | _ => simp [Json.orInsert, Json.member?]

/-- The value handed over for an event is of its type exactly when what the upcasters leave is
an object that carries no event type or the same one; in every run of either store `rehydrate`
hands over one value for each event of the stream as it was at a moment of the call. -/
theorem handed_as_appended (P : Type) (reg : UpcastRegistry) (k : ℕ) (s : String)
    (values : List Json) (v : Int) :
    (∀ row, HandedAsAppended reg row ↔ KeepsType reg row) ∧
    (∀ (toValue : P → Option Json) (p₀ p : Mongo.State P × List (Mongo.Client P (List Json))),
      let M := Mongo.rehydrating (.recording some) reg toValue
      M.Reachable p₀ → p₀.2[k]? = none → M.Later p₀ p →
      p.2[k]? = some (.rehydrated s values v) →
        ∃ r, M.Later p₀ r ∧ M.Later r p ∧
          let rows := (streamEvents r.1.db.events s).map (Mongo.row toValue)
          values = rows.map reg.handed ∧
          ((∀ row ∈ rows, HandedAsAppended reg row) ↔ ∀ row ∈ rows, KeepsType reg row)) ∧
    ∀ (toValue : P → Json) (p₀ p : Postgres.State P × List (Postgres.Client P (List Json))),
      let M := Postgres.rehydrating (.recording some) reg toValue
      M.Reachable p₀ → p₀.2[k]? = none → M.Later p₀ p →
      p.2[k]? = some (.rehydrated s values v) →
        ∃ r, M.Later p₀ r ∧ M.Later r p ∧
          let rows := (streamEvents r.1.db.events s).map (Postgres.row toValue)
          values = rows.map reg.handed ∧
          ((∀ row ∈ rows, HandedAsAppended reg row) ↔ ∀ row ∈ rows, KeepsType reg row) := by
  have hrows : ∀ rows : List (String × UInt32 × Json),
      (∀ row ∈ rows, HandedAsAppended reg row) ↔ ∀ row ∈ rows, KeepsType reg row :=
    fun rows => forall₂_congr fun row _ => handedAsAppended_iff row
  refine ⟨handedAsAppended_iff, ?_, ?_⟩
  · intro toValue p₀ p M h hk hl hp
    obtain ⟨r, hr₀, hr, heq⟩ := Mongo.recorded_of_later h hk hl hp
    rw [List.filterMap_eq_map'] at heq
    exact ⟨r, hr₀, hr, heq, hrows _⟩
  · intro toValue p₀ p M h hk hl hp
    obtain ⟨r, hr₀, hr, heq⟩ := Postgres.recorded_of_later h hk hl hp
    rw [List.filterMap_eq_map'] at heq
    exact ⟨r, hr₀, hr, heq, hrows _⟩

/-- The payload of an order that is placed says that it is cancelled. -/
theorem handed_as_appended_fails :
    let M := Mongo.rehydrating (.recording some) .new
      fun _ : ℕ => some (.object [("event_type", .string "OrderCancelled")])
    let p := M.after rehydrateOne (.initial, [])
    M.Reachable p ∧
      p.2[0]? = some (.rehydrated "order-1"
        [.object [("event_type", .string "OrderCancelled")]] 0) ∧
      p.1.db.events.map (·.eventType) = ["OrderPlaced"] ∧
      ¬ HandedAsAppended .new
        ("OrderPlaced", 1, .object [("event_type", .string "OrderCancelled")]) := by
  intro M p
  refine ⟨System.reachable_after _ ⟨rfl, rfl⟩ (by decide), by rfl, by decide, ?_⟩
  intro h
  have heq : some (Json.string "OrderCancelled") = some (.string "OrderPlaced") := h
  simp at heq

end EventSourcing
