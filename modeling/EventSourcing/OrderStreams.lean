import EventSourcing.Mongo.Calls
import EventSourcing.Orders
import EventSourcing.Postgres.Calls
import EventSourcing.Rehydration
import EventSourcing.Store.Interleaved
import Mathlib.Data.List.ReduceOption

/-!
# Streams of orders

One caller appends order events to a new stream, while others write to other streams, relay and
read; then it rehydrates `OrderAggregate`. Upcasters that only add members leave what it gets as it
was: the events in their order, without the orders whose price is no finite number
(`orders_read_back`). The rehydration demos find as many orders as they have placed
(`rehydrate_demos_pass`).
-/

namespace EventSourcing

open Concurrency Text

variable {U T P : Type}

/-! ### Upcasters that leave orders as they are -/

/-- The members that an order is read from. -/
def orderKeys : List String :=
  ["event_type", "order_id", "product_id", "quantity", "price_usd", "placed_at", "reason",
    "cancelled_at", "schema_version"]

/-- The function gives an object for an object and changes none of these members. -/
def KeepsOrders (f : Json → Json) : Prop :=
  ∀ payload, ∃ payload', f (.object payload) = .object payload' ∧
    ∀ key ∈ orderKeys, (Json.object payload').member? key = (Json.object payload).member? key

def UpcastRegistry.KeepsOrders (reg : UpcastRegistry) : Prop :=
  ∀ key, ∀ f ∈ reg.fns key, EventSourcing.KeepsOrders f

/-- The registry of the event store demos. -/
def demoUpcasters : UpcastRegistry :=
  UpcastRegistry.new.register "OrderPlaced" 1 fun v =>
    v.assign "notes" (.string "(migrated from v1)")

lemma keepsOrders_new : UpcastRegistry.new.KeepsOrders := by
  intro key f hf
  cases hf

lemma UpcastRegistry.KeepsOrders.register {reg : UpcastRegistry} (h : reg.KeepsOrders)
    (eventType : String) (fromVersion : UInt32) {f : Json → Json}
    (hf : EventSourcing.KeepsOrders f) :
    (reg.register eventType fromVersion f).KeepsOrders := by
  intro key g hg
  simp only [UpcastRegistry.register] at hg
  split_ifs at hg
  · obtain rfl := Option.some.inj hg
    exact hf
  · exact h key g hg

lemma keepsOrders_assign {key : String} (value : Json) (hkey : key ∉ orderKeys) :
    KeepsOrders fun v => v.assign key value := by
  intro payload
  obtain ⟨payload', heq⟩ : ∃ payload',
      (Json.object payload).assign key value = .object payload' := by
    rw [Json.assign]
    split_ifs
    · exact ⟨_, rfl⟩
    · exact ⟨_, rfl⟩
  refine ⟨payload', heq, ?_⟩
  intro key' hkey'
  rw [← heq]
  exact Json.member?_assign_of_ne payload value (ne_of_mem_of_not_mem hkey' hkey)

lemma keepsOrders_demoUpcasters : demoUpcasters.KeepsOrders :=
  keepsOrders_new.register _ _ (keepsOrders_assign _ (by decide))

section

variable {F : Formats U T} {payload payload' : List (String × Json)} {event : OrderEvent U T}
  {reg : UpcastRegistry}

lemma OrderEvent.mem_orderKeys {m : String × Json} (hm : m ∈ event.members F) :
    m.1 ∈ orderKeys := by
  have hsub : (event.members F).map (·.1) ⊆ orderKeys := by
    cases event with
    | orderPlaced event => simp [members, OrderPlaced.members, orderKeys]
    | orderCancelled event => simp [members, OrderCancelled.members, orderKeys]
  exact hsub (List.mem_map_of_mem hm)

lemma OrderEvent.Carries.keep (h : event.Carries F payload)
    (hkeep : ∀ key ∈ orderKeys,
      (Json.object payload').member? key = (Json.object payload).member? key) :
    event.Carries F payload' where
  fields m hm := by
    rw [hkeep _ (mem_orderKeys hm)]
    exact h.fields m hm
  untagged := (hkeep _ (by simp [orderKeys])).trans h.untagged

/-- Such functions, one after the other. -/
lemma keepsOrders_foldl {fns : List (Json → Json)} (hfns : ∀ f ∈ fns, KeepsOrders f) :
    KeepsOrders fun v => fns.foldl (fun v f => f v) v := by
  intro payload
  induction fns generalizing payload with
  | nil => exact ⟨payload, rfl, fun _ _ => rfl⟩
  | cons f fns ih =>
    obtain ⟨hf, hfns⟩ := List.forall_mem_cons.mp hfns
    obtain ⟨payload', heq, hkeep⟩ := hf payload
    obtain ⟨payload'', heq', hkeep'⟩ := ih hfns payload'
    refine ⟨payload'', ?_, fun key hkey => (hkeep' key hkey).trans (hkeep key hkey)⟩
    simp only [List.foldl_cons, heq]
    exact heq'

lemma UpcastRegistry.mem_fns_of_mem_chain {eventType : String} {version : UInt32}
    {f : Json → Json} (h : f ∈ reg.chain eventType version) :
    ∃ ver, f ∈ reg.fns (eventType, ver) := by
  have hmem := (List.takeWhile_sublist _).subset (List.reduceOption_mem_iff.mp h)
  obtain ⟨i, -, hi⟩ := List.mem_map.mp hmem
  exact ⟨_, hi⟩

/-- An order is decoded from what it was appended as, if its price could be written. -/
lemma decode_of_carries (hreg : reg.KeepsOrders) (hcarries : event.Carries F payload)
    (version : UInt32) :
    (orderAggregate F).decode reg (event.eventType, version, .object payload)
      = if event.Writable then some event else none := by
  have hchain : ∀ f ∈ reg.chain event.eventType version, KeepsOrders f := by
    intro f hf
    obtain ⟨ver, hf⟩ := UpcastRegistry.mem_fns_of_mem_chain hf
    exact hreg _ f hf
  obtain ⟨payload', heq, hkeep⟩ := keepsOrders_foldl hchain payload
  dsimp only at heq
  rw [Aggregate.decode, UpcastRegistry.throughChain, heq]
  split_ifs with hwritable
  · exact OrderEvent.fromValue_of_carries (hcarries.keep hkeep) hwritable
  · exact OrderEvent.fromValue_of_unwritable (hcarries.keep hkeep) hwritable

end

/-! ### What a rehydration makes of the appended events -/

section Replayed

variable {S B V A C E : Type} {M : System S B} {O : Observer S (List (Client V P A)) C}
  {view : CallView S B V P} {agg : Aggregate A E} {reg : UpcastRegistry}
  {row : EventEnvelope V P → String × UInt32 × Json} {requests : List (AppendRequest V P)}
  {decoded : List (Option E)}

/-- The request asks for an event that is decoded and applied like `ev`, or skipped. -/
def DecodedAs (agg : Aggregate A E) (reg : UpcastRegistry)
    (row : EventEnvelope V P → String × UInt32 × Json) (ev : Option E)
    (req : AppendRequest V P) : Prop :=
  ∀ e, req.Gives e → Option.Rel (fun ev' ev => ∀ state, agg.apply state ev' = agg.apply state ev)
    (agg.decode reg (row e)) ev

lemma replay_decode {envelopes : List (EventEnvelope V P)}
    (hdecoded : List.Forall₂ (DecodedAs agg reg row) decoded requests)
    (hgives : List.Forall₂ AppendRequest.Gives requests envelopes) (state : A) :
    Fold.replay agg.apply state ((envelopes.map row).filterMap (agg.decode reg))
      = Fold.replay agg.apply state decoded.reduceOption := by
  induction hdecoded generalizing envelopes state with
  | nil =>
    cases hgives
    rfl
  | @cons ev _ _ _ hev _ ih =>
    cases hgives with
    | @cons _ e _ _ hreq hgives =>
      have hrel := hev _ hreq
      rw [List.map_cons, List.filterMap_cons]
      cases hdecode : agg.decode reg (row e) with
      | none =>
        rw [hdecode] at hrel
        cases hrel
        exact ih hgives state
      | some ev' =>
        rw [hdecode] at hrel
        cases hrel with
        | some happly =>
          rw [List.reduceOption_cons_of_some]
          exact (congrArg (fun state => Fold.replay agg.apply state _) (happly state)).trans
            (ih hgives _)

/-- A rehydration of the stream, during which nobody writes to it, applies what the requests asked
for. -/
lemma rehydrated_of_appended (hview : view.Laws M)
    {committing : S → B → Option (EventEnvelope V P)}
    (h : ReadsStreams M O view.events committing
      (fun state e => agg.applyRow reg state (row e)) agg.default)
    (hdecoded : List.Forall₂ (DecodedAs agg reg row) decoded requests) {s : String} {k : ℕ}
    {state : A} {v : Int} {p₀ p : S × List (Client V P A)}
    {D : S × List (Client V P A) → B ⊕ C → Prop}
    (hD : ∀ p b, D p (.inl b) → ∀ e ∈ committing p.1 b, e.streamId ≠ s)
    (happended : (view.observed (List (Client V P A)) C).Appended (M.observe O) s requests p₀)
    (hk : p₀.2[k]? = none) (hl : (M.observe O).LaterBy D p₀ p)
    (hp : p.2[k]? = some (.rehydrated s state v)) :
    (state, v) = (Fold.replay agg.apply agg.default decoded.reduceOption,
      (decoded.length : Int) - 1) := by
  obtain ⟨h₀, hgives⟩ := happended.gives (hview.observed O)
  change List.Forall₂ _ requests (streamEvents (view.events p₀.1) s) at hgives
  have hlength : decoded.length = (streamEvents (view.events p₀.1) s).length :=
    hdecoded.length_eq.trans hgives.length_eq
  rw [h.rehydrated_of_laterBy hD h₀ hk hl hp, ← Aggregate.expected_map, Aggregate.expected,
    replay_decode hdecoded hgives, List.length_map, hlength]

end Replayed

/-! ### Orders in either store -/

/-- The events that a rehydration applies: an order whose price is no finite number is skipped. -/
def readBack (events : List (OrderEvent U T)) : List (OrderEvent U T) :=
  events.filter fun event => event.Writable

lemma reduceOption_written (events : List (OrderEvent U T)) :
    (events.map fun event => if event.Writable then some event else none).reduceOption
      = readBack events := by
  rw [List.reduceOption, List.filterMap_map, readBack, ← List.filterMap_eq_filter]
  refine List.filterMap_congr fun event _ => ?_
  simp [Option.guard]

/-- The request appends the order; `toValue` gives the JSON value of a payload. -/
structure AppendsOrder {V : Type} (F : Formats U T) (toValue : P → Option Json)
    (event : OrderEvent U T) (req : AppendRequest V P) : Prop where
  eventType : req.eventType = event.eventType
  payload : ∀ payload ∈ req.payload, ∃ value,
    toValue payload = some value ∧ event.WrittenAs F value

variable {F : Formats U T} {reg : UpcastRegistry} {event : OrderEvent U T}

/-- A payload that has a value is decoded from it. -/
lemma decodedAs {V : Type} {row : EventEnvelope V P → String × UInt32 × Json}
    {toValue : P → Option Json} {req : AppendRequest V P}
    (hrow : ∀ e value, toValue e.payload = some value →
      ∃ version, row e = (e.eventType, version, value))
    (hreg : reg.KeepsOrders) (h : AppendsOrder F toValue event req) :
    DecodedAs (orderAggregate F) reg row (if event.Writable then some event else none) req := by
  intro e hgives
  obtain ⟨value, hvalue, members, priceUsd, rfl, hwritable, hcarries⟩ :=
    h.payload _ hgives.payload
  obtain ⟨version, hrow⟩ := hrow e _ hvalue
  rw [hrow, hgives.eventType, h.eventType, ← OrderEvent.eventType_withPrice event priceUsd,
    decode_of_carries hreg hcarries]
  simp only [hwritable]
  split_ifs
  · exact .some fun state => state.apply_withPrice event priceUsd
  · exact .none

section

variable {k : ℕ} {s : String} {events : List (OrderEvent U T)} {state : OrderAggregate U} {v : Int}

/-- What a rehydration makes of the orders that have been appended. -/
lemma orders_of_appended {S B V C : Type} {M : System S B}
    {O : Observer S (List (Client V P (OrderAggregate U))) C} {view : CallView S B V P}
    {row : EventEnvelope V P → String × UInt32 × Json} {toValue : P → Option Json}
    {requests : List (AppendRequest V P)} {committing : S → B → Option (EventEnvelope V P)}
    {p₀ p : S × List (Client V P (OrderAggregate U))}
    {D : S × List (Client V P (OrderAggregate U)) → B ⊕ C → Prop}
    (hrow : ∀ e value, toValue e.payload = some value →
      ∃ version, row e = (e.eventType, version, value))
    (hview : view.Laws M)
    (h : ReadsStreams M O view.events committing
      (fun state e => (orderAggregate F).applyRow reg state (row e)) ⟨[], 0⟩)
    (hD : ∀ p b, D p (.inl b) → ∀ e ∈ committing p.1 b, e.streamId ≠ s)
    (hreg : reg.KeepsOrders) (horders : List.Forall₂ (AppendsOrder F toValue) events requests)
    (happended : (view.observed (List (Client V P (OrderAggregate U))) C).Appended
      (M.observe O) s requests p₀)
    (hk : p₀.2[k]? = none) (hl : (M.observe O).LaterBy D p₀ p)
    (hp : p.2[k]? = some (.rehydrated s state v)) :
    (state, v) = (Fold.replay OrderAggregate.apply ⟨[], 0⟩ (readBack events),
      (events.length : Int) - 1) := by
  have hdecoded : List.Forall₂ (DecodedAs (orderAggregate F) reg row)
      (events.map fun event => if event.Writable then some event else none) requests :=
    List.forall₂_map_left_iff.mpr (horders.imp fun _ _ => decodedAs hrow hreg)
  have hread := rehydrated_of_appended hview h hdecoded hD happended hk hl hp
  rwa [reduceOption_written, List.length_map] at hread

lemma Mongo.orders_of_appended {toValue : P → Option Json} {requests : List (AppendRequest P)}
    {p₀ p : State P × List (Client P (OrderAggregate U))} (hreg : reg.KeepsOrders)
    (horders : List.Forall₂ (AppendsOrder F toValue) events requests)
    (happended : ((callView P).observed (List (Client P (OrderAggregate U))) ClientStep).Appended
      (rehydrating (orderAggregate F) reg toValue) s requests p₀)
    (hk : p₀.2[k]? = none)
    (hl : (rehydrating (orderAggregate F) reg toValue).LaterBy (CommitsElsewhere s) p₀ p)
    (hp : p.2[k]? = some (.rehydrated s state v)) :
    (state, v) = (Fold.replay OrderAggregate.apply ⟨[], 0⟩ (readBack events),
      (events.length : Int) - 1) := by
  have hrow : ∀ e value, toValue e.payload = some value →
      ∃ version, row toValue e = (e.eventType, version, value) :=
    fun e value hvalue => ⟨_, by rw [row, hvalue, Option.getD_some]⟩
  exact EventSourcing.orders_of_appended hrow callView_laws readsStreams (fun _ _ hD => hD) hreg
    horders happended hk hl hp

lemma Postgres.orders_of_appended {toValue : P → Json} {requests : List (AppendRequest P)}
    {p₀ p : State P × List (Client P (OrderAggregate U))} (hreg : reg.KeepsOrders)
    (horders : List.Forall₂ (AppendsOrder F fun payload => some (toValue payload)) events requests)
    (happended : ((callView P).observed (List (Client P (OrderAggregate U))) String).Appended
      (rehydrating (orderAggregate F) reg toValue) s requests p₀)
    (hk : p₀.2[k]? = none)
    (hl : (rehydrating (orderAggregate F) reg toValue).LaterBy (CommitsElsewhere s) p₀ p)
    (hp : p.2[k]? = some (.rehydrated s state v)) :
    (state, v) = (Fold.replay OrderAggregate.apply ⟨[], 0⟩ (readBack events),
      (events.length : Int) - 1) := by
  have hrow : ∀ e value, some (toValue e.payload) = some value →
      ∃ version, row toValue e = (e.eventType, version, value) :=
    fun e value hvalue => ⟨_, by rw [row, Option.some.inj hvalue]⟩
  exact EventSourcing.orders_of_appended hrow callView_laws readsStreams (fun _ _ hD => hD) hreg
    horders happended hk hl hp

end

/-! ### The rehydration demos -/

/-- The order that is placed in round `i`. -/
def demoOrder (i : ℕ) (orderId : U) (placedAt : T) : OrderPlaced U T where
  orderId := orderId
  productId := s!"product-{i}"
  quantity := 1
  -- 9.99
  priceUsd := 0x4023FAE147AE147B
  placedAt := placedAt
  schemaVersion := SchemaVersion.default

/-- The orders of a demo, by the ids and the instants it has drawn. -/
def demoOrders (drawn : List (U × T)) : List (OrderPlaced U T) :=
  drawn.mapIdx fun i d => demoOrder i d.1 d.2

/-- What the demo asks its store for; `toPayload` serialises an order. -/
def demoRequests {V : Type} (s : String) (schemaVersion : V)
    (toPayload : OrderPlaced U T → Option P) (drawn : List (U × T)) : List (AppendRequest V P) :=
  (demoOrders drawn).map fun order =>
    ⟨.append, s, "OrderPlaced", schemaVersion, toPayload order⟩

/-- The end of a demo. -/
def rehydrateVerdict (backend : String) (eventCount : UInt32) (agg : OrderAggregate U) :
    Except String Unit :=
  let eventsReplayed := agg.orderIds.length
  if eventsReplayed = eventCount.toNat then .ok ()
  else .error
    s!"{backend} rehydration failed: written={eventCount}, replayed={eventsReplayed}"

/-- An order of a demo that has been serialised comes back. -/
def DemoPayloadsKept (F : Formats U T) (toPayload : OrderPlaced U T → Option P)
    (toValue : P → Option Json) : Prop :=
  ∀ i orderId placedAt, ∀ payload ∈ toPayload (demoOrder i orderId placedAt), ∃ value,
    toValue payload = some value ∧
      (OrderEvent.orderPlaced (demoOrder i orderId placedAt)).StoredAs F value

section

variable {toPayload : OrderPlaced U T → Option P} {toValue : P → Option Json}

lemma writable_demoOrder (i : ℕ) (orderId : U) (placedAt : T) :
    (OrderEvent.orderPlaced (demoOrder i orderId placedAt)).Writable :=
  show Json.isFiniteF64 0x4023FAE147AE147B = true by decide

lemma appendsOrder_demoRequests {V : Type} (h : DemoPayloadsKept F toPayload toValue) (s : String)
    (schemaVersion : V) (drawn : List (U × T)) :
    List.Forall₂ (AppendsOrder F toValue) ((demoOrders drawn).map .orderPlaced)
      (demoRequests s schemaVersion toPayload drawn) := by
  rw [demoRequests, List.forall₂_map_left_iff, List.forall₂_map_right_iff, List.forall₂_same]
  intro order hmem
  obtain ⟨i, hi, rfl⟩ := List.mem_mapIdx.mp hmem
  refine ⟨rfl, fun payload hpayload => ?_⟩
  obtain ⟨value, hvalue, hstored⟩ := h i _ _ payload hpayload
  exact ⟨value, hvalue, OrderEvent.writtenAs_of_storedAs hstored (writable_demoOrder ..)⟩

/-- All orders of a demo are read back. -/
lemma readBack_demoOrders (drawn : List (U × T)) :
    readBack ((demoOrders drawn).map OrderEvent.orderPlaced)
      = (demoOrders drawn).map OrderEvent.orderPlaced := by
  refine List.filter_eq_self.mpr fun event hevent => ?_
  obtain ⟨order, horder, rfl⟩ := List.mem_map.mp hevent
  obtain ⟨i, hi, rfl⟩ := List.mem_mapIdx.mp horder
  exact decide_eq_true (writable_demoOrder ..)

lemma replay_placed (placed : List (OrderPlaced U T)) (agg : OrderAggregate U) :
    Fold.replay OrderAggregate.apply agg (placed.map OrderEvent.orderPlaced)
      = { agg with orderIds := agg.orderIds ++ placed.map (·.orderId) } := by
  induction placed generalizing agg with
  | nil => simp [Fold.replay]
  | cons order placed ih =>
    have hrest := ih (agg.apply (.orderPlaced order : OrderEvent U T))
    simpa [Fold.replay, OrderAggregate.apply] using hrest

lemma orderIds_demoOrders (drawn : List (U × T)) :
    (demoOrders drawn).map (·.orderId) = drawn.map (·.1) :=
  List.ext_getElem (by simp [demoOrders]) (by simp [demoOrders, demoOrder])

/-- What the orders of a demo amount to. -/
lemma verdict_demoOrders {backend : String} {eventCount : UInt32} {drawn : List (U × T)}
    {agg : OrderAggregate U} {v : Int} (hcount : drawn.length = eventCount.toNat)
    (heq : (agg, v) =
      (Fold.replay OrderAggregate.apply ⟨[], 0⟩
          (readBack ((demoOrders drawn).map .orderPlaced)),
        (((demoOrders drawn).map OrderEvent.orderPlaced).length : Int) - 1)) :
    agg = ⟨drawn.map (·.1), 0⟩ ∧ v = (eventCount.toNat : Int) - 1 ∧
      rehydrateVerdict backend eventCount agg = .ok () := by
  obtain ⟨rfl, rfl⟩ := Prod.mk.inj heq
  rw [readBack_demoOrders, replay_placed, orderIds_demoOrders]
  refine ⟨rfl, ?_, ?_⟩
  · simp [demoOrders, hcount]
  · simp [rehydrateVerdict, hcount]

end

/-! ### Two orders, and one of another stream between them -/

abbrev Order : Type := OrderEvent String String

/-- The value of an event that is stored as it is. -/
def storedValue (event : Order) : Json := .object (event.members plainFormats)

lemma demoPayloadsKept_stored :
    DemoPayloadsKept plainFormats (fun order => some (.orderPlaced order))
      fun event => some (storedValue event) := by
  rintro i orderId placedAt _ ⟨rfl⟩
  have hfinite : Json.isFiniteF64 0x4023FAE147AE147B = true := by decide
  exact ⟨_, rfl, OrderEvent.storedAs_members hfinite⟩

def twoDrawn : List (String × String) := [("a", "noon"), ("b", "night")]

/-- The request that places an order on stream `s`. -/
def request {V : Type} (s : String) (schemaVersion : V) (order : OrderPlaced String String) :
    AppendRequest V Order :=
  ⟨.append, s, "OrderPlaced", schemaVersion, some (.orderPlaced order)⟩

lemma appendsOrder_request {V : Type} (s : String) (schemaVersion : V)
    (order : OrderPlaced String String) :
    AppendsOrder plainFormats (fun event => some (storedValue event)) (.orderPlaced order)
      (request s schemaVersion order) where
  eventType := rfl
  payload payload hpayload := by
    obtain rfl := Option.some.inj hpayload
    exact ⟨_, rfl, OrderEvent.writtenAs_members _⟩

/-- An order whose price is no number. -/
def nanOrder : OrderPlaced String String :=
  { demoOrder 0 "a" "noon" with priceUsd := 0x7FF8000000000000 }

instance {S B V : Type} [DecidableEq V] (view : CallView S B V Order) (s : String) (c : ℕ)
    (req : AppendRequest V Order) (σ : S) (b : B) : Decidable (view.Alone s c req σ b) :=
  inferInstanceAs (Decidable (_ ∨ _))

section TwoOrders

variable {S B V : Type} (view : CallView S B V Order) (M : System S B)
  (serve : ℕ → AppendRequest V Order → List B) (schemaVersion : V) (initial : S)
  (order : OrderPlaced String String)

/-- The steps of call `0`. -/
def firstOrder : List B := serve 0 (request "order-1" schemaVersion order)

/-- Call `1` is for another stream. -/
def secondOrder : List B :=
  serve 1 (request "order-2" schemaVersion (demoOrder 0 "c" "dawn")) ++
    serve 2 (request "order-1" schemaVersion (demoOrder 1 "b" "night"))

def oneOrder : S := M.after (firstOrder serve schemaVersion order) initial

def twoOrders : S :=
  M.after (secondOrder serve schemaVersion) (oneOrder M serve schemaVersion initial order)

/-- A store serves the calls, each with `Ok`. -/
structure ServesTwo : Prop where
  init : M.init initial
  new : streamEvents (view.events initial) "order-1" = []
  idle : view.calls initial 0 = .idle
  idle' : view.calls (oneOrder M serve schemaVersion initial order) 2 = .idle
  alone : M.Along (view.Alone "order-1" 0 (request "order-1" schemaVersion order))
    (firstOrder serve schemaVersion order) initial
  alone' : M.Along
    (view.Alone "order-1" 2 (request "order-1" schemaVersion (demoOrder 1 "b" "night")))
    (secondOrder serve schemaVersion) (oneOrder M serve schemaVersion initial order)
  runs : (M.run (firstOrder serve schemaVersion order) initial).isSome
  runs' : (M.run (secondOrder serve schemaVersion)
    (oneOrder M serve schemaVersion initial order)).isSome
  ok : ∃ e, view.calls (oneOrder M serve schemaVersion initial order) 0 = .returned (.ok e)
  ok' : ∃ e, view.calls (twoOrders M serve schemaVersion initial order) 2 = .returned (.ok e)

variable {view M serve schemaVersion initial order}

lemma ServesTwo.appended (h : ServesTwo view M serve schemaVersion initial order) :
    view.Appended M "order-1"
      ([order, demoOrder 1 "b" "night"].map (request "order-1" schemaVersion))
      (twoOrders M serve schemaVersion initial order) := by
  obtain ⟨e, hok⟩ := h.ok
  obtain ⟨e', hok'⟩ := h.ok'
  have hnew : view.Appended M "order-1" [] initial := .fresh (.init h.init) h.new
  have hone := hnew.append 0 (request "order-1" schemaVersion order) rfl h.idle
    (System.laterBy_of_run h.alone (System.run_after h.runs)) e hok
  exact hone.append 2 (request "order-1" schemaVersion (demoOrder 1 "b" "night")) rfl h.idle'
    (System.laterBy_of_run h.alone' (System.run_after h.runs')) e' hok'

/-- The steps of an observer commit nothing. -/
lemma laterBy_reads {R C : Type} {O : Observer S R C} {D : S × R → B ⊕ C → Prop}
    (hD : ∀ p c, D p (.inr c)) (reads : List C) (p : S × R)
    (hrun : ((M.observe O).run (reads.map .inr) p).isSome) :
    (M.observe O).LaterBy D p ((M.observe O).after (reads.map .inr) p) := by
  refine System.laterBy_of_run (System.along_of_forall fun a ha p => ?_) (System.run_after hrun)
  obtain ⟨c, -, rfl⟩ := List.mem_map.mp ha
  exact hD p c

end TwoOrders

namespace Mongo

/-- Call `c` is made for the request. -/
def served (c : ℕ) (req : AppendRequest Order) : List (Action Order) :=
  [.call c (.invoke req), .call c .advanceVersion, .call c .advanceSeq,
    .call c (.insertEvent (toString c) "t"), .call c (.commit true)]

lemma servesTwo :
    ServesTwo (callView Order) (system Order) served 2 .initial (demoOrder 0 "a" "noon") :=
  ⟨rfl, rfl, rfl, rfl, by decide, by decide, by decide, by decide, ⟨_, rfl⟩, ⟨_, rfl⟩⟩

lemma servesTwo_nan : ServesTwo (callView Order) (system Order) served 2 .initial nanOrder :=
  ⟨rfl, rfl, rfl, rfl, by decide, by decide, by decide, by decide, ⟨_, rfl⟩, ⟨_, rfl⟩⟩

def readsOrders : List ClientStep :=
  [.find "order-1", .fetch 0 5, .next 0, .next 0, .finish 0]

end Mongo

namespace Postgres

/-- Call `c` is made for the request. -/
def served (c : ℕ) (req : AppendRequest Order) : List (Action Order) :=
  [.call c (.invoke req), .call c .advanceVersion, .call c (.drawPosition (c + 1)),
    .call c (.insertEvent (toString c) "t"), .call c (.commit true)]

lemma servesTwo :
    ServesTwo (callView Order) (system Order) served 1 .initial (demoOrder 0 "a" "noon") :=
  ⟨rfl, rfl, rfl, rfl, by decide, by decide, by decide, by decide, ⟨_, rfl⟩, ⟨_, rfl⟩⟩

lemma servesTwo_nan : ServesTwo (callView Order) (system Order) served 1 .initial nanOrder :=
  ⟨rfl, rfl, rfl, rfl, by decide, by decide, by decide, by decide, ⟨_, rfl⟩, ⟨_, rfl⟩⟩

end Postgres

/-! ### What the caller reads back -/

/-- In every run of either store, with every registry whose upcasters leave the members of orders
alone: after a caller has appended order events to a new stream, each with `Ok`, while others wrote
to other streams, relayed and read, `rehydrate` gives the last version and the aggregate of these
events in their order; skipped are the orders whose price is no finite number, and no others. -/
theorem orders_read_back (P U T : Type) (F : Formats U T) (reg : UpcastRegistry)
    (hreg : reg.KeepsOrders) (events : List (OrderEvent U T)) (k : ℕ) (s : String)
    (state : OrderAggregate U) (v : Int) :
    (∀ (toValue : P → Option Json) (requests : List (Mongo.AppendRequest P))
        (p₀ p : Mongo.State P × List (Mongo.Client P (OrderAggregate U))),
      let M := Mongo.rehydrating (orderAggregate F) reg toValue
      List.Forall₂ (AppendsOrder F toValue) events requests →
      ((Mongo.callView P).observed _ _).Appended M s requests p₀ → p₀.2[k]? = none →
      M.LaterBy (Mongo.CommitsElsewhere s) p₀ p → p.2[k]? = some (.rehydrated s state v) →
        (state, v) = (Fold.replay OrderAggregate.apply ⟨[], 0⟩ (readBack events),
          (events.length : Int) - 1)) ∧
    ∀ (toValue : P → Json) (requests : List (Postgres.AppendRequest P))
        (p₀ p : Postgres.State P × List (Postgres.Client P (OrderAggregate U))),
      let M := Postgres.rehydrating (orderAggregate F) reg toValue
      List.Forall₂ (AppendsOrder F fun payload => some (toValue payload)) events requests →
      ((Postgres.callView P).observed _ _).Appended M s requests p₀ → p₀.2[k]? = none →
      M.LaterBy (Postgres.CommitsElsewhere s) p₀ p → p.2[k]? = some (.rehydrated s state v) →
        (state, v) = (Fold.replay OrderAggregate.apply ⟨[], 0⟩ (readBack events),
          (events.length : Int) - 1) := by
  constructor
  · intro toValue requests p₀ p M horders happended hk hl hp
    exact Mongo.orders_of_appended hreg horders happended hk hl hp
  · intro toValue requests p₀ p M horders happended hk hl hp
    exact Postgres.orders_of_appended hreg horders happended hk hl hp

/-- Orders at version `1` go through the upcaster, those at version `2` do not. The order without a
price is skipped. -/
theorem orders_read_back_two :
    let events : List Order := [.orderPlaced nanOrder, .orderPlaced (demoOrder 1 "b" "night")]
    ((⟨["b"], 0⟩ : OrderAggregate String), (1 : Int)) =
        (Fold.replay OrderAggregate.apply ⟨[], 0⟩ (readBack events), (events.length : Int) - 1) ∧
      ((⟨["b"], 0⟩ : OrderAggregate String), (1 : Int)) =
        (Fold.replay OrderAggregate.apply ⟨[], 0⟩ (readBack events),
          (events.length : Int) - 1) := by
  intro events
  have hread := orders_read_back Order String String plainFormats demoUpcasters
    keepsOrders_demoUpcasters events 0 "order-1" ⟨["b"], 0⟩ 1
  constructor
  · exact hread.1 (fun event => some (storedValue event)) _
      (twoOrders (Mongo.system Order) Mongo.served 2 .initial nanOrder, []) _
      (.cons (appendsOrder_request ..) (.cons (appendsOrder_request ..) .nil))
      (Mongo.servesTwo_nan.appended.observed rfl) rfl
      (laterBy_reads (fun _ _ => trivial) Mongo.readsOrders _ rfl) (by rfl)
  · exact hread.2 storedValue _
      (twoOrders (Postgres.system Order) Postgres.served 1 .initial nanOrder, []) _
      (.cons (appendsOrder_request ..) (.cons (appendsOrder_request ..) .nil))
      (Postgres.servesTwo_nan.appended.observed rfl) rfl
      (laterBy_reads (fun _ _ => trivial) ["order-1"] _ rfl) (by rfl)

/-- In every run of either store: a rehydration demo all of whose appends have returned `Ok` finds
the orders it has placed, in their order, and passes, whatever others write to other streams. -/
theorem rehydrate_demos_pass (P U T : Type) (F : Formats U T) (eventCount : UInt32)
    (drawn : List (U × T)) (hcount : drawn.length = eventCount.toNat) (k : ℕ) (s : String)
    (toPayload : OrderPlaced U T → Option P) (agg : OrderAggregate U) (v : Int) :
    (∀ (toValue : P → Option Json)
        (p₀ p : Mongo.State P × List (Mongo.Client P (OrderAggregate U))),
      let M := Mongo.rehydrating (orderAggregate F) .new toValue
      DemoPayloadsKept F toPayload toValue →
      ((Mongo.callView P).observed _ _).Appended M s (demoRequests s 2 toPayload drawn) p₀ →
      p₀.2[k]? = none → M.LaterBy (Mongo.CommitsElsewhere s) p₀ p →
      p.2[k]? = some (.rehydrated s agg v) →
        agg = ⟨drawn.map (·.1), 0⟩ ∧ v = (eventCount.toNat : Int) - 1 ∧
          rehydrateVerdict "MongoDB" eventCount agg = .ok ()) ∧
    ∀ (toValue : P → Json)
        (p₀ p : Postgres.State P × List (Postgres.Client P (OrderAggregate U))),
      let M := Postgres.rehydrating (orderAggregate F) .new toValue
      DemoPayloadsKept F toPayload (fun payload => some (toValue payload)) →
      ((Postgres.callView P).observed _ _).Appended M s (demoRequests s 1 toPayload drawn) p₀ →
      p₀.2[k]? = none → M.LaterBy (Postgres.CommitsElsewhere s) p₀ p →
      p.2[k]? = some (.rehydrated s agg v) →
        agg = ⟨drawn.map (·.1), 0⟩ ∧ v = (eventCount.toNat : Int) - 1 ∧
          rehydrateVerdict "PostgreSQL" eventCount agg = .ok () := by
  constructor
  · intro toValue p₀ p M hkept happended hk hl hp
    exact verdict_demoOrders hcount (Mongo.orders_of_appended keepsOrders_new
      (appendsOrder_demoRequests hkept s 2 drawn) happended hk hl hp)
  · intro toValue p₀ p M hkept happended hk hl hp
    exact verdict_demoOrders hcount (Postgres.orders_of_appended keepsOrders_new
      (appendsOrder_demoRequests hkept s 1 drawn) happended hk hl hp)

theorem rehydrate_demos_pass_two :
    rehydrateVerdict "MongoDB" 2 ⟨["a", "b"], 0⟩ = .ok () ∧
      rehydrateVerdict "PostgreSQL" 2 ⟨["a", "b"], 0⟩ = .ok () := by
  have hpass := rehydrate_demos_pass Order String String plainFormats 2 twoDrawn rfl 0 "order-1"
    (fun order => some (.orderPlaced order)) ⟨["a", "b"], 0⟩ 1
  constructor
  · exact (hpass.1 (fun event => some (storedValue event))
      (twoOrders (Mongo.system Order) Mongo.served 2 .initial (demoOrder 0 "a" "noon"), []) _
      demoPayloadsKept_stored (Mongo.servesTwo.appended.observed rfl) rfl
      (laterBy_reads (fun _ _ => trivial) Mongo.readsOrders _ rfl) (by rfl)).2.2
  · exact (hpass.2 storedValue
      (twoOrders (Postgres.system Order) Postgres.served 1 .initial (demoOrder 0 "a" "noon"), [])
      _ demoPayloadsKept_stored (Postgres.servesTwo.appended.observed rfl) rfl
      (laterBy_reads (fun _ _ => trivial) ["order-1"] _ rfl) (by rfl)).2.2

end EventSourcing
