import EventSourcing.Bench.WriteLoops
import EventSourcing.KurrentDB.HotStreams
import EventSourcing.Orders

/-!
# The rehydration demo on KurrentDB

The demo appends its orders to a new stream in batches of `500`, reads the stream from its
beginning and checks that it has as many events as were written, that their revisions count up from
zero and that each is read as an order. The check passes for exactly these streams, and on the
server the demo has written to it always passes, whatever others append to other streams, if the
build checks for overflow or no chunk can end past `u32` (`rehydrate_demo_checked`).
-/

namespace EventSourcing.KurrentDB.RehydrateDemo

open Bench Bench.WriteLoops Concurrency Loops Text

variable {U T : Type} (F : Formats U T)

/-- Order `j`; `price` are the bits of `(f64::from(j) + 1.0) * 9.99`. -/
def demoOrder (price : ℕ → UInt64) (j : ℕ) (orderId : U) (placedAt : T) : OrderPlaced U T where
  orderId := orderId
  productId := s!"PROD-{j}"
  quantity := .ofNat (j + 1)
  priceUsd := price j
  placedAt := placedAt
  schemaVersion := SchemaVersion.default

/-! ### The check -/

/-- What the replay gathers of the events. -/
structure Replayed (U : Type) where
  eventsReplayed : ℕ
  orderIds : List U
  revisionsOk : Bool

/-- The loop over the events that were read, from event `idx` on. -/
def replay : (idx : ℕ) → List (String × UInt64 × Json) → List U × Bool → List U × Bool
  | _, [], found => found
  | idx, (eventType, revision, payload) :: rest, (orderIds, revisionsOk) =>
    let revisionsOk := if revision ≠ .ofNat idx then false else revisionsOk
    let orderIds :=
      if eventType = "OrderPlaced" then
        match OrderPlaced.fromValue F payload with
        | some order => orderIds ++ [order.orderId]
        | none => orderIds
      else orderIds
    replay (idx + 1) rest (orderIds, revisionsOk)

def rebuild (rawEvents : List (String × UInt64 × Json)) : Replayed U :=
  let (orderIds, revisionsOk) := replay F 0 rawEvents ([], true)
  ⟨rawEvents.length, orderIds, revisionsOk⟩

def Replayed.passed (eventCount : UInt32) (replayed : Replayed U) : Bool :=
  replayed.eventsReplayed = eventCount.toNat && replayed.revisionsOk &&
    replayed.orderIds.length = eventCount.toNat

/-- The end of the demo. -/
def conclude (eventCount : UInt32) (replayed : Replayed U) : Except String Unit :=
  if replayed.passed eventCount then .ok ()
  else .error (s!"rehydration failed: written={eventCount}, " ++
    s!"replayed={replayed.eventsReplayed}, revisions_ok={replayed.revisionsOk}")

/-- The order id of an event, if the event is read as an order. -/
def orderId? (eventType : String) (payload : Json) : Option U :=
  if eventType = "OrderPlaced" then (OrderPlaced.fromValue F payload).map (·.orderId) else none

section Check

variable {F} {eventCount : UInt32} {rawEvents : List (String × UInt64 × Json)}

lemma replay_eq (idx : ℕ) (rawEvents : List (String × UInt64 × Json)) (found : List U × Bool) :
    replay F idx rawEvents found
      = (found.1 ++ rawEvents.filterMap (fun e => orderId? F e.1 e.2.2),
          found.2 && decide (rawEvents.map (·.2.1)
            = (List.range' idx rawEvents.length).map UInt64.ofNat)) := by
  induction rawEvents generalizing idx found with
  | nil => simp [replay]
  | cons e rest ih =>
    obtain ⟨eventType, revision, payload⟩ := e
    obtain ⟨orderIds, revisionsOk⟩ := found
    rw [replay, ih]
    refine Prod.ext ?_ ?_
    · by_cases htype : eventType = "OrderPlaced"
      · cases horder : OrderPlaced.fromValue F payload with
        | none => simp [orderId?, htype, horder]
        | some order => simp [orderId?, htype, horder]
      · simp [orderId?, htype]
    · by_cases hrevision : revision = UInt64.ofNat idx
      · simp [hrevision, List.range'_succ]
      · simp [hrevision, List.range'_succ]

/-- The check passes where no event is missing, none is out of place and each is read as an
order. -/
lemma passed_iff : (rebuild F rawEvents).passed eventCount = true ↔
    rawEvents.map (·.2.1) = (List.range eventCount.toNat).map UInt64.ofNat ∧
      ∀ e ∈ rawEvents, (orderId? F e.1 e.2.2).isSome := by
  rw [rebuild, replay_eq, ← List.filterMap_length_eq_length, ← List.range_eq_range']
  simp only [Replayed.passed, Bool.and_eq_true, decide_eq_true_eq, List.nil_append, Bool.true_and]
  constructor
  · rintro ⟨⟨hlength, hrevisions⟩, hids⟩
    exact ⟨hlength ▸ hrevisions, hids.trans hlength.symm⟩
  · rintro ⟨hrevisions, hids⟩
    have hlength : rawEvents.length = eventCount.toNat := by
      simpa using congrArg List.length hrevisions
    exact ⟨⟨hlength, hlength ▸ hrevisions⟩, hids.trans hlength⟩

end Check

/-! ### The demo next to others -/

inductive Phase (U : Type) where
  | writing (i : ℕ)
  | panicked (reason : Stop)
  /-- an append or the read has failed -/
  | failed (msg : String)
  | checked (replayed : Replayed U)

structure State (U : Type) where
  server : Server
  phase : Phase U

inductive Step where
  /-- a pass of the write loop; `e` is the text of the error, if there is one -/
  | appendBatch (outcome : Outcome) (e : String)
  | read (missing : Stream.Missing)
  /-- someone else appends to a stream of theirs -/
  | other (name : String) (events : List (String × Json))

/-- The body of the write loop: a batch, and where it ends. Without overflow checks that end wraps
before it is clipped. -/
def pass (overflowChecks : Bool) (eventCount : UInt32) (i : ℕ) : Except Stop (List ℕ × ℕ) :=
  if overflowChecks then (rehydrateLoop true eventCount).body i
  else
    let chunkEnd := min ((i + 500) % u32Range) eventCount.toNat
    .ok (List.range' i (chunkEnd - i), chunkEnd)

section System

variable (overflowChecks : Bool) (eventCount : UInt32) (streamId : String) (data : ℕ → Json)

/-- `data` are the values of the orders. -/
def State.next (σ : State U) : Step → Option (State U)
  | .appendBatch outcome e =>
    match σ.phase with
    | .writing i =>
      if i < eventCount.toNat then
        match pass overflowChecks eventCount i with
        | .error reason => some { σ with phase := .panicked reason }
        | .ok (batch, chunkEnd) =>
          let events := batch.map fun j => ("OrderPlaced", data j)
          match outcome.run (some (σ.server.append streamId events)) σ.server with
          | (true, server) => some ⟨server, .writing chunkEnd⟩
          | (false, server) => some ⟨server, .failed s!"batch append at {i} failed: {e}"⟩
      else none
    | _ => none
  | .read missing =>
    match σ.phase with
    | .writing i =>
      if i < eventCount.toNat then none
      else
        match (σ.server.stream streamId).readStreamEvents missing streamId with
        | .error msg => some { σ with phase := .failed msg }
        | .ok rawEvents => some { σ with phase := .checked (rebuild F rawEvents) }
    | _ => none
  | .other name events =>
    if name = streamId then none
    else some { σ with server := σ.server.append name events }

/-- The demo from its beginning, when nobody has written to its stream. -/
def system : System (State U) Step where
  init σ := σ.phase = .writing 0 ∧ ∀ e ∈ σ.server, e.1 ≠ streamId
  next := State.next F overflowChecks eventCount streamId data

end System

/-! ### What the demo reads -/

section Reads

variable {F} {overflowChecks : Bool} {eventCount : UInt32} {streamId name : String}
  {data : ℕ → Json} {σ σ' : State U}
  {server : Server} {orderId : ℕ → U} {i n : ℕ}

/-- The server has the first `n` orders on the stream. -/
def Holds (streamId : String) (data : ℕ → Json) (n : ℕ) (server : Server) : Prop :=
  (server.filter fun e => e.1 = streamId).map Prod.snd
    = (List.range n).map fun j => ("OrderPlaced", data j)

lemma holds_zero (h : ∀ e ∈ server, e.1 ≠ streamId) : Holds streamId data 0 server := by
  have hnone : server.filter (fun e => e.1 = streamId) = [] := by
    simpa [List.filter_eq_nil_iff] using h
  rw [Holds, hnone]
  rfl

lemma Holds.append (h : Holds streamId data n server) {m : ℕ} (hle : n ≤ m) :
    Holds streamId data m (server.append streamId
      ((List.range' n (m - n)).map fun j => ("OrderPlaced", data j))) := by
  have hrange : List.range m = List.range n ++ List.range' n (m - n) := by
    have hsplit := List.range'_append_1 (s := 0) (m := n) (n := m - n)
    rw [Nat.zero_add, Nat.add_sub_cancel' hle] at hsplit
    rw [List.range_eq_range', List.range_eq_range', hsplit]
  rw [Holds] at h ⊢
  rw [Server.append, List.filter_append, List.map_append, h, hrange, List.map_append]
  simp [List.filter_map, Function.comp_def]

lemma Holds.other (h : Holds streamId data n server) (hname : name ≠ streamId)
    (events : List (String × Json)) : Holds streamId data n (server.append name events) := by
  rw [Holds] at h ⊢
  rw [Server.append, List.filter_append, List.map_append, h]
  simp [List.filter_map, Function.comp_def, hname]

/-- What a read of the stream gives, if it gives anything. -/
lemma readStreamEvents_ok {stream : Stream} {missing : Stream.Missing}
    {rawEvents : List (String × UInt64 × Json)}
    (h : stream.readStreamEvents missing name = .ok rawEvents) : rawEvents = stream.reads := by
  simp only [Stream.readStreamEvents, Stream.readWith] at h
  split_ifs at h with hempty
  · rw [Stream.reads, hempty]
    split at h
    · split_ifs at h
      exact (Except.ok.inj h).symm
    · cases h
  · exact (Except.ok.inj h).symm

lemma map_reads (events : List (String × Json)) :
    (Stream.empty.append events).reads.map (fun e => (e.1, e.2.2)) = events := by
  refine List.ext_getElem (by simp [Stream.empty, Stream.record]) ?_
  intro i hi hi'
  simp [Stream.reads, Stream.append, Stream.record, Stream.empty, RecordedEvent.read]

/-- The stream that has all orders passes the check. -/
lemma Holds.rebuild (h : Holds streamId data eventCount.toNat server)
    (hdata : ∀ j < eventCount.toNat, orderId? F "OrderPlaced" (data j) = some (orderId j)) :
    rebuild F (server.stream streamId).reads
      = ⟨eventCount.toNat, (List.range eventCount.toNat).map orderId, true⟩ := by
  have hmap := map_reads ((List.range eventCount.toNat).map fun j => ("OrderPlaced", data j))
  have hlength := congrArg List.length hmap
  rw [RehydrateDemo.rebuild, replay_eq, Server.stream, h]
  generalize hstream : Stream.empty.append _ = stream at hmap hlength ⊢
  have hrevisions : stream.reads.map (·.2.1)
      = (List.range' 0 stream.reads.length).map UInt64.ofNat := by
    rw [Stream.length_reads, ← List.range_eq_range', ← stream.contiguous, Stream.reads,
      List.map_map]
    rfl
  have hids : stream.reads.filterMap (fun e => orderId? F e.1 e.2.2)
      = (List.range eventCount.toNat).map orderId := by
    calc stream.reads.filterMap (fun e => orderId? F e.1 e.2.2)
        = (stream.reads.map fun e => (e.1, e.2.2)).filterMap fun e => orderId? F e.1 e.2 := by
          rw [List.filterMap_map]
          rfl
      _ = (List.range eventCount.toNat).filterMap fun j => orderId? F "OrderPlaced" (data j) := by
          rw [hmap, List.filterMap_map]
          rfl
      _ = (List.range eventCount.toNat).map orderId := by
          rw [← List.filterMap_eq_map]
          exact List.filterMap_congr fun j hj => hdata j (List.mem_range.mp hj)
  rw [hids, hrevisions]
  simpa using hlength

/-! ### Runs -/

/-- How far the demo has come, and what it has found. -/
def Inv (eventCount : UInt32) (streamId : String) (data : ℕ → Json) (orderId : ℕ → U)
    (σ : State U) : Prop :=
  match σ.phase with
  | .writing i =>
    i ≤ eventCount.toNat ∧ (500 ∣ i ∨ i = eventCount.toNat) ∧ Holds streamId data i σ.server
  | .checked replayed =>
    replayed = ⟨eventCount.toNat, (List.range eventCount.toNat).map orderId, true⟩
  | _ => True

/-- No chunk that begins at a multiple of its size wraps in such a build. -/
def Fits (overflowChecks : Bool) (eventCount : UInt32) : Prop :=
  overflowChecks = true ∨ eventCount.toNat ≤ 4294967000

/-- A pass of the write loop takes the next orders. -/
lemma pass_eq {batch : List ℕ} {chunkEnd : ℕ} (hfits : Fits overflowChecks eventCount)
    (hlt : i < eventCount.toNat) (hi : 500 ∣ i)
    (h : pass overflowChecks eventCount i = .ok (batch, chunkEnd)) :
    batch = List.range' i (chunkEnd - i) ∧ chunkEnd = min (i + 500) eventCount.toNat := by
  rw [pass] at h
  split_ifs at h with hchecks
  · rcases Nat.lt_or_ge (i + 500) u32Range with hsmall | hover
    · obtain ⟨_, hpass, -, rfl⟩ := rehydrate_strides.pass i trivial hlt hsmall
      obtain ⟨rfl, rfl⟩ := Prod.mk.inj (Except.ok.inj (h.symm.trans hpass))
      exact ⟨rfl, rfl⟩
    · rw [rehydrate_body_overflow hover] at h
      cases h
  · have hsmall : i + 500 < u32Range := by
      have hcount := hfits.resolve_left hchecks
      rw [u32Range]
      omega
    rw [Nat.mod_eq_of_lt hsmall] at h
    obtain ⟨rfl, rfl⟩ := Prod.mk.inj (Except.ok.inj h)
    exact ⟨rfl, rfl⟩

lemma inv_next {step : Step} (hfits : Fits overflowChecks eventCount)
    (hdata : ∀ j < eventCount.toNat, orderId? F "OrderPlaced" (data j) = some (orderId j))
    (h : Inv eventCount streamId data orderId σ)
    (hs : σ.next F overflowChecks eventCount streamId data step = some σ') :
    Inv eventCount streamId data orderId σ' := by
  cases step with
  | appendBatch outcome e =>
    simp only [State.next] at hs
    split at hs
    · rename_i i hphase
      rw [Inv, hphase] at h
      obtain ⟨hle, hplace, hholds⟩ := h
      split_ifs at hs with hlt
      have hi : 500 ∣ i := hplace.resolve_right hlt.ne
      split at hs
      · obtain rfl := Option.some.inj hs
        trivial
      · rename_i batch chunkEnd hpass
        obtain ⟨rfl, rfl⟩ := pass_eq hfits hlt hi hpass
        split at hs
        · rename_i server hrun
          obtain rfl := Option.some.inj hs
          obtain rfl := Option.some.inj (Outcome.run_eq_true.mp hrun).2
          refine ⟨min_le_right _ _, ?_, hholds.append (le_min (Nat.le_add_right _ _) hle)⟩
          rcases min_choice (i + 500) eventCount.toNat with hmin | hmin
          · rw [hmin]
            exact .inl (Nat.dvd_add hi dvd_rfl)
          · exact .inr hmin
        · obtain rfl := Option.some.inj hs
          trivial
    · cases hs
  | read missing =>
    simp only [State.next] at hs
    split at hs
    · rename_i i hphase
      rw [Inv, hphase] at h
      obtain ⟨hle, -, hholds⟩ := h
      split_ifs at hs with hlt
      have hdone : i = eventCount.toNat := le_antisymm hle (Nat.le_of_not_lt hlt)
      split at hs
      · obtain rfl := Option.some.inj hs
        trivial
      · rename_i rawEvents hread
        obtain rfl := Option.some.inj hs
        obtain rfl := readStreamEvents_ok hread
        exact (hdone ▸ hholds).rebuild hdata
    · cases hs
  | other name events =>
    simp only [State.next] at hs
    split_ifs at hs with hname
    obtain rfl := Option.some.inj hs
    rw [Inv] at h ⊢
    dsimp only
    split at h
    · exact ⟨h.1, h.2.1, h.2.2.other hname events⟩
    · exact h
    · trivial

lemma orderId?_of_storedAs {order : OrderPlaced U T} {value : Json}
    (h : (OrderEvent.orderPlaced order).StoredAs F value) :
    orderId? F "OrderPlaced" value = some order.orderId := by
  obtain ⟨members, priceUsd, rfl, hwritable, hcarries⟩ := h
  have hread : OrderPlaced.fromValue F (.object members)
      = some { order with priceUsd := priceUsd } :=
    OrderPlaced.ofMembers_eq hcarries.fields hwritable
  rw [orderId?, if_pos rfl, hread]
  rfl

end Reads

/-- The demo ends with `Ok` exactly where the events it has read are as many as were to be written,
their revisions count up from zero and each is read as an order. In every run in which the orders
are stored as they are, and others append to other streams, a demo that comes to its check has read
its orders in their order and ends with `Ok`; in a build without overflow checks, if no chunk can
end past `u32`. -/
theorem rehydrate_demo_checked (U T : Type) (F : Formats U T) (eventCount : UInt32) :
    (∀ rawEvents, conclude eventCount (rebuild F rawEvents) = .ok () ↔
      rawEvents.map (·.2.1) = (List.range eventCount.toNat).map UInt64.ofNat ∧
        ∀ e ∈ rawEvents, (orderId? F e.1 e.2.2).isSome) ∧
    ∀ (overflowChecks : Bool) (streamId : String) (price : ℕ → UInt64) (drawn : ℕ → U × T)
      (data : ℕ → Json),
      Fits overflowChecks eventCount →
      (∀ j < eventCount.toNat,
        (OrderEvent.orderPlaced (demoOrder price j (drawn j).1 (drawn j).2)).StoredAs F (data j)) →
      ∀ σ replayed, (system F overflowChecks eventCount streamId data).Reachable σ →
        σ.phase = .checked replayed →
          replayed.orderIds = (List.range eventCount.toNat).map (fun j => (drawn j).1) ∧
            conclude eventCount replayed = .ok () := by
  have hverdict : ∀ replayed : Replayed U,
      conclude eventCount replayed = .ok () ↔ replayed.passed eventCount = true := by
    intro replayed
    rw [conclude]
    split_ifs with hpassed
    · simp [hpassed]
    · simp [hpassed]
  constructor
  · intro rawEvents
    rw [hverdict, passed_iff]
  · intro overflowChecks streamId price drawn data hfits hdata σ replayed hσ hphase
    have hinv : Inv eventCount streamId data (fun j => (drawn j).1) σ := by
      refine hσ.invariant ?_ ?_
      · rintro σ ⟨hwriting, hnew⟩
        rw [Inv, hwriting]
        exact ⟨Nat.zero_le _, .inl (dvd_zero _), holds_zero hnew⟩
      · intro σ step σ' _ h _ hs
        exact inv_next hfits (fun j hj => orderId?_of_storedAs (hdata j hj)) h hs
    rw [Inv, hphase] at hinv
    obtain rfl := hinv
    exact ⟨rfl, (hverdict _).mpr (by simp [Replayed.passed])⟩

/-! ### Two orders, and others -/

def twoDrawn (j : ℕ) : String × String := if j = 0 then ("a", "noon") else ("b", "night")

/-- 9.99 and 19.98 -/
def twoPrices (j : ℕ) : UInt64 := if j = 0 then 0x4023FAE147AE147B else 0x4033FAE147AE147B

def storedOrder (j : ℕ) : Json :=
  .object ((demoOrder twoPrices j (twoDrawn j).1 (twoDrawn j).2).members plainFormats)

def twoOrders : List Step :=
  [.other "other" [("OrderPlaced", .null)], .appendBatch .done "", .other "other" [("Paid", .null)],
    .read (.atOpening "stream not found")]

theorem rehydrate_demo_checked_two :
    let M := system plainFormats false 2 "rehydrate-demo" storedOrder
    let σ := M.after twoOrders ⟨[], .writing 0⟩
    σ.server.map (·.1) = ["other", "rehydrate-demo", "rehydrate-demo", "other"] ∧
      conclude 2 (⟨2, ["a", "b"], true⟩ : Replayed String) = .ok () := by
  intro M σ
  refine ⟨by decide, ?_⟩
  have hstored : ∀ j < (2 : UInt32).toNat,
      (OrderEvent.orderPlaced (demoOrder twoPrices j (twoDrawn j).1 (twoDrawn j).2)).StoredAs
        plainFormats (storedOrder j) := by
    intro j _
    refine OrderEvent.storedAs_members ?_
    by_cases hj : j = 0
    · subst hj
      rfl
    · simp [OrderEvent.Writable, demoOrder, twoPrices, hj]
      decide
  have hreach : M.Reachable σ := System.reachable_after twoOrders ⟨rfl, by simp⟩ (by decide)
  exact ((rehydrate_demo_checked String String plainFormats 2).2 false "rehydrate-demo" twoPrices
    twoDrawn storedOrder (.inr (by decide)) hstored σ ⟨2, ["a", "b"], true⟩ hreach (by rfl)).2

end EventSourcing.KurrentDB.RehydrateDemo
