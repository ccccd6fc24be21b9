import EventSourcing.Concurrency.System
import EventSourcing.Fold.Snapshot
import EventSourcing.KurrentDB.Stream
import EventSourcing.Text.Digits

/-!
# The snapshot demo

The writer appends the events of a window in one batch, folds their reduced payloads into its
state under revisions that it computes from the answer, and appends a snapshot of the state. A
reader restores the state from the last snapshot and the events after it. Wherever the writer
stops with a snapshot stored, the restored state is that of a full replay; before the first
snapshot the reader needs the client to report the missing stream of the snapshots as it expects
(`restores_iff`).
-/

namespace EventSourcing.KurrentDB.SnapshotDemo

open Concurrency Fold Text

/-! ### Events -/

/-- The events of the demo; a price is given by the bits of the float. -/
inductive ItemEvent where
  | itemAdded (itemId sku : String) (quantity : UInt32) (unitPriceUsd : UInt64)
      (addedAt : String)
  | itemPriceUpdated (itemId : String) (oldPriceUsd newPriceUsd : UInt64) (updatedAt : String)
  | itemRemoved (itemId : String) (quantity : UInt32) (reason removedAt : String)

namespace ItemEvent

def eventType : ItemEvent → String
  | itemAdded .. => "ItemAdded"
  | itemPriceUpdated .. => "ItemPriceUpdated"
  | itemRemoved .. => "ItemRemoved"

/-- The payload that is stored. -/
def payload : ItemEvent → Json
  | itemAdded itemId sku quantity unitPriceUsd addedAt =>
    .object [("item_id", .string itemId), ("sku", .string sku),
      ("quantity", .posInt quantity.toUInt64), ("unit_price_usd", .float unitPriceUsd),
      ("added_at", .string addedAt)]
  | itemPriceUpdated itemId oldPriceUsd newPriceUsd updatedAt =>
    .object [("item_id", .string itemId), ("old_price_usd", .float oldPriceUsd),
      ("new_price_usd", .float newPriceUsd), ("updated_at", .string updatedAt)]
  | itemRemoved itemId quantity reason removedAt =>
    .object [("item_id", .string itemId), ("quantity", .posInt quantity.toUInt64),
      ("reason", .string reason), ("removed_at", .string removedAt)]

/-- The payload in `apply_log`. -/
def applyPayload : ItemEvent → Json
  | itemAdded _ _ quantity _ _ => .object [("quantity", .posInt quantity.toUInt64)]
  | itemPriceUpdated .. => .object []
  | itemRemoved _ quantity _ _ => .object [("quantity", .posInt quantity.toUInt64)]

end ItemEvent

/-- What is drawn for an event: a quantity from `1..=5` and the time. -/
structure Draw where
  quantity : UInt32
  range : 1 ≤ quantity ∧ quantity ≤ 5
  now : String

structure Config where
  runId : String
  eventCount : UInt32
  snapshotEvery : UInt32
  itemIds : Fin 10 → String
  /-- the bits of `9.99 + n` -/
  price : UInt32 → UInt64
  /-- the bits of a price times `1.05` -/
  raised : UInt64 → UInt64
  missing : Stream.Missing

namespace Config

variable (cfg : Config)

def streamName : String := "snapshot-demo-" ++ cfg.runId

def snapshotStream : String := cfg.streamName ++ "-snapshots"

def itemId (i : UInt32) : String := cfg.itemIds ⟨i.toNat % 10, Nat.mod_lt _ (by decide)⟩

/-- The event with number `i`. -/
def event (i : UInt32) (draw : Draw) : ItemEvent :=
  if i % 3 = 0 then
    .itemAdded (cfg.itemId i) ("SKU-" ++ String.ofList (digits 4 (i.toNat % 10))) draw.quantity
      (cfg.price (i % 50)) draw.now
  else if i % 3 = 1 then
    .itemPriceUpdated (cfg.itemId i) (cfg.price (i % 50)) (cfg.raised (cfg.price (i % 50)))
      draw.now
  else
    .itemRemoved (cfg.itemId i) draw.quantity (if i % 7 = 0 then "scrapped" else "sold") draw.now

def windowEnd (seq : UInt32) : UInt32 := min (seq + cfg.snapshotEvery) cfg.eventCount

/-- The events of a window. -/
def window (draws : UInt32 → Draw) (seq windowEnd : UInt32) : List ItemEvent :=
  (List.range (windowEnd - seq).toNat).map fun j =>
    cfg.event (seq + .ofNat j) (draws (seq + .ofNat j))

end Config

/-! ### The aggregate -/

structure InventoryState where
  totalStock : Int64
  totalAdded : UInt64
  totalPriceUpdates : UInt64
  totalRemovals : UInt64
  atRevision : UInt64
  deriving DecidableEq

namespace InventoryState

/-- The default state with `at_revision` at `u64::MAX`. -/
def initial : InventoryState := ⟨0, 0, 0, 0, 18446744073709551615⟩

def apply (state : InventoryState) (eventType : String) (payload : Json) (revision : UInt64) :
    InventoryState :=
  let quantity := ((payload.get "quantity").asU64.getD 0).toInt64
  let state :=
    match eventType with
    | "ItemAdded" =>
      { state with
        totalStock := state.totalStock + quantity
        totalAdded := state.totalAdded + 1 }
    | "ItemPriceUpdated" => { state with totalPriceUpdates := state.totalPriceUpdates + 1 }
    | "ItemRemoved" =>
      { state with
        totalStock := state.totalStock - quantity
        totalRemovals := state.totalRemovals + 1 }
    | _ => state
  { state with atRevision := revision }

/-- `apply` on what a read gives of an event. -/
def applyRead (state : InventoryState) (e : String × UInt64 × Json) : InventoryState :=
  state.apply e.1 e.2.2 e.2.1

def toValue (state : InventoryState) : Json :=
  .object [("total_stock", .ofI64 state.totalStock), ("total_added", .posInt state.totalAdded),
    ("total_price_updates", .posInt state.totalPriceUpdates),
    ("total_removals", .posInt state.totalRemovals), ("at_revision", .posInt state.atRevision)]

def fromValue (value : Json) : Option InventoryState := do
  let totalStock ← (← value.member? "total_stock").asI64
  let totalAdded ← (← value.member? "total_added").asU64
  let totalPriceUpdates ← (← value.member? "total_price_updates").asU64
  let totalRemovals ← (← value.member? "total_removals").asU64
  let atRevision ← (← value.member? "at_revision").asU64
  return ⟨totalStock, totalAdded, totalPriceUpdates, totalRemovals, atRevision⟩

end InventoryState

structure SnapshotEnvelope where
  state : InventoryState
  atStreamRevision : UInt64
  takenAt : String

namespace SnapshotEnvelope

def toValue (envelope : SnapshotEnvelope) : Json :=
  .object [("state", envelope.state.toValue),
    ("at_stream_revision", .posInt envelope.atStreamRevision),
    ("taken_at", .string envelope.takenAt)]

def fromValue (value : Json) : Option SnapshotEnvelope := do
  let state ← InventoryState.fromValue (← value.member? "state")
  let atStreamRevision ← (← value.member? "at_stream_revision").asU64
  let takenAt ← (← value.member? "taken_at").asString
  return ⟨state, atStreamRevision, takenAt⟩

end SnapshotEnvelope

/-! ### Serialisation and reduced payloads -/

lemma InventoryState.fromValue_toValue (state : InventoryState) :
    InventoryState.fromValue state.toValue = some state := by
  simp [InventoryState.fromValue, InventoryState.toValue, Json.member?]

/-- A snapshot is read back as it was taken. -/
lemma SnapshotEnvelope.fromValue_toValue (envelope : SnapshotEnvelope) :
    SnapshotEnvelope.fromValue envelope.toValue = some envelope := by
  simp [SnapshotEnvelope.fromValue, SnapshotEnvelope.toValue, Json.member?,
    InventoryState.fromValue_toValue]

/-- The aggregate takes the same from the reduced payload as from the stored one. -/
lemma apply_applyPayload (state : InventoryState) (e : ItemEvent) (revision : UInt64) :
    state.apply e.eventType e.applyPayload revision
      = state.apply e.eventType e.payload revision := by
  cases e <;> rfl

/-! ### The write loop -/

/-- Where the writer stands in its loop. -/
inductive Phase where
  /-- at the condition of the loop -/
  | window
  /-- the batch is stored -/
  | appended (applyLog : List (String × Json)) (windowEnd : UInt32) (lastRevision : UInt64)
  /-- the batch is folded into the state -/
  | folded (windowEnd : UInt32) (lastRevision : UInt64)

structure State where
  main : Stream
  snapshots : Stream
  seq : UInt32
  liveState : InventoryState
  phase : Phase

inductive Action where
  | append (draws : UInt32 → Draw)
  | fold
  | snapshot (takenAt : String)

namespace State

/-- The entries of `apply_log` under the revisions computed for them. -/
def computed (applyLog : List (String × Json)) (firstRevision : UInt64) :
    List (String × UInt64 × Json) :=
  applyLog.mapIdx fun offset e => (e.1, firstRevision + .ofNat offset, e.2)

/-- A step of the loop; the addition of `seq` and `snapshot_every` must not overflow. -/
def next (cfg : Config) (σ : State) : Action → Option State
  | .append draws =>
    match σ.phase with
    | .window =>
      if σ.seq < cfg.eventCount ∧ σ.seq.toNat + cfg.snapshotEvery.toNat < 2 ^ 32 then
        let windowEnd := cfg.windowEnd σ.seq
        let batch := cfg.window draws σ.seq windowEnd
        let main := σ.main.append (batch.map fun e => (e.eventType, e.payload))
        some { σ with
          main := main
          phase := .appended (batch.map fun e => (e.eventType, e.applyPayload)) windowEnd
            main.nextExpectedVersion }
      else none
    | _ => none
  | .fold =>
    match σ.phase with
    | .appended applyLog windowEnd lastRevision =>
      let windowLen := (windowEnd - σ.seq).toNat
      let firstRevision := lastRevision - (.ofNat windowLen - 1)
      some { σ with
        liveState := replay .applyRead σ.liveState (computed applyLog firstRevision)
        phase := .folded windowEnd lastRevision }
    | _ => none
  | .snapshot takenAt =>
    match σ.phase with
    | .folded windowEnd lastRevision =>
      let envelope : SnapshotEnvelope := ⟨σ.liveState, lastRevision, takenAt⟩
      some { σ with
        snapshots := σ.snapshots.append [("InventorySnapshot", envelope.toValue)]
        seq := windowEnd
        phase := .window }
    | _ => none

/-! ### Rehydration -/

/-- The state of the last snapshot and the revision from which its trailing events are read. -/
def loadSnapshot (cfg : Config) (σ : State) : Except String (InventoryState × UInt64) := do
  match ← σ.snapshots.readLastEvent cfg.missing cfg.snapshotStream with
  | none => return (.initial, 0)
  | some (_, _, payload) =>
    match SnapshotEnvelope.fromValue payload with
    | none => throw "failed to deserialise snapshot"
    | some envelope => return (envelope.state, envelope.atStreamRevision + 1)

/-- The state restored from the last snapshot and the events after it. -/
def restore (cfg : Config) (σ : State) : Except String InventoryState := do
  let (restoredState, startFrom) ← σ.loadSnapshot cfg
  let trailing ← σ.main.readStreamFromRevision cfg.missing cfg.streamName startFrom
  return replay .applyRead restoredState trailing

/-- The full cold replay. -/
def coldReplay (cfg : Config) (σ : State) : Except String InventoryState := do
  let allEvents ← σ.main.readStreamEvents cfg.missing cfg.streamName
  return replay .applyRead .initial allEvents

/-- The number of events in the windows that are folded into the live state. -/
def foldedCount (σ : State) : ℕ :=
  match σ.phase with
  | .folded windowEnd _ => windowEnd.toNat
  | _ => σ.seq.toNat

end State

/-- The writer, from the start of the loop on; it may stop in any state. -/
def system (cfg : Config) : System State Action where
  init σ := σ = ⟨.empty, .empty, 0, .initial, .window⟩
  next := State.next cfg

/-! ### The invariant -/

variable {cfg : Config} {σ σ' : State}

/-- The live state covers what the main stream holds, or all but the last batch. -/
def LiveCovers (σ : State) : Prop :=
  match σ.phase with
  | .window =>
    σ.main.events.length = σ.seq.toNat ∧
      Covers .applyRead .initial σ.main.reads σ.seq.toNat σ.liveState
  | .appended applyLog windowEnd lastRevision =>
    ∃ (before : Stream) (batch : List ItemEvent),
      σ.main = before.append (batch.map fun e => (e.eventType, e.payload)) ∧
      applyLog = batch.map (fun e => (e.eventType, e.applyPayload)) ∧
      lastRevision = σ.main.nextExpectedVersion ∧
      before.events.length = σ.seq.toNat ∧ batch.length = (windowEnd - σ.seq).toNat ∧
      σ.seq.toNat + batch.length = windowEnd.toNat ∧ 0 < batch.length ∧
      Covers .applyRead .initial before.reads σ.seq.toNat σ.liveState
  | .folded windowEnd lastRevision =>
    σ.main.events.length = windowEnd.toNat ∧ 0 < windowEnd.toNat ∧
      lastRevision = σ.main.nextExpectedVersion ∧
      Covers .applyRead .initial σ.main.reads windowEnd.toNat σ.liveState

/-- The last snapshot covers the events up to its revision. -/
def SnapshotCovers (σ : State) : Prop :=
  ∀ e, σ.snapshots.events.getLast? = some e → ∃ (envelope : SnapshotEnvelope) (n : ℕ),
    e.data = envelope.toValue ∧ envelope.atStreamRevision + 1 = .ofNat n ∧ 0 < n ∧
      Covers .applyRead .initial σ.main.reads n envelope.state

structure Inv (cfg : Config) (σ : State) : Prop where
  length : σ.main.events.length ≤ cfg.eventCount.toNat
  live : LiveCovers σ
  snapshot : SnapshotCovers σ

/-! ### A window -/

lemma length_window (cfg : Config) (draws : UInt32 → Draw) {seq windowEnd : UInt32}
    (h : seq ≤ windowEnd) :
    (cfg.window draws seq windowEnd).length = windowEnd.toNat - seq.toNat := by
  rw [Config.window, List.length_map, List.length_range, UInt32.toNat_sub_of_le _ _ h]

lemma toNat_windowEnd {seq : UInt32} (hadd : seq.toNat + cfg.snapshotEvery.toNat < 2 ^ 32) :
    (cfg.windowEnd seq).toNat
      = min (seq.toNat + cfg.snapshotEvery.toNat) cfg.eventCount.toNat := by
  have hsum : (seq + cfg.snapshotEvery).toNat = seq.toNat + cfg.snapshotEvery.toNat := by
    rw [UInt32.toNat_add, Nat.mod_eq_of_lt hadd]
  rw [Config.windowEnd, ← hsum]
  rcases Nat.le_total (seq + cfg.snapshotEvery).toNat cfg.eventCount.toNat with hle | hle
  · rw [Nat.min_eq_left hle]
    exact congrArg UInt32.toNat (if_pos hle)
  · rw [Nat.min_eq_right hle]
    rcases Nat.eq_or_lt_of_le hle with heq | hlt
    · exact (congrArg UInt32.toNat (if_pos (Nat.le_of_eq heq.symm))).trans heq.symm
    · exact congrArg UInt32.toNat (if_neg (Nat.not_le_of_lt hlt))

/-- The revisions that the writer computes are those of the batch. -/
lemma computed_revision (before : Stream) {batch : List (String × Json)} {k : ℕ}
    (hbatch : batch.length = k) (hk : 0 < k) (i : ℕ) :
    (before.append batch).nextExpectedVersion - (.ofNat k - 1) + .ofNat i
      = UInt64.ofNat (before.events.length + i) := by
  obtain ⟨n, rfl⟩ : ∃ n, k = n + 1 := ⟨k - 1, by omega⟩
  rw [Stream.nextExpectedVersion, Stream.length_append, hbatch,
    show before.events.length + (n + 1) - 1 = before.events.length + n by omega,
    UInt64.ofNat_add n 1, UInt64.ofNat_add _ n, show UInt64.ofNat 1 = 1 from rfl,
    UInt64.add_sub_cancel, UInt64.add_sub_cancel, ← UInt64.ofNat_add]

/-- A batch, its reduced payloads under the computed revisions, and its events as recorded have
the same effect on the aggregate. -/
lemma replay_computed (before : Stream) (batch : List ItemEvent) (hbatch : 0 < batch.length)
    (state : InventoryState) :
    replay .applyRead state (State.computed (batch.map fun e => (e.eventType, e.applyPayload))
        ((before.append (batch.map fun e => (e.eventType, e.payload))).nextExpectedVersion
          - (.ofNat batch.length - 1)))
      = replay .applyRead state
        ((before.record (batch.map fun e => (e.eventType, e.payload))).map RecordedEvent.read) := by
  rw [State.computed, Stream.record, mapIdx_map, mapIdx_map, map_mapIdx]
  refine replay_mapIdx_congr (fun i e state => ?_) batch
  simp only [computed_revision before (List.length_map _) hbatch i]
  exact apply_applyPayload state e _

/-! ### Steps -/

lemma SnapshotCovers.append (h : SnapshotCovers σ) {main : Stream} {batch : List (String × Json)}
    (hmain : main = σ.main.append batch) (hsnapshots : σ'.snapshots = σ.snapshots)
    (hmain' : σ'.main = main) : SnapshotCovers σ' := by
  intro e he
  rw [hsnapshots] at he
  obtain ⟨envelope, n, hdata, hrevision, hpos, hcovers⟩ := h e he
  refine ⟨envelope, n, hdata, hrevision, hpos, ?_⟩
  rw [hmain', hmain, Stream.reads_append]
  exact hcovers.append

lemma inv_append (hevery : 0 < cfg.snapshotEvery) {draws : UInt32 → Draw} (h : Inv cfg σ)
    (hs : σ.next cfg (.append draws) = some σ') : Inv cfg σ' := by
  obtain ⟨main, snapshots, seq, liveState, phase⟩ := σ
  cases phase with
  | appended applyLog windowEnd lastRevision => cases hs
  | folded windowEnd lastRevision => cases hs
  | window =>
    simp only [State.next] at hs
    split_ifs at hs with hcond
    obtain ⟨hseq, hadd⟩ := hcond
    cases hs
    obtain ⟨hlength, hcovers⟩ := h.live
    have hend := toNat_windowEnd hadd
    have hevery' : 0 < cfg.snapshotEvery.toNat := hevery
    have hseq' : seq.toNat < cfg.eventCount.toNat := hseq
    have hle : seq ≤ cfg.windowEnd seq := by
      show seq.toNat ≤ (cfg.windowEnd seq).toNat
      omega
    have hbatch := length_window cfg draws hle
    dsimp only at hlength hcovers hadd hend hbatch
    constructor
    · show (Stream.append main _).events.length ≤ _
      rw [Stream.length_append, List.length_map]
      omega
    · refine ⟨main, cfg.window draws seq (cfg.windowEnd seq), rfl, rfl, rfl, hlength, ?_, ?_, ?_,
        hcovers⟩
      · show _ = (cfg.windowEnd seq - seq).toNat
        rw [hbatch, UInt32.toNat_sub_of_le _ _ hle]
      · show seq.toNat + _ = _
        omega
      · omega
    · exact h.snapshot.append rfl rfl rfl

lemma inv_fold (h : Inv cfg σ) (hs : σ.next cfg .fold = some σ') : Inv cfg σ' := by
  obtain ⟨main, snapshots, seq, liveState, phase⟩ := σ
  cases phase with
  | window => cases hs
  | folded windowEnd lastRevision => cases hs
  | appended applyLog windowEnd lastRevision =>
    cases hs
    obtain ⟨before, batch, hmain, hlog, hlast, hbefore, hbatch, hend, hpos, hcovers⟩ := h.live
    dsimp only at hmain hlog hlast hbefore hbatch hend hcovers
    have hlength : before.reads.length = seq.toNat := by rw [Stream.length_reads, hbefore]
    have hreads : main.reads.length = windowEnd.toNat := by
      rw [hmain, Stream.length_reads, Stream.length_append, List.length_map, hbefore, hend]
    refine ⟨h.length, ⟨?_, ?_, hlast, ?_⟩, h.snapshot⟩
    · rw [← hreads, Stream.length_reads]
    · omega
    · rw [← hlength] at hcovers
      have hlive := hcovers.snoc
        ((before.record (batch.map fun e => (e.eventType, e.payload))).map RecordedEvent.read)
      rw [← replay_computed before batch hpos, ← Stream.reads_append, ← hmain, hreads, ← hlog,
        ← hlast, hbatch] at hlive
      exact hlive

lemma inv_snapshot {takenAt : String} (h : Inv cfg σ)
    (hs : σ.next cfg (.snapshot takenAt) = some σ') : Inv cfg σ' := by
  obtain ⟨main, snapshots, seq, liveState, phase⟩ := σ
  cases phase with
  | window => cases hs
  | appended applyLog windowEnd lastRevision => cases hs
  | folded windowEnd lastRevision =>
    cases hs
    obtain ⟨hlength, hpos, hlast, hcovers⟩ := h.live
    refine ⟨h.length, ⟨hlength, hcovers⟩, ?_⟩
    intro e he
    rw [Stream.getLast?_append] at he
    cases he
    refine ⟨⟨liveState, lastRevision, takenAt⟩, windowEnd.toNat, rfl, ?_, hpos, hcovers⟩
    obtain ⟨n, hn⟩ : ∃ n, windowEnd.toNat = n + 1 := ⟨windowEnd.toNat - 1, by omega⟩
    show lastRevision + 1 = _
    rw [hlast, Stream.nextExpectedVersion, hlength, hn, Nat.add_sub_cancel, UInt64.ofNat_add]
    rfl

/-- What a step of the write loop preserves. -/
lemma inv_next (hevery : 0 < cfg.snapshotEvery) {a : Action} (h : Inv cfg σ)
    (hs : σ.next cfg a = some σ') : Inv cfg σ' := by
  cases a with
  | append draws => exact inv_append hevery h hs
  | fold => exact inv_fold h hs
  | snapshot takenAt => exact inv_snapshot h hs

lemma inv_init (h : (system cfg).init σ) : Inv cfg σ := by
  subst h
  refine ⟨Nat.zero_le _, ⟨rfl, covers_zero⟩, ?_⟩
  intro e he
  cases he

lemma inv_of_reachable (hevery : 0 < cfg.snapshotEvery) (h : (system cfg).Reachable σ) :
    Inv cfg σ :=
  h.invariant (fun _ => inv_init) fun _ _ _ _ h _ hs => inv_next hevery h hs

/-! ### Restoring -/

lemma LiveCovers.liveState (h : LiveCovers σ) :
    σ.liveState = replay .applyRead .initial (σ.main.reads.take σ.foldedCount) := by
  obtain ⟨main, snapshots, seq, liveState, phase⟩ := σ
  cases phase with
  | window => exact h.2.state
  | folded windowEnd lastRevision => exact h.2.2.2.state
  | appended applyLog windowEnd lastRevision =>
    obtain ⟨before, batch, hmain, -, -, -, -, -, -, hcovers⟩ := h
    dsimp only at hmain hcovers
    rw [hmain, Stream.reads_append]
    exact hcovers.append.state

/-- The state of the last snapshot covers events, none only where there is no snapshot. -/
lemma SnapshotCovers.loadSnapshot (hreadable : σ.snapshots.Readable cfg.missing)
    (h : SnapshotCovers σ) :
    ∃ (state : InventoryState) (n : ℕ), σ.loadSnapshot cfg = .ok (state, .ofNat n) ∧
      (σ.snapshots.events ≠ [] → 0 < n) ∧ Covers .applyRead .initial σ.main.reads n state := by
  rw [State.loadSnapshot, Stream.readLastEvent_eq hreadable]
  cases hlast : σ.snapshots.events.getLast? with
  | none =>
    have hnone : σ.snapshots.events = [] := List.getLast?_eq_none_iff.mp hlast
    exact ⟨.initial, 0, rfl, fun hsome => absurd hnone hsome, covers_zero⟩
  | some e =>
    obtain ⟨envelope, n, hdata, hrevision, hpos, hcovers⟩ := h e hlast
    refine ⟨envelope.state, n, ?_, fun _ => hpos, hcovers⟩
    dsimp only [Option.map_some, RecordedEvent.read, bind, Except.bind]
    rw [hdata, SnapshotEnvelope.fromValue_toValue, ← hrevision]
    rfl

/-- Where the snapshots can be read so can the events, for a snapshot covers some. -/
lemma SnapshotCovers.readable (hreadable : σ.snapshots.Readable cfg.missing)
    (h : SnapshotCovers σ) : σ.main.Readable cfg.missing := by
  refine hreadable.imp_left fun hsome hnil => ?_
  obtain ⟨state, n, -, hpos, hcovers⟩ := h.loadSnapshot hreadable
  have hle : n ≤ σ.main.events.length := by simpa using hcovers.le
  have := hpos hsome
  rw [hnil, List.length_nil] at hle
  omega

lemma loadSnapshot_error (h : ¬ σ.snapshots.Readable cfg.missing) :
    ∃ msg, σ.loadSnapshot cfg = .error msg := by
  obtain ⟨msg, hmsg⟩ : ∃ msg, σ.snapshots.readLastEvent cfg.missing cfg.snapshotStream
      = .error msg := Stream.readLastEvent_error h
  exact ⟨msg, by rw [State.loadSnapshot, hmsg]; rfl⟩

/-- The state restored from the last snapshot and the events after it is that of a full cold
replay, and the live state is the replay of the windows folded so far. -/
def Restores (cfg : Config) (σ : State) : Prop :=
  ∃ state, σ.restore cfg = .ok state ∧ σ.coldReplay cfg = .ok state ∧
    state = replay .applyRead .initial σ.main.reads ∧
    σ.liveState = replay .applyRead .initial (σ.main.reads.take σ.foldedCount)

/-- Wherever the writer stops, the state is restored exactly where a snapshot is stored or the
client reports a stream that does not exist as the reads expect it. -/
theorem restores_iff (hevery : 0 < cfg.snapshotEvery) (h : (system cfg).Reachable σ) :
    Restores cfg σ ↔ σ.snapshots.events ≠ [] ∨ cfg.missing.NotFound := by
  have hinv := inv_of_reachable hevery h
  constructor
  · rintro ⟨state, hrestore, -⟩
    by_contra hnot
    obtain ⟨msg, hmsg⟩ := loadSnapshot_error hnot
    rw [State.restore, hmsg] at hrestore
    cases hrestore
  · intro hreadable
    have hlength : σ.main.events.length < 2 ^ 64 := by
      have := hinv.length
      have := cfg.eventCount.toNat_lt
      omega
    obtain ⟨state, n, hload, -, hcovers⟩ := hinv.snapshot.loadSnapshot hreadable
    have hn : n ≤ σ.main.events.length := by simpa using hcovers.le
    have hmain := hinv.snapshot.readable hreadable
    refine ⟨_, ?_, ?_, rfl, hinv.live.liveState⟩
    · rw [State.restore, hload]
      dsimp only [bind, Except.bind]
      rw [Stream.readStreamFromRevision_eq hmain hlength hn]
      exact congrArg Except.ok hcovers.resume
    · rw [State.coldReplay, Stream.readStreamEvents_eq hmain]
      rfl

/-! ### A stop between a batch and its snapshot, and one before the first snapshot -/

def demoConfig : Config where
  runId := "run"
  eventCount := 5
  snapshotEvery := 2
  itemIds := fun _ => "item"
  price := fun _ => 0
  raised := fun bits => bits
  missing := .atNext "The resource you asked for doesn't exist"

def demoStart : State := ⟨.empty, .empty, 0, .initial, .window⟩

/-- The second window is stored and the writer stops. -/
def stoppedRun : List Action :=
  let draws : UInt32 → Draw := fun _ => ⟨3, by decide, "now"⟩
  [.append draws, .fold, .snapshot "then", .append draws]

theorem restores_iff_stopped :
    let σ := (system demoConfig).after stoppedRun demoStart
    σ.restore demoConfig = .ok ⟨3, 2, 1, 1, 3⟩ ∧ σ.coldReplay demoConfig = .ok ⟨3, 2, 1, 1, 3⟩ ∧
      σ.liveState = ⟨3, 1, 1, 0, 1⟩ := by
  have hsnapshots : ((system demoConfig).after stoppedRun demoStart).snapshots.events ≠ [] :=
    List.ne_nil_of_length_pos (by decide)
  have hreach := System.reachable_after (M := system demoConfig) stoppedRun (s := demoStart) rfl
    (by decide)
  obtain ⟨state, hrestore, hcold, rfl, hlive⟩ :=
    (restores_iff (by decide) hreach).mpr (.inl hsnapshots)
  have hstate : replay InventoryState.applyRead .initial
      ((system demoConfig).after stoppedRun demoStart).main.reads = ⟨3, 2, 1, 1, 3⟩ := by
    decide +kernel
  rw [hstate] at hrestore hcold
  exact ⟨hrestore, hcold, hlive.trans (by decide +kernel)⟩

/-- The first window is stored and the writer stops before the snapshot: the missing stream of
the snapshots is an error of the first `next`. -/
theorem restores_fails :
    let σ := (system demoConfig).after (stoppedRun.take 2) demoStart
    (system demoConfig).Reachable σ ∧ σ.main.events.length = 2 ∧
      (∃ msg, σ.restore demoConfig = .error msg) ∧ ¬ Restores demoConfig σ := by
  have hreach := System.reachable_after (M := system demoConfig) (stoppedRun.take 2)
    (s := demoStart) rfl (by decide)
  refine ⟨hreach, by decide, ⟨_, rfl⟩, ?_⟩
  rintro ⟨state, hrestore, -⟩
  cases hrestore

end EventSourcing.KurrentDB.SnapshotDemo
