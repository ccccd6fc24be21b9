import EventSourcing.Fold.Snapshot
import EventSourcing.Text.Json
import Mathlib.Data.List.Range

/-!
# Upcasting

A registry takes the payload of an old event through the functions that are registered for the
versions from its own up to the current one. An aggregate decodes what comes out, with the
event type as its discriminator, and applies it or skips the event.
-/

namespace EventSourcing

open Fold Text

inductive UpcastResult (T : Type) where
  /-- the payload is at the current version -/
  | current (event : T)
  /-- the payload has been migrated from an older version -/
  | migrated (original : UInt32) (event : T)
  | unrecognised (raw : Json)

/-! ### The registry -/

structure UpcastRegistry where
  /-- the function of an event type and a version -/
  fns : String × UInt32 → Option (Json → Json)
  /-- the version an event type should reach -/
  current : String → Option UInt32

namespace UpcastRegistry

def new : UpcastRegistry := ⟨fun _ => none, fun _ => none⟩

variable (reg : UpcastRegistry) (eventType : String)

def register (fromVersion : UInt32) (f : Json → Json) : UpcastRegistry where
  fns key := if key = (eventType, fromVersion) then some f else reg.fns key
  current t :=
    if t = eventType then
      some <| match reg.current eventType with
        | some v => max v (fromVersion + 1)
        | none => fromVersion + 1
    else reg.current t

/-- The loop of `upcast`, from `ver` on, with `steps` versions to the target. -/
def migrate : ℕ → UInt32 → Json → Json
  | 0, _, v => v
  | steps + 1, ver, v =>
    match reg.fns (eventType, ver) with
    | some f => migrate steps (ver + 1) (f v)
    | none => v

def target (storedVersion : UInt32) : UInt32 := (reg.current eventType).getD storedVersion

def upcast (storedVersion : UInt32) (payload : Json) : UpcastResult Json :=
  let target := reg.target eventType storedVersion
  if target ≤ storedVersion then .current payload
  else .migrated storedVersion
    (reg.migrate eventType (target - storedVersion).toNat storedVersion payload)

/-- The functions for the versions from the stored one up to the current one, or to the first
that has none. -/
def chain (storedVersion : UInt32) : List (Json → Json) :=
  (((List.range ((reg.target eventType storedVersion).toNat - storedVersion.toNat)).map fun i =>
    reg.fns (eventType, storedVersion + .ofNat i)).takeWhile Option.isSome).reduceOption

/-- The payload after the functions of the chain. -/
def throughChain (storedVersion : UInt32) (payload : Json) : Json :=
  (reg.chain eventType storedVersion).foldl (fun v f => f v) payload

variable {reg eventType}

lemma migrate_eq_foldl (steps : ℕ) (ver : UInt32) (v : Json) :
    reg.migrate eventType steps ver v
      = (((List.range steps).map fun i =>
          reg.fns (eventType, ver + .ofNat i)).takeWhile Option.isSome).reduceOption.foldl
          (fun v f => f v) v := by
  induction steps generalizing ver v with
  | zero => rfl
  | succ steps ih =>
    have hver : ∀ i : ℕ, ver + .ofNat (i + 1) = ver + 1 + UInt32.ofNat i := by
      intro i
      rw [UInt32.ofNat_add, UInt32.add_assoc, UInt32.add_comm 1]
      rfl
    rw [List.range_succ_eq_map, List.map_cons, List.map_map, migrate]
    have hzero : ver + .ofNat 0 = ver := UInt32.add_zero ver
    simp only [Function.comp_def, Nat.succ_eq_add_one, hver, hzero]
    cases hf : reg.fns (eventType, ver) with
    | none => rfl
    | some f => exact ih (ver + 1) (f v)

/-- `upcast` takes the payload through the chain; it never gives an unrecognised one. -/
lemma upcast_cases (storedVersion : UInt32) (payload : Json) :
    reg.upcast eventType storedVersion payload
        = .current (reg.throughChain eventType storedVersion payload) ∨
      reg.upcast eventType storedVersion payload
        = .migrated storedVersion (reg.throughChain eventType storedVersion payload) := by
  simp only [upcast]
  split_ifs with htarget
  · left
    have hsteps : (reg.target eventType storedVersion).toNat - storedVersion.toNat = 0 :=
      Nat.sub_eq_zero_of_le htarget
    rw [throughChain, chain, hsteps]
    rfl
  · right
    have hle : storedVersion ≤ reg.target eventType storedVersion :=
      UInt32.le_of_lt (UInt32.not_le.mp htarget)
    rw [migrate_eq_foldl, UInt32.toNat_sub_of_le _ _ hle]
    rfl

end UpcastRegistry

/-! ### Aggregates -/

structure Aggregate (A E : Type) where
  default : A
  apply : A → E → A
  /-- how an event is deserialised -/
  fromValue : Json → Option E

namespace Aggregate

variable {A E : Type} (agg : Aggregate A E) (reg : UpcastRegistry)

/-- What the loop of `rehydrate` makes of an event: its type, its schema version and its
payload. -/
def applyRow (state : A) (row : String × UInt32 × Json) : A :=
  let (eventType, schemaVersion, payload) := row
  match reg.upcast eventType schemaVersion payload with
  | .current v | .migrated _ v =>
    match agg.fromValue (v.orInsert "event_type" (.string eventType)) with
    | some ev => agg.apply state ev
    | none => state
  | .unrecognised _ => state

/-- What an event is to the aggregate: its payload after the upcasters, under the event type if
it does not carry one. -/
def decode (row : String × UInt32 × Json) : Option E :=
  agg.fromValue ((reg.throughChain row.1 row.2.1 row.2.2).orInsert "event_type" (.string row.1))

/-- The aggregate and the last version that the events of a stream amount to. -/
def expected (rows : List (String × UInt32 × Json)) : A × Int :=
  (replay agg.apply agg.default (rows.filterMap (agg.decode reg)), rows.length - 1)

variable {agg reg}

lemma applyRow_eq (state : A) (row : String × UInt32 × Json) :
    agg.applyRow reg state row
      = match agg.decode reg row with
        | some ev => agg.apply state ev
        | none => state := by
  obtain ⟨eventType, schemaVersion, payload⟩ := row
  rw [applyRow, decode]
  rcases UpcastRegistry.upcast_cases schemaVersion payload with h | h
  · rw [h]
  · rw [h]

/-- The loop of `rehydrate` is the fold over the events that are decoded. -/
lemma expected_map {D : Type} (row : D → String × UInt32 × Json) (envelopes : List D) :
    agg.expected reg (envelopes.map row)
      = (envelopes.foldl (fun state d => agg.applyRow reg state (row d)) agg.default,
          (envelopes.length : Int) - 1) := by
  have hfold : replay agg.apply agg.default ((envelopes.map row).filterMap (agg.decode reg))
      = replay (agg.applyRow reg) agg.default (envelopes.map row) := by
    rw [← replay_filterMap]
    exact congrArg (fun f => replay f agg.default (envelopes.map row))
      (funext₂ fun state row => (applyRow_eq state row).symm)
  rw [expected, hfold, replay, List.foldl_map, List.length_map]

end Aggregate

end EventSourcing
