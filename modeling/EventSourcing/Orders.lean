import EventSourcing.Store.Upcast

/-!
# Order events

The domain events of `events.rs`, the values that `serde_json` makes of them and how
`OrderEvent`, which is tagged by `event_type`, is read back. A payload in the stores carries no
tag: `rehydrate` puts the stored event type there. What is read is the event, whatever other
members the payload has gained (`OrderEvent.fromValue_of_carries`), unless its price is no finite
number: that is written as null, and nothing is read (`OrderEvent.fromValue_of_unwritable`).
-/

namespace EventSourcing

open Text

/-- How ids and instants are written, and `as f64` on the integers that a float is read from; a
float is given by its bits. -/
structure Formats (U T : Type) where
  uuid : U → String
  parseUuid : String → Option U
  instant : T → String
  parseInstant : String → Option T
  floatOfU64 : UInt64 → UInt64
  floatOfI64 : Int64 → UInt64
  parseUuid_uuid : ∀ u, parseUuid (uuid u) = some u
  parseInstant_instant : ∀ t, parseInstant (instant t) = some t

namespace Formats

variable {U T : Type} (F : Formats U T)

def readUuid (value : Json) : Option U := value.asString.bind F.parseUuid

def readInstant (value : Json) : Option T := value.asString.bind F.parseInstant

def readF64 : Json → Option UInt64
  | .float bits => some bits
  | .posInt n => some (F.floatOfU64 n)
  | .negInt n => some (F.floatOfI64 n)
  | _ => none

@[simp] lemma readUuid_uuid (u : U) : F.readUuid (.string (F.uuid u)) = some u :=
  F.parseUuid_uuid u

@[simp] lemma readInstant_instant (t : T) : F.readInstant (.string (F.instant t)) = some t :=
  F.parseInstant_instant t

lemma readF64_ofF64 {bits : UInt64} (h : Json.isFiniteF64 bits = true) :
    F.readF64 (.ofF64 bits) = some bits := by
  rw [Json.ofF64, if_pos h]
  rfl

end Formats

/-- Ids and instants that are written as they are. -/
def plainFormats : Formats String String where
  uuid := id
  parseUuid := some
  instant := id
  parseInstant := some
  floatOfU64 n := n
  floatOfI64 n := n.toUInt64
  parseUuid_uuid _ := rfl
  parseInstant_instant _ := rfl

/-! ### The events -/

structure OrderPlaced (U T : Type) where
  orderId : U
  productId : String
  quantity : UInt32
  /-- by its bits -/
  priceUsd : UInt64
  placedAt : T
  schemaVersion : UInt32
  deriving DecidableEq

structure OrderCancelled (U T : Type) where
  orderId : U
  reason : String
  cancelledAt : T
  schemaVersion : UInt32
  deriving DecidableEq

/-- `SchemaVersion::default` -/
def SchemaVersion.default : UInt32 := 1

/-- A field that has to be there. -/
def field {α : Type} (members : List (String × Json)) (key : String) (read : Json → Option α) :
    Option α := ((Json.object members).member? key).bind read

/-- A field with `#[serde(default)]`. -/
def fieldOr {α : Type} (default : α) (members : List (String × Json)) (key : String)
    (read : Json → Option α) : Option α :=
  match (Json.object members).member? key with
  | some value => read value
  | none => some default

variable {U T : Type} (F : Formats U T)

namespace OrderPlaced

/-- The members of the value that an event is written as. -/
def members (event : OrderPlaced U T) : List (String × Json) :=
  [("order_id", .string (F.uuid event.orderId)), ("product_id", .string event.productId),
    ("quantity", .ofU32 event.quantity), ("price_usd", .ofF64 event.priceUsd),
    ("placed_at", .string (F.instant event.placedAt)),
    ("schema_version", .ofU32 event.schemaVersion)]

/-- Reads the fields by their names; other members are ignored. -/
def ofMembers (members : List (String × Json)) : Option (OrderPlaced U T) := do
  some {
    orderId := ← field members "order_id" F.readUuid
    productId := ← field members "product_id" Json.asString
    quantity := ← field members "quantity" Json.asU32
    priceUsd := ← field members "price_usd" F.readF64
    placedAt := ← field members "placed_at" F.readInstant
    schemaVersion := ← fieldOr SchemaVersion.default members "schema_version" Json.asU32 }

/-- Reads the fields in their order. -/
def ofItems : List Json → Option (OrderPlaced U T)
  | orderId :: productId :: quantity :: priceUsd :: placedAt :: rest => do
    some {
      orderId := ← F.readUuid orderId
      productId := ← productId.asString
      quantity := ← quantity.asU32
      priceUsd := ← F.readF64 priceUsd
      placedAt := ← F.readInstant placedAt
      schemaVersion := ← match rest with
        | [] => some SchemaVersion.default
        | [schemaVersion] => schemaVersion.asU32
        | _ => none }
  | _ => none

/-- `serde_json::from_value` of the struct alone. -/
def fromValue : Json → Option (OrderPlaced U T)
  | .object members => ofMembers F members
  | .array items => ofItems F items
  | _ => none

end OrderPlaced

namespace OrderCancelled

/-- The members of the value that an event is written as. -/
def members (event : OrderCancelled U T) : List (String × Json) :=
  [("order_id", .string (F.uuid event.orderId)), ("reason", .string event.reason),
    ("cancelled_at", .string (F.instant event.cancelledAt)),
    ("schema_version", .ofU32 event.schemaVersion)]

/-- Reads the fields by their names; other members are ignored. -/
def ofMembers (members : List (String × Json)) : Option (OrderCancelled U T) := do
  some {
    orderId := ← field members "order_id" F.readUuid
    reason := ← field members "reason" Json.asString
    cancelledAt := ← field members "cancelled_at" F.readInstant
    schemaVersion := ← fieldOr SchemaVersion.default members "schema_version" Json.asU32 }

/-- Reads the fields in their order. -/
def ofItems : List Json → Option (OrderCancelled U T)
  | orderId :: reason :: cancelledAt :: rest => do
    some {
      orderId := ← F.readUuid orderId
      reason := ← reason.asString
      cancelledAt := ← F.readInstant cancelledAt
      schemaVersion := ← match rest with
        | [] => some SchemaVersion.default
        | [schemaVersion] => schemaVersion.asU32
        | _ => none }
  | _ => none

end OrderCancelled

inductive OrderEvent (U T : Type) where
  | orderPlaced (event : OrderPlaced U T)
  | orderCancelled (event : OrderCancelled U T)
  deriving DecidableEq

namespace OrderEvent

/-- The tag of a variant. -/
def eventType : OrderEvent U T → String
  | orderPlaced _ => "OrderPlaced"
  | orderCancelled _ => "OrderCancelled"

/-- The members of the value that the event of a variant is written as, without the tag. -/
def members : OrderEvent U T → List (String × Json)
  | orderPlaced event => event.members F
  | orderCancelled event => event.members F

def schemaVersion : OrderEvent U T → UInt32
  | orderPlaced event => event.schemaVersion
  | orderCancelled event => event.schemaVersion

/-- The event with another price. -/
def withPrice (priceUsd : UInt64) : OrderEvent U T → OrderEvent U T
  | orderPlaced event => orderPlaced { event with priceUsd := priceUsd }
  | orderCancelled event => orderCancelled event

/-- Only a finite price can be written. -/
def Writable : OrderEvent U T → Prop
  | orderPlaced event => Json.isFiniteF64 event.priceUsd = true
  | orderCancelled _ => True

instance : (event : OrderEvent U T) → Decidable event.Writable
  | orderPlaced event => inferInstanceAs (Decidable (Json.isFiniteF64 event.priceUsd = true))
  | orderCancelled _ => isTrue trivial

/-- Reads a variant from what stands beside the tag. -/
def ofTagged (tag : String) (placed : Option (OrderPlaced U T))
    (cancelled : Option (OrderCancelled U T)) : Option (OrderEvent U T) :=
  if tag = "OrderPlaced" then placed.map orderPlaced
  else if tag = "OrderCancelled" then cancelled.map orderCancelled
  else none

/-- `serde_json::from_value`: the tag is the member `event_type` of an object, or the first item of
an array. -/
def fromValue : Json → Option (OrderEvent U T)
  | .object members =>
    match (Json.object members).member? "event_type" with
    | some (.string tag) =>
      let rest := members.filter fun m => m.1 ≠ "event_type"
      ofTagged tag (OrderPlaced.ofMembers F rest) (OrderCancelled.ofMembers F rest)
    | _ => none
  | .array (.string tag :: rest) =>
    ofTagged tag (OrderPlaced.ofItems F rest) (OrderCancelled.ofItems F rest)
  | _ => none

end OrderEvent

/-! ### The aggregate -/

structure OrderAggregate (U : Type) where
  orderIds : List U
  cancelled : UInt32

def OrderAggregate.apply (self : OrderAggregate U) : OrderEvent U T → OrderAggregate U
  | .orderPlaced event => { self with orderIds := self.orderIds ++ [event.orderId] }
  | .orderCancelled _ => { self with cancelled := self.cancelled + 1 }

def orderAggregate : Aggregate (OrderAggregate U) (OrderEvent U T) where
  default := ⟨[], 0⟩
  apply := OrderAggregate.apply
  fromValue := OrderEvent.fromValue F

@[simp] lemma OrderEvent.eventType_withPrice (event : OrderEvent U T) (priceUsd : UInt64) :
    (event.withPrice priceUsd).eventType = event.eventType := by
  cases event with
  | orderPlaced event => rfl
  | orderCancelled event => rfl

/-- The aggregate does not look at the price. -/
lemma OrderAggregate.apply_withPrice (self : OrderAggregate U) (event : OrderEvent U T)
    (priceUsd : UInt64) : self.apply (event.withPrice priceUsd) = self.apply event := by
  cases event with
  | orderPlaced event => rfl
  | orderCancelled event => rfl

/-! ### Reading back -/

section

variable {F} {payload : List (String × Json)} {event : OrderEvent U T} {key tag : String}

/-- The object has the fields, but for a schema version that is the default. -/
def HasFields (fields payload : List (String × Json)) (version : UInt32) : Prop :=
  ∀ m ∈ fields, (Json.object payload).member? m.1 = some m.2 ∨
    (m.1 = "schema_version" ∧ version = SchemaVersion.default ∧
      (Json.object payload).member? m.1 = none)

/-- The payload has the fields of the event and no tag. -/
structure OrderEvent.Carries (F : Formats U T) (event : OrderEvent U T)
    (payload : List (String × Json)) : Prop where
  fields : HasFields (event.members F) payload event.schemaVersion
  untagged : (Json.object payload).member? "event_type" = none

/-- What an event is written as carries it. -/
lemma OrderEvent.carries_members (event : OrderEvent U T) : event.Carries F (event.members F) where
  fields m hm := by
    refine .inl (Json.member?_of_mem ?_ hm)
    cases event with
    | orderPlaced event => simp [members, OrderPlaced.members]
    | orderCancelled event => simp [members, OrderCancelled.members]
  untagged := by
    cases event with
    | orderPlaced event => rfl
    | orderCancelled event => rfl

/-- The value has the members of the event, but for the price: a decimal text may be read as a
float next to the one it was written from. -/
def OrderEvent.StoredAs (F : Formats U T) (event : OrderEvent U T) (value : Json) : Prop :=
  ∃ members priceUsd, value = .object members ∧ (event.withPrice priceUsd).Writable ∧
    (event.withPrice priceUsd).Carries F members

/-- The same of any event: a price that is no finite number is stored as null. -/
def OrderEvent.WrittenAs (F : Formats U T) (event : OrderEvent U T) (value : Json) : Prop :=
  ∃ members priceUsd, value = .object members ∧
    ((event.withPrice priceUsd).Writable ↔ event.Writable) ∧
    (event.withPrice priceUsd).Carries F members

lemma OrderEvent.writtenAs_of_storedAs {value : Json} (h : event.StoredAs F value)
    (hwritable : event.Writable) : event.WrittenAs F value := by
  obtain ⟨members, priceUsd, hvalue, hprice, hcarries⟩ := h
  exact ⟨members, priceUsd, hvalue, iff_of_true hprice hwritable, hcarries⟩

lemma OrderEvent.writtenAs_members (event : OrderEvent U T) :
    event.WrittenAs F (.object (event.members F)) := by
  cases event with
  | orderPlaced event => exact ⟨_, event.priceUsd, rfl, Iff.rfl, carries_members _⟩
  | orderCancelled event => exact ⟨_, 0, rfl, Iff.rfl, carries_members _⟩

lemma OrderEvent.storedAs_members {event : OrderEvent U T} (h : event.Writable) :
    event.StoredAs F (.object (event.members F)) := by
  cases event with
  | orderPlaced event => exact ⟨_, event.priceUsd, rfl, h, carries_members _⟩
  | orderCancelled event => exact ⟨_, 0, rfl, h, carries_members _⟩

lemma field_eq {α : Type} {read : Json → Option α} {value : Json} {a : α}
    (hmember : (Json.object payload).member? key = some value) (hread : read value = some a) :
    field payload key read = some a := by
  rw [field, hmember]
  exact hread

/-- The schema version that is read, where it is written or left out. -/
lemma fieldOr_eq {version : UInt32}
    (h : (Json.object payload).member? key = some (.ofU32 version) ∨
      (version = SchemaVersion.default ∧ (Json.object payload).member? key = none)) :
    fieldOr SchemaVersion.default payload key Json.asU32 = some version := by
  rcases h with hmember | ⟨rfl, hmember⟩
  · rw [fieldOr, hmember]
    exact Json.asU32_ofU32 version
  · rw [fieldOr, hmember]

lemma HasFields.field {α : Type} {fields : List (String × Json)} {version : UInt32}
    {read : Json → Option α} {value : Json} {a : α} (h : HasFields fields payload version)
    (hmem : (key, value) ∈ fields) (hkey : key ≠ "schema_version") (hread : read value = some a) :
    field payload key read = some a := by
  rcases h _ hmem with hmember | ⟨hversion, -⟩
  · exact field_eq hmember hread
  · exact absurd hversion hkey

lemma HasFields.schemaVersion {fields : List (String × Json)} {version : UInt32}
    (h : HasFields fields payload version)
    (hmem : ("schema_version", Json.ofU32 version) ∈ fields) :
    fieldOr SchemaVersion.default payload "schema_version" Json.asU32 = some version :=
  fieldOr_eq ((h _ hmem).imp_right And.right)

lemma OrderPlaced.ofMembers_eq {event : OrderPlaced U T}
    (h : HasFields (event.members F) payload event.schemaVersion)
    (hfinite : Json.isFiniteF64 event.priceUsd = true) : ofMembers F payload = some event := by
  have horder : field payload "order_id" F.readUuid = some event.orderId :=
    h.field (by simp [members]) (by decide) (F.readUuid_uuid _)
  have hproduct : field payload "product_id" Json.asString = some event.productId :=
    h.field (by simp [members]) (by decide) (Json.asString_string _)
  have hquantity : field payload "quantity" Json.asU32 = some event.quantity :=
    h.field (by simp [members]) (by decide) (Json.asU32_ofU32 _)
  have hprice : field payload "price_usd" F.readF64 = some event.priceUsd :=
    h.field (by simp [members]) (by decide) (F.readF64_ofF64 hfinite)
  have hplaced : field payload "placed_at" F.readInstant = some event.placedAt :=
    h.field (by simp [members]) (by decide) (F.readInstant_instant _)
  have hversion := h.schemaVersion (by simp [members])
  simp [ofMembers, horder, hproduct, hquantity, hprice, hplaced, hversion]

/-- The null that stands for a price is not read as one. -/
lemma OrderPlaced.ofMembers_of_unwritable {event : OrderPlaced U T}
    (h : HasFields (event.members F) payload event.schemaVersion)
    (hfinite : Json.isFiniteF64 event.priceUsd = false) : ofMembers F payload = none := by
  have hnull : Json.ofF64 event.priceUsd = .null := by simp [Json.ofF64, hfinite]
  have hprice : field payload "price_usd" F.readF64 = none := by
    rcases h ("price_usd", .null) (by simp [members, hnull]) with hmember | ⟨hversion, -⟩
    · rw [field, hmember]
      rfl
    · simp at hversion
  simp [ofMembers, hprice]

lemma OrderCancelled.ofMembers_eq {event : OrderCancelled U T}
    (h : HasFields (event.members F) payload event.schemaVersion) :
    ofMembers F payload = some event := by
  have horder : field payload "order_id" F.readUuid = some event.orderId :=
    h.field (by simp [members]) (by decide) (F.readUuid_uuid _)
  have hreason : field payload "reason" Json.asString = some event.reason :=
    h.field (by simp [members]) (by decide) (Json.asString_string _)
  have hcancelled : field payload "cancelled_at" F.readInstant = some event.cancelledAt :=
    h.field (by simp [members]) (by decide) (F.readInstant_instant _)
  have hversion := h.schemaVersion (by simp [members])
  simp [ofMembers, horder, hreason, hcancelled, hversion]

/-- A stored payload is read under its event type by the fields that it has. -/
lemma OrderEvent.fromValue_tagged (h : event.Carries F payload) :
    ∃ rest, HasFields (event.members F) rest event.schemaVersion ∧
      fromValue F ((Json.object payload).orInsert "event_type" (.string event.eventType))
        = ofTagged event.eventType (OrderPlaced.ofMembers F rest)
            (OrderCancelled.ofMembers F rest) := by
  obtain ⟨inserted, hinserted⟩ : ∃ inserted,
      (Json.object payload).orInsert "event_type" (.string event.eventType)
        = .object inserted := by
    rw [Json.orInsert]
    split_ifs
    · exact ⟨_, rfl⟩
    · exact ⟨_, rfl⟩
  have htag : (Json.object inserted).member? "event_type" = some (.string event.eventType) := by
    rw [← hinserted, Json.member?_orInsert, h.untagged]
    rfl
  refine ⟨inserted.filter fun m => m.1 ≠ "event_type", ?_, ?_⟩
  · -- each field is the one that the payload has
    intro m hm
    have hkey : m.1 ≠ "event_type" := by
      have hkeys : ∀ m ∈ event.members F, m.1 ≠ "event_type" := by
        cases event with
        | orderPlaced event => simp [members, OrderPlaced.members]
        | orderCancelled event => simp [members, OrderCancelled.members]
      exact hkeys m hm
    rw [Json.member?_filter_orInsert hkey hinserted]
    exact h.fields m hm
  · rw [hinserted, fromValue, htag]

/-- What is read from a stored payload under its event type is the event, whatever other members
the payload has. -/
lemma OrderEvent.fromValue_of_carries (h : event.Carries F payload) (hwritable : event.Writable) :
    fromValue F ((Json.object payload).orInsert "event_type" (.string event.eventType))
      = some event := by
  obtain ⟨rest, hrest, hread⟩ := fromValue_tagged h
  rw [hread]
  cases event with
  | orderPlaced event => simp [ofTagged, eventType, OrderPlaced.ofMembers_eq hrest hwritable]
  | orderCancelled event => simp [ofTagged, eventType, OrderCancelled.ofMembers_eq hrest]

/-- Nothing is read where the price is no finite number. -/
lemma OrderEvent.fromValue_of_unwritable (h : event.Carries F payload)
    (hwritable : ¬ event.Writable) :
    fromValue F ((Json.object payload).orInsert "event_type" (.string event.eventType))
      = none := by
  obtain ⟨rest, hrest, hread⟩ := fromValue_tagged h
  rw [hread]
  cases event with
  | orderPlaced event =>
    have hfinite : Json.isFiniteF64 event.priceUsd = false := Bool.eq_false_iff.mpr hwritable
    simp [ofTagged, eventType, OrderPlaced.ofMembers_of_unwritable hrest hfinite]
  | orderCancelled event => exact absurd trivial hwritable

end

end EventSourcing
