import EventSourcing.CompetingConsumers.DateTime
import Mathlib.Data.Nat.Digits.Defs

/-!
# The benchmark event and its JSON

`BenchmarkEvent` with all its fields, and the bytes that `serde_json::to_vec` gives of it.
-/

namespace EventSourcing

/-- The JSON text of an instant, which ends in `Z`. -/
def DateTime.toJson (t : DateTime) : List Char :=
  '"' :: t.toRfc3339.toList.take (t.toRfc3339.toList.length - DateTime.offset.length) ++ ['Z', '"']

namespace Events

structure BenchmarkEvent where
  seq : UInt64
  taskId : UInt64
  payload : List UInt8
  createdAt : DateTime
  deriving DecidableEq

/-- The decimal digits of a number. -/
def decimal (n : ℕ) : List Char := Nat.toDigits 10 n

/-- The items of an array of bytes. -/
def items : List UInt8 → List Char
  | [] => []
  | [b] => decimal b.toNat
  | b :: bytes => decimal b.toNat ++ ',' :: items bytes

namespace BenchmarkEvent

variable (event : BenchmarkEvent)

/-- What stands before the items of the payload. -/
def head : List Char :=
  "\"seq\":".toList ++ decimal event.seq.toNat ++ ",\"task_id\":".toList ++
    decimal event.taskId.toNat ++ ",\"payload\":[".toList

/-- What stands after them. -/
def tail : List Char := "],\"created_at\":".toList ++ event.createdAt.toJson ++ ['\x7d']

def json : List Char := '\x7b' :: (event.head ++ items event.payload ++ event.tail)

/-- `serde_json::to_vec`; every character of the text is ASCII. -/
def toVec : List UInt8 := event.json.map fun c => .ofNat c.toNat

end BenchmarkEvent

lemma decimal_pos (n : ℕ) : 0 < (decimal n).length := Nat.length_toDigits_pos

/-- Every byte of an array takes a digit. -/
lemma length_le_items (bytes : List UInt8) : bytes.length ≤ (items bytes).length := by
  induction bytes using items.induct with
  | case1 => exact le_refl _
  | case2 b => exact decimal_pos b.toNat
  | case3 b bytes _ ih =>
    have hdigit := decimal_pos b.toNat
    rw [items, List.length_append, List.length_cons, List.length_cons]
    · omega
    · assumption

/-- The text of an event is longer than its payload. -/
lemma payload_lt_toVec (event : BenchmarkEvent) : event.payload.length < event.toVec.length := by
  have hitems := length_le_items event.payload
  simp only [BenchmarkEvent.toVec, BenchmarkEvent.json, List.length_map, List.length_cons,
    List.length_append]
  omega

/-- So it is never the payload itself. -/
lemma toVec_ne_payload (event : BenchmarkEvent) : event.toVec ≠ event.payload := by
  intro heq
  have hlt := payload_lt_toVec event
  rw [heq] at hlt
  exact absurd hlt (lt_irrefl _)

end Events

end EventSourcing
