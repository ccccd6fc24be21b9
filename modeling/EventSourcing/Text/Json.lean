import Mathlib.Tactic.Common

/-!
# JSON values

Values as a decoder keeps them: an integer apart from a float, a negative one apart from the
others, and the members of an object in the order in which they were inserted.
-/

namespace Text

inductive Json where
  | null
  | bool (b : Bool)
  | posInt (n : UInt64)
  | negInt (n : Int64)
  /-- a float, by its bits -/
  | float (bits : UInt64)
  | string (s : String)
  | array (items : List Json)
  | object (members : List (String × Json))

namespace Json

/-- The member `key` of an object. -/
def member? (key : String) : Json → Option Json
  | object members => (members.find? fun m => m.1 = key).map (·.2)
  | _ => none

/-- Every member is found under its key where no key stands twice. -/
lemma member?_of_mem {members : List (String × Json)} (hkeys : (members.map (·.1)).Nodup)
    {m : String × Json} (hm : m ∈ members) : (object members).member? m.1 = some m.2 := by
  induction members with
  | nil => cases hm
  | cons m' members ih =>
    rw [List.map_cons, List.nodup_cons] at hkeys
    rcases List.mem_cons.mp hm with rfl | hm
    · simp [member?]
    · have hne : m'.1 ≠ m.1 := by
        intro heq
        exact hkeys.1 (heq ▸ List.mem_map_of_mem hm)
      simpa [member?, hne] using ih hkeys.2 hm

/-- Indexing by a key; null where there is no such member. -/
def get (value : Json) (key : String) : Json := (value.member? key).getD null

/-- An object with a member under the key, which is added unless there is one. -/
def orInsert (self : Json) (key : String) (value : Json) : Json :=
  match self with
  | object members =>
    if members.any fun m => m.1 = key then object members else object (members ++ [(key, value)])
  | other => other

/-- The member is the one the object had, if it had one. -/
lemma member?_orInsert (members : List (String × Json)) (key : String) (value : Json) :
    ((object members).orInsert key value).member? key
      = some (((object members).member? key).getD value) := by
  simp only [orInsert]
  split_ifs with hany
  · obtain ⟨m, hm, hkey⟩ := List.any_eq_true.mp hany
    have hfound : (members.find? fun m => decide (m.1 = key)).isSome :=
      List.find?_isSome.mpr ⟨m, hm, hkey⟩
    obtain ⟨found, hfound⟩ := Option.isSome_iff_exists.mp hfound
    simp [member?, hfound]
  · have hnone : (members.find? fun m => decide (m.1 = key)) = none := by
      rw [List.find?_eq_none]
      exact fun m hm hkey => hany (List.any_eq_true.mpr ⟨m, hm, hkey⟩)
    simp [member?, List.find?_append, hnone]

/-- Assignment to an index. A value that is neither an object nor null has no such place. -/
def assign (self : Json) (key : String) (value : Json) : Json :=
  match self with
  | object members =>
    if members.any fun m => m.1 = key then
      object (members.map fun m => if m.1 = key then (key, value) else m)
    else object (members ++ [(key, value)])
  | null => object [(key, value)]
  | other => other

/-- The other members are left as they were. -/
lemma member?_assign_of_ne (members : List (String × Json)) {key key' : String} (value : Json)
    (hkey : key' ≠ key) :
    ((object members).assign key value).member? key' = (object members).member? key' := by
  simp only [assign]
  split_ifs with hany
  · have hcomp : ((fun m : String × Json => decide (m.1 = key')) ∘
        fun m => if m.1 = key then (key, value) else m) = fun m => decide (m.1 = key') := by
      funext m
      by_cases hm : m.1 = key
      · simp [hm]
      · simp [hm]
    rw [member?, member?, List.find?_map, hcomp]
    cases hfound : members.find? fun m => decide (m.1 = key') with
    | none => rfl
    | some m =>
      have hm : m.1 = key' := by simpa using List.find?_some hfound
      simp [hm, hkey]
  · simp [member?, List.find?_append, hkey.symm]

/-! ### Integers -/

def asU64 : Json → Option UInt64
  | posInt n => some n
  | _ => none

def asI64 : Json → Option Int64
  | posInt n => if n ≤ Int64.maxValue.toUInt64 then some n.toInt64 else none
  | negInt n => some n
  | _ => none

def asString : Json → Option String
  | string s => some s
  | _ => none

def ofI64 (n : Int64) : Json := if n < 0 then negInt n else posInt n.toUInt64

@[simp] lemma asU64_posInt (n : UInt64) : (posInt n).asU64 = some n := rfl

@[simp] lemma asString_string (s : String) : (string s).asString = some s := rfl

@[simp] lemma asI64_ofI64 (n : Int64) : (ofI64 n).asI64 = some n := by
  simp only [ofI64]
  split_ifs with hn
  · rfl
  · have hle : n.toUInt64 ≤ Int64.maxValue.toUInt64 :=
      Int64.toUInt64_le (Int64.not_lt.mp hn) (Int64.le_maxValue n)
    simp [asI64, hle]

def ofU32 (n : UInt32) : Json := posInt n.toUInt64

def asU32 : Json → Option UInt32
  | posInt n => if n ≤ 0xFFFFFFFF then some n.toUInt32 else none
  | _ => none

@[simp] lemma asU32_ofU32 (n : UInt32) : (ofU32 n).asU32 = some n := by
  have hle : n.toUInt64 ≤ 0xFFFFFFFF := by
    rw [UInt64.le_iff_toNat_le, UInt32.toNat_toUInt64]
    exact Nat.le_of_lt_succ n.toNat_lt
  simp [ofU32, asU32, hle]

/-! ### Floats -/

def isFiniteF64 (bits : UInt64) : Bool := (bits >>> 52) &&& 0x7FF != 0x7FF

/-- A float that is not finite becomes null. -/
def ofF64 (bits : UInt64) : Json := if isFiniteF64 bits then float bits else null

/-! ### Members that are left out -/

/-- A member that has gained its key by `orInsert` is the only one under it. -/
lemma member?_filter_orInsert {members inserted : List (String × Json)} {key tag : String}
    {value : Json} (hkey : key ≠ tag)
    (h : (object members).orInsert tag value = object inserted) :
    (object (inserted.filter fun m => m.1 ≠ tag)).member? key = (object members).member? key := by
  have hfilter (l : List (String × Json)) :
      (l.filter fun m => m.1 ≠ tag).find? (fun m => m.1 = key) = l.find? fun m => m.1 = key := by
    rw [List.find?_filter]
    congr 1
    funext m
    by_cases hm : m.1 = key
    · simp [hm, hkey]
    · simp [hm]
  simp only [orInsert] at h
  split_ifs at h
  · obtain rfl := Json.object.inj h
    simp only [member?, hfilter]
  · obtain rfl := Json.object.inj h
    simp only [member?, hfilter, List.find?_append]
    simp [Ne.symm hkey]

end Json

end Text
