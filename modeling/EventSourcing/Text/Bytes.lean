import Mathlib.Data.List.Lex
import Mathlib.Data.String.Basic

/-!
# Texts as bytes

The UTF-8 bytes of a text. Texts of ASCII characters compare by their bytes the way they
compare by their characters.
-/

namespace Text

/-- The UTF-8 bytes of a text. -/
def bytes (s : String) : List UInt8 := s.toList.flatMap String.utf8EncodeChar

lemma bytes_injective : Function.Injective bytes := by
  intro s t h
  rw [← String.toByteArray_inj, ← String.utf8Encode_toList, ← String.utf8Encode_toList]
  simp only [List.utf8Encode]
  exact congrArg List.toByteArray h

def Ascii (cs : List Char) : Prop := ∀ c ∈ cs, c.val ≤ 0x7f

variable {c d : Char} {cs ds : List Char} {s t : String}

@[simp] lemma ascii_nil : Ascii [] := by simp [Ascii]

@[simp] lemma ascii_cons : Ascii (c :: cs) ↔ c.val ≤ 0x7f ∧ Ascii cs := by simp [Ascii]

@[simp] lemma ascii_append : Ascii (cs ++ ds) ↔ Ascii cs ∧ Ascii ds := by
  simp only [Ascii, List.mem_append]
  constructor
  · exact fun h => ⟨fun c hc => h c (.inl hc), fun c hc => h c (.inr hc)⟩
  · rintro ⟨hcs, hds⟩ c (hc | hc)
    · exact hcs c hc
    · exact hds c hc

/-- Each character is one byte. -/
lemma flatMap_of_ascii (h : Ascii cs) :
    cs.flatMap String.utf8EncodeChar = cs.map fun c => c.val.toUInt8 := by
  induction cs with
  | nil => rfl
  | cons c cs ih =>
    obtain ⟨hc, hcs⟩ := ascii_cons.mp h
    have hsize : c.utf8Size = 1 := by simp [Char.utf8Size, hc]
    rw [List.flatMap_cons, String.utf8EncodeChar_eq_singleton hsize, ih hcs]
    rfl

lemma toUInt8_toNat (hc : c.val ≤ 0x7f) : c.val.toUInt8.toNat = c.val.toNat := by
  have hle : c.val.toNat ≤ 127 := UInt32.le_iff_toNat_le.mp hc
  rw [UInt32.toNat_toUInt8]
  exact Nat.mod_eq_of_lt (by omega)

lemma toUInt8_lt_iff (hc : c.val ≤ 0x7f) (hd : d.val ≤ 0x7f) :
    c.val.toUInt8 < d.val.toUInt8 ↔ c < d := by
  rw [UInt8.lt_iff_toNat_lt, toUInt8_toNat hc, toUInt8_toNat hd, ← UInt32.lt_iff_toNat_lt]
  rfl

lemma toUInt8_inj (hc : c.val ≤ 0x7f) (hd : d.val ≤ 0x7f) :
    c.val.toUInt8 = d.val.toUInt8 ↔ c = d := by
  rw [← UInt8.toNat_inj, toUInt8_toNat hc, toUInt8_toNat hd, UInt32.toNat_inj, Char.ext_iff]

lemma map_toUInt8_lt_iff (hcs : Ascii cs) (hds : Ascii ds) :
    (cs.map fun c => c.val.toUInt8) < (ds.map fun c => c.val.toUInt8) ↔ cs < ds := by
  induction cs generalizing ds with
  | nil =>
    cases ds with
    | nil => simp
    | cons d ds => simp
  | cons c cs ih =>
    cases ds with
    | nil => simp
    | cons d ds =>
      obtain ⟨hc, hcs⟩ := ascii_cons.mp hcs
      obtain ⟨hd, hds⟩ := ascii_cons.mp hds
      rw [List.map_cons, List.map_cons, List.cons_lt_cons_iff, List.cons_lt_cons_iff,
        toUInt8_lt_iff hc hd, toUInt8_inj hc hd, ih hcs hds]

/-- Texts of ASCII characters are ordered as their bytes. -/
theorem bytes_lt_iff (hs : Ascii s.toList) (ht : Ascii t.toList) : bytes s < bytes t ↔ s < t := by
  rw [bytes, bytes, flatMap_of_ascii hs, flatMap_of_ascii ht, map_toUInt8_lt_iff hs ht,
    String.lt_iff_toList_lt]

end Text
