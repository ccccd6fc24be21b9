import Mathlib.Data.List.Forall2
import Mathlib.Data.List.Infix
import Mathlib.Data.String.Basic

/-!
# Words in a lower-cased text

`to_lowercase` maps the ASCII letters to their lower case and leaves the other ASCII characters.
Of the characters beyond ASCII only two have a lower case with an ASCII character in it: the
Kelvin sign (`k`) and the dotted capital I (`i` and a combining dot); that of the others may
depend on the text around them. So a word of ASCII characters that does not end with an `i` is in
the lower-cased text just where the folded characters of the text spell it
(`contains_toLowercase_iff`), and a text is searched part by part where its parts are joined by
characters that the word does not have.
-/

namespace Text

/-- `contains` -/
def Contains (s pattern : String) : Prop := pattern.toList <:+: s.toList

instance (s pattern : String) : Decidable (Contains s pattern) :=
  inferInstanceAs (Decidable (_ <:+: _))

/-- What a character may become. -/
inductive Lowers : Char → List Char → Prop where
  | ascii {c : Char} (hc : c.val ≤ 0x7f) : Lowers c [c.toLower]
  | dotted : Lowers '\u0130' ['i', '\u0307']
  | kelvin : Lowers '\u212a' ['k']
  | other {c : Char} {piece : List Char} (hc : 0x7f < c.val) (hdotted : c ≠ '\u0130')
      (hkelvin : c ≠ '\u212a') (hne : piece ≠ []) (hpiece : ∀ d ∈ piece, 0x7f < d.val) :
      Lowers c piece

/-- `str::to_lowercase` -/
structure Lowercase where
  toLowercase : String → String
  lowers : ∀ s, ∃ pieces, List.Forall₂ Lowers s.toList pieces
    ∧ (toLowercase s).toList = pieces.flatten

/-- The one ASCII character that a character becomes. -/
def fold (c : Char) : Option Char :=
  if c.val ≤ 0x7f then some c.toLower else if c = '\u212a' then some 'k' else none

/-- The folded characters of the text spell the word. -/
def Spells (s word : String) : Prop := word.toList.map some <:+: s.toList.map fold

instance (s word : String) : Decidable (Spells s word) := inferInstanceAs (Decidable (_ <:+: _))

/-! ### Infixes -/

section Infix

variable {A : Type*} {x : A} {l m a b : List A}

lemma infix_cons_of_head_ne (hl : l ≠ []) (hx : l.head? ≠ some x) :
    l <:+: x :: b ↔ l <:+: b := by
  rw [List.infix_cons_iff]
  refine or_iff_right fun hstart => ?_
  cases l with
  | nil => exact hl rfl
  | cons y l =>
    rw [List.cons_prefix_cons] at hstart
    exact hx (congrArg some hstart.1)

lemma infix_cons_of_notMem (hl : l ≠ []) (hx : x ∉ l) : l <:+: x :: b ↔ l <:+: b :=
  infix_cons_of_head_ne hl fun h => hx (List.mem_of_head? h)

/-- Nothing of the word is in the text before. -/
lemma infix_append_of_notMem (hl : l ≠ []) (hm : ∀ x ∈ m, x ∉ l) :
    l <:+: m ++ b ↔ l <:+: b := by
  induction m with
  | nil => rfl
  | cons x m ih =>
    rw [List.cons_append, infix_cons_of_notMem hl (hm x (by simp)),
      ih fun y hy => hm y (by simp [hy])]

lemma prefix_append_cons_iff (hx : x ∉ l) : l <+: a ++ x :: b ↔ l <+: a := by
  constructor
  · intro h
    rcases Nat.le_total l.length a.length with hle | hle
    · exact List.prefix_of_prefix_length_le h (List.prefix_append _ _) hle
    · -- a longer prefix has the separator in it
      obtain ⟨c, rfl⟩ := List.prefix_of_prefix_length_le (List.prefix_append a (x :: b)) h hle
      cases c with
      | nil => simp
      | cons y c =>
        rw [List.prefix_append_right_inj, List.cons_prefix_cons] at h
        exact absurd (List.mem_append_right a (h.1 ▸ List.mem_cons_self)) hx
  · exact fun h => h.trans (List.prefix_append _ _)

/-- A word without the separator is on one side of it. -/
lemma infix_append_cons_iff (hx : x ∉ l) : l <:+: a ++ x :: b ↔ l <:+: a ∨ l <:+: b := by
  induction a with
  | nil =>
    rw [List.nil_append, List.infix_cons_iff, List.infix_nil]
    have hstart := prefix_append_cons_iff (a := []) (b := b) hx
    rw [List.nil_append, List.prefix_nil] at hstart
    rw [hstart]
  | cons y a ih =>
    rw [List.cons_append, List.infix_cons_iff, ih, ← List.cons_append,
      prefix_append_cons_iff hx, List.infix_cons_iff, or_assoc]

end Infix

/-! ### Lower-cased texts -/

/-- A word that is found in a lower-cased text by its characters alone. -/
def Searchable (word : List Char) : Prop :=
  word ≠ [] ∧ word.all (fun c => c.val ≤ 0x7f) = true ∧ word.getLast? ≠ some 'i'

instance (word : List Char) : Decidable (Searchable word) :=
  inferInstanceAs (Decidable (_ ∧ _ ∧ _))

variable {c d : Char} {cs ds word : List Char} {pieces : List (List Char)} {s : String}

lemma Searchable.ascii (h : Searchable word) : ∀ c ∈ word, c.val ≤ 0x7f := fun c hc =>
  of_decide_eq_true (List.all_eq_true.mp h.2.1 c hc)

lemma fold_ascii (hc : c.val ≤ 0x7f) : fold c = some c.toLower := if_pos hc

lemma fold_other (hc : 0x7f < c.val) (hkelvin : c ≠ '\u212a') : fold c = none := by
  rw [fold, if_neg (UInt32.not_le.mpr hc), if_neg hkelvin]

lemma prefix_flatten_iff (hpieces : List.Forall₂ Lowers cs pieces)
    (hascii : ∀ c ∈ word, c.val ≤ 0x7f) (hlast : word.getLast? ≠ some 'i') :
    word <+: pieces.flatten ↔ word.map some <+: cs.map fold := by
  induction hpieces generalizing word with
  | nil => simp
  | @cons c piece cs pieces hc _ ih =>
    cases word with
    | nil => simp
    | cons x word =>
      have hx : x.val ≤ 0x7f := hascii x List.mem_cons_self
      have hascii' : ∀ c ∈ word, c.val ≤ 0x7f := fun c hc => hascii c (List.mem_cons_of_mem x hc)
      have hlast' : word.getLast? ≠ some 'i' := by
        intro h
        rw [List.getLast?_cons, h] at hlast
        exact hlast rfl
      rw [List.flatten_cons, List.map_cons, List.map_cons, List.cons_prefix_cons]
      cases hc with
      | ascii hc =>
        rw [List.singleton_append, List.cons_prefix_cons, ih hascii' hlast', fold_ascii hc,
          Option.some.injEq]
      | dotted =>
        have hfold : fold '\u0130' = none := by decide
        rw [hfold]
        refine iff_of_false ?_ (by simp)
        intro h
        rw [List.cons_append, List.cons_prefix_cons] at h
        obtain ⟨rfl, hrest⟩ := h
        cases word with
        | nil => exact hlast rfl
        | cons y word =>
          -- the combining dot is no ASCII character
          rw [List.cons_append, List.cons_prefix_cons] at hrest
          exact absurd (hrest.1 ▸ hascii' y List.mem_cons_self) (by decide)
      | kelvin =>
        have hfold : fold '\u212a' = some 'k' := by decide
        rw [List.singleton_append, List.cons_prefix_cons, ih hascii' hlast', hfold,
          Option.some.injEq]
      | other hc hdotted hkelvin hne hpiece =>
        rw [fold_other hc hkelvin]
        refine iff_of_false ?_ (by simp)
        intro h
        cases piece with
        | nil => exact hne rfl
        | cons d piece =>
          rw [List.cons_append, List.cons_prefix_cons] at h
          exact absurd (h.1 ▸ hx) (UInt32.not_le.mpr (hpiece d List.mem_cons_self))

/-- What follows a character is searched apart from what the character becomes. -/
lemma infix_flatten_cons_iff {c : Char} {piece : List Char} (hc : Lowers c piece)
    (hword : Searchable word) :
    word <:+: piece ++ ds ↔ word <+: piece ++ ds ∨ word <:+: ds := by
  have hne := hword.1
  have hascii := hword.ascii
  cases hc with
  | ascii hc => rw [List.singleton_append, List.infix_cons_iff]
  | dotted =>
    have hdot : '\u0307' ∉ word := fun h => absurd (hascii _ h) (by decide)
    rw [List.cons_append, List.infix_cons_iff, List.cons_append, List.nil_append,
      infix_cons_of_notMem hne hdot]
  | kelvin => rw [List.singleton_append, List.infix_cons_iff]
  | other hc hdotted hkelvin hpne hpiece =>
    have hnone : ∀ d ∈ piece, d ∉ word := fun d hd h =>
      absurd (hascii d h) (UInt32.not_le.mpr (hpiece d hd))
    rw [infix_append_of_notMem hne hnone]
    exact ⟨.inr, fun h => h.elim
      (fun h => (infix_append_of_notMem hne hnone).mp h.isInfix) id⟩

lemma infix_flatten_iff (hpieces : List.Forall₂ Lowers cs pieces) (hword : Searchable word) :
    word <:+: pieces.flatten ↔ word.map some <:+: cs.map fold := by
  induction hpieces with
  | nil => simp
  | @cons c piece cs pieces hc hpieces ih =>
    have hstart := prefix_flatten_iff (.cons hc hpieces) hword.ascii hword.2.2
    rw [List.flatten_cons] at hstart
    rw [List.flatten_cons, infix_flatten_cons_iff hc hword, hstart, ih, List.map_cons,
      List.infix_cons_iff]

/-- A word is in the lower-cased text just where the folded characters spell it. -/
theorem contains_toLowercase_iff (lowercase : Lowercase) {word : String}
    (hword : Searchable word.toList) :
    Contains (lowercase.toLowercase s) word ↔ Spells s word := by
  obtain ⟨pieces, hpieces, htext⟩ := lowercase.lowers s
  rw [Contains, htext, infix_flatten_iff hpieces hword, Spells]

/-! ### Parts of a text -/

/-- Parts that are joined by a character the word does not have. -/
lemma spells_append_cons_iff {x : Char} (hx : fold x = some x) (hword : x ∉ word) :
    word.map some <:+: (cs ++ x :: ds).map fold
      ↔ word.map some <:+: cs.map fold ∨ word.map some <:+: ds.map fold := by
  rw [List.map_append, List.map_cons, infix_append_cons_iff]
  rw [hx]
  exact fun h => hword (by simpa using h)

/-- A first character that the word does not start with. -/
lemma spells_cons_iff {x : Char} (hx : fold x = some x) (hne : word ≠ [])
    (hword : word.head? ≠ some x) :
    word.map some <:+: (x :: ds).map fold ↔ word.map some <:+: ds.map fold := by
  rw [List.map_cons, infix_cons_of_head_ne (by simpa using hne)]
  rw [hx, List.head?_map]
  intro h
  obtain ⟨y, hy, hyx⟩ := Option.map_eq_some_iff.mp h
  exact hword (hy.trans hyx)

/-! ### A lower case -/

/-- What a character becomes where no other character beyond ASCII has a lower case. -/
def lowerChar (c : Char) : List Char :=
  if c.val ≤ 0x7f then [c.toLower]
  else if c = '\u0130' then ['i', '\u0307']
  else if c = '\u212a' then ['k']
  else [c]

lemma lowers_lowerChar (c : Char) : Lowers c (lowerChar c) := by
  rw [lowerChar]
  split_ifs with hc hdotted hkelvin
  · exact .ascii hc
  · exact hdotted ▸ .dotted
  · exact hkelvin ▸ .kelvin
  · have hhigh := UInt32.not_le.mp hc
    exact .other hhigh hdotted hkelvin (List.cons_ne_nil _ _) (by simpa using hhigh)

instance : Inhabited Lowercase where
  default :=
    { toLowercase := fun s => String.ofList (s.toList.flatMap lowerChar)
      lowers := by
        intro s
        refine ⟨s.toList.map lowerChar, ?_, ?_⟩
        · rw [List.forall₂_map_right_iff, List.forall₂_same]
          exact fun c _ => lowers_lowerChar c
        · rw [String.toList_ofList, List.flatMap_def] }

end Text
