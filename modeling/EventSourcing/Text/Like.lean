import Mathlib.Data.List.Infix
import Mathlib.Data.String.Basic

/-!
# Patterns of `LIKE`

`%` stands for any text and `_` for any character; a backslash takes the character after it
literally. A pattern that ends with its backslash is an error. So a text is a pattern of itself
unless it has a backslash in it (`likeMatches_self`), and of nothing else unless it has one of the
three characters (`likeMatches_literal`).
-/

namespace Text

inductive LikeItem where
  | char (c : Char)
  | anyChar
  | anyText
  deriving DecidableEq

/-- The items of a pattern. -/
def likeItems : List Char → Option (List LikeItem)
  | [] => some []
  | '\\' :: rest =>
    match rest with
    | [] => none
    | c :: rest => (likeItems rest).map (.char c :: ·)
  | '%' :: rest => (likeItems rest).map (.anyText :: ·)
  | '_' :: rest => (likeItems rest).map (.anyChar :: ·)
  | c :: rest => (likeItems rest).map (.char c :: ·)

/-- Whether the whole text matches. -/
def likeMatches : List LikeItem → List Char → Bool
  | [], text => text.isEmpty
  | .char c :: items, text =>
    match text with
    | [] => false
    | d :: text => d == c && likeMatches items text
  | .anyChar :: items, text =>
    match text with
    | [] => false
    | _ :: text => likeMatches items text
  | .anyText :: items, text => text.tails.any (likeMatches items)

/-- A character that stands for itself in a pattern. -/
def Literal (c : Char) : Prop := c ≠ '\\' ∧ c ≠ '%' ∧ c ≠ '_'

instance (c : Char) : Decidable (Literal c) := inferInstanceAs (Decidable (_ ∧ _ ∧ _))

variable {p q text : List Char} {items : List LikeItem} {c : Char}

/-! ### Items -/

lemma likeItems_percent : likeItems ('%' :: p) = (likeItems p).map (.anyText :: ·) := by
  rw [likeItems]

lemma likeItems_underscore : likeItems ('_' :: p) = (likeItems p).map (.anyChar :: ·) := by
  rw [likeItems]

lemma likeItems_escaped : likeItems ('\\' :: c :: p) = (likeItems p).map (.char c :: ·) := by
  rw [likeItems]

lemma likeItems_cons (h : Literal c) : likeItems (c :: p) = (likeItems p).map (.char c :: ·) := by
  obtain ⟨hbackslash, hpercent, hunderscore⟩ := h
  rw [likeItems]
  · exact hbackslash
  · exact hpercent
  · exact hunderscore

/-- A pattern that ends with `%` is never an error: a backslash before it makes it a character. -/
lemma likeItems_isSome (p : List Char) : (likeItems (p ++ ['%'])).isSome = true := by
  induction p using likeItems.induct with
  | case1 => rfl
  | case2 => rfl
  | case3 c rest ih => simpa [likeItems_escaped] using ih
  | case4 rest ih => simpa [likeItems_percent] using ih
  | case5 rest ih => simpa [likeItems_underscore] using ih
  | case6 c rest hbackslash hpercent hunderscore ih =>
    have hliteral : Literal c := ⟨hbackslash, hpercent, hunderscore⟩
    simpa [likeItems_cons hliteral] using ih

/-! ### Matches -/

lemma likeMatches_anyText : likeMatches (.anyText :: items) text = true
    ↔ ∃ rest, rest <:+ text ∧ likeMatches items rest = true := by
  rw [likeMatches, List.any_eq_true]
  simp only [List.mem_tails]

/-- `%` matches everything. -/
lemma likeMatches_percent : likeMatches [.anyText] text = true :=
  likeMatches_anyText.mpr ⟨[], List.nil_suffix, rfl⟩

/-- Characters that stand for themselves, and whatever comes after them. -/
lemma likeMatches_chars : likeMatches (p.map .char ++ items) text = true
    ↔ ∃ rest, text = p ++ rest ∧ likeMatches items rest = true := by
  induction p generalizing text with
  | nil => simp
  | cons c p ih =>
    cases text with
    | nil => simp [likeMatches]
    | cons d text =>
      rw [List.map_cons, List.cons_append, likeMatches, Bool.and_eq_true, beq_iff_eq, ih]
      constructor
      · rintro ⟨rfl, rest, rfl, hrest⟩
        exact ⟨rest, rfl, hrest⟩
      · rintro ⟨rest, htext, hrest⟩
        rw [List.cons_append, List.cons.injEq] at htext
        exact ⟨htext.1, rest, htext.2, hrest⟩

lemma likeItems_literal (h : ∀ c ∈ p, Literal c) :
    likeItems (p ++ q) = (likeItems q).map (p.map .char ++ ·) := by
  induction p with
  | nil => simp
  | cons c p ih =>
    rw [List.cons_append, likeItems_cons (h c List.mem_cons_self),
      ih fun d hd => h d (List.mem_cons_of_mem _ hd), Option.map_map]
    rfl

/-- Characters that stand for themselves, and a `%` behind them: what begins with them. -/
lemma likeMatches_literal (h : ∀ c ∈ p, Literal c) (hitems : likeItems (p ++ ['%']) = some items) :
    likeMatches items text = true ↔ p <+: text := by
  rw [likeItems_literal h, likeItems_percent] at hitems
  obtain rfl := Option.some.inj hitems
  rw [likeMatches_chars]
  constructor
  · rintro ⟨rest, rfl, -⟩
    exact List.prefix_append p rest
  · rintro ⟨rest, rfl⟩
    exact ⟨rest, rfl, likeMatches_percent⟩

/-- Without a backslash everything that begins with the text matches, whatever else does. -/
lemma likeMatches_self (h : '\\' ∉ p) (hitems : likeItems (p ++ ['%']) = some items)
    (hfront : p <+: text) : likeMatches items text = true := by
  obtain ⟨rest, rfl⟩ := hfront
  induction p generalizing items with
  | nil =>
    obtain rfl : items = [.anyText] := Option.some.inj (hitems.symm.trans likeItems_percent)
    exact likeMatches_percent
  | cons c p ih =>
    rw [List.mem_cons, not_or] at h
    by_cases hpercent : c = '%'
    · subst hpercent
      rw [List.cons_append, likeItems_percent] at hitems
      obtain ⟨behind, hbehind, rfl⟩ := Option.map_eq_some_iff.mp hitems
      exact likeMatches_anyText.mpr ⟨p ++ rest, List.suffix_cons _ _, ih h.2 hbehind⟩
    · by_cases hunderscore : c = '_'
      · subst hunderscore
        rw [List.cons_append, likeItems_underscore] at hitems
        obtain ⟨behind, hbehind, rfl⟩ := Option.map_eq_some_iff.mp hitems
        exact ih h.2 hbehind
      · have hliteral : Literal c := ⟨fun heq => h.1 heq.symm, hpercent, hunderscore⟩
        rw [List.cons_append, likeItems_cons hliteral] at hitems
        obtain ⟨behind, hbehind, rfl⟩ := Option.map_eq_some_iff.mp hitems
        show (c == c && likeMatches behind (p ++ rest)) = true
        rw [ih h.2 hbehind, beq_self_eq_true]
        rfl

end Text
