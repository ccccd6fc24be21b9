import Mathlib.Data.List.Lex
import Mathlib.Data.Nat.Basic
import Mathlib.Data.String.Basic
import Mathlib.Tactic.Ring

/-!
# Decimal digits under the order of texts

Numbers written with a fixed count of digits compare as texts the way they compare as numbers,
also as the digits after a decimal point, where one text may be longer than the other.
-/

namespace Text

/-- `n` in `w` decimal digits. -/
def digits : (w n : ℕ) → List Char
  | 0, _ => []
  | w + 1, n => digits w (n / 10) ++ [(n % 10).digitChar]

variable {w n m p q a b : ℕ} {x y : List Char}

@[simp] lemma length_digits (w n : ℕ) : (digits w n).length = w := by
  induction w generalizing n with
  | zero => rfl
  | succ w ih => simp [digits, ih]

/-! ### Texts of one length -/

lemma append_lt_append_of_lt {u v : List Char} (hlen : u.length = v.length) (h : u < v) :
    u ++ x < v ++ y := by
  induction u generalizing v with
  | nil =>
    obtain rfl : v = [] := List.length_eq_zero_iff.mp hlen.symm
    exact absurd h (lt_irrefl _)
  | cons c u ih =>
    cases v with
    | nil => simp at hlen
    | cons d v =>
      simp only [List.cons_append, List.cons_lt_cons_iff] at h ⊢
      rcases h with h | ⟨rfl, h⟩
      · exact .inl h
      · exact .inr ⟨rfl, ih (by simpa using hlen) h⟩

lemma append_lt_append_right (u : List Char) (h : x < y) : u ++ x < u ++ y :=
  List.append_left_lt h

lemma digitChar_lt (hn : n < 10) (hm : m < 10) (h : n < m) : n.digitChar < m.digitChar := by
  have hall : ∀ i < 10, ∀ j < 10, i < j → i.digitChar < j.digitChar := by decide
  exact hall n hn m hm h

/-- Fixed-width numbers ascend as texts. -/
lemma digits_lt (hm : m < 10 ^ w) (h : n < m) : digits w n < digits w m := by
  induction w generalizing n m with
  | zero => simp at hm; omega
  | succ w ih =>
    simp only [digits]
    rcases Nat.lt_or_ge (n / 10) (m / 10) with hlt | hge
    · exact append_lt_append_of_lt (by simp) (ih (by rw [pow_succ] at hm; omega) hlt)
    · have heq : n / 10 = m / 10 := by omega
      rw [heq]
      refine append_lt_append_right _ (List.cons_lt_cons_iff.mpr (.inl ?_))
      exact digitChar_lt (by omega) (by omega) (by omega)

/-- A fixed-width field decides the order of what starts with it, unless it is the same. -/
lemma field_lt (hm : m < 10 ^ w) (h : n < m ∨ (n = m ∧ x < y)) :
    digits w n ++ x < digits w m ++ y := by
  rcases h with h | ⟨rfl, h⟩
  · exact append_lt_append_of_lt (by simp) (digits_lt hm h)
  · exact append_lt_append_right _ h

lemma cons_lt (c : Char) (h : x < y) : c :: x < c :: y := List.cons_lt_cons_iff.mpr (.inr ⟨rfl, h⟩)

/-! ### Digits after a decimal point -/

lemma digits_add (p q n : ℕ) : digits (p + q) n = digits p (n / 10 ^ q) ++ digits q n := by
  induction q generalizing n with
  | zero => simp [digits]
  | succ q ih =>
    rw [← Nat.add_assoc]
    simp only [digits]
    rw [ih, Nat.div_div_eq_div_mul, pow_succ, Nat.mul_comm 10, List.append_assoc]

/-- A text that starts below every digit is smaller than digits. -/
lemma lt_digits {c : Char} (hc : c < '0') (hq : 0 < q) (n : ℕ) : c :: x < digits q n ++ y := by
  obtain ⟨k, rfl⟩ : ∃ k, q = 1 + k := ⟨q - 1, by omega⟩
  have hdigit : ∀ i < 10, c < i.digitChar := by
    have hall : ∀ i < 10, '0' ≤ i.digitChar := by decide
    exact fun i hi => hc.trans_le (hall i hi)
  rw [digits_add]
  refine List.cons_lt_cons_iff.mpr (.inl ?_)
  exact hdigit _ (Nat.mod_lt _ (by decide))

/-- `0.a < 0.b` with `a` in `p` digits and `b` in `q` digits, before a text that starts below
every digit. -/
lemma decimals_lt {c : Char} (hc : c < '0') (hb : b < 10 ^ q) (h : a * 10 ^ q < b * 10 ^ p) :
    digits p a ++ c :: x < digits q b ++ c :: x := by
  rcases Nat.le_total p q with hpq | hqp
  · obtain ⟨r, rfl⟩ := Nat.exists_eq_add_of_le hpq
    have hlt : a * 10 ^ r < b := by
      refine Nat.lt_of_mul_lt_mul_right (a := 10 ^ p) ?_
      calc a * 10 ^ r * 10 ^ p = a * 10 ^ (p + r) := by ring
        _ < b * 10 ^ p := h
    have hb' : b / 10 ^ r < 10 ^ p := by
      rw [Nat.div_lt_iff_lt_mul (Nat.pow_pos (by decide)), ← pow_add]
      exact hb
    rw [digits_add, List.append_assoc]
    rcases Nat.lt_or_ge a (b / 10 ^ r) with hab | hab
    · exact append_lt_append_of_lt (by simp) (digits_lt hb' hab)
    · -- the common digits agree, so `b` has more of them
      have hpow : 0 < 10 ^ r := Nat.pow_pos (by decide)
      have heq : b / 10 ^ r = a := le_antisymm hab ((Nat.le_div_iff_mul_le hpow).mpr hlt.le)
      have hr : 0 < r := by
        rcases Nat.eq_zero_or_pos r with rfl | hr
        · simp at heq hlt; omega
        · exact hr
      rw [heq]
      exact append_lt_append_right _ (lt_digits hc hr b)
  · obtain ⟨r, rfl⟩ := Nat.exists_eq_add_of_le hqp
    have hlt : a < b * 10 ^ r := by
      refine Nat.lt_of_mul_lt_mul_right (a := 10 ^ q) ?_
      calc a * 10 ^ q < b * 10 ^ (q + r) := h
        _ = b * 10 ^ r * 10 ^ q := by ring
    rw [digits_add, List.append_assoc]
    refine append_lt_append_of_lt (by simp) (digits_lt hb ?_)
    exact (Nat.div_lt_iff_lt_mul (Nat.pow_pos (by decide))).mpr hlt

end Text
