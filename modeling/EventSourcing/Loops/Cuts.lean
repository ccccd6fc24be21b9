import EventSourcing.Loops.While
import Mathlib.Data.List.Basic
import Mathlib.Order.Nat

/-!
# Ranges cut into batches

The batches of a range of numbers that is cut into pieces, each of which holds at least one number
and at most `size`. A loop that takes a piece on every pass cuts the whole range
(`Loop.finishes_cuts`), and so does a division with remainder (`cuts_divided`).
-/

namespace Loops

/-- The batches hold the `total` numbers from `first` on, in order. -/
structure Cuts (first total size : ℕ) (batches : List (List ℕ)) : Prop where
  numbers : batches.flatten = List.range' first total
  nonempty : ∀ batch ∈ batches, batch ≠ []
  length_le : ∀ batch ∈ batches, batch.length ≤ size

variable {first total total' size n : ℕ} {batches batches' : List (List ℕ)}

lemma cuts_nil : Cuts first 0 size [] where
  numbers := rfl
  nonempty := nofun
  length_le := nofun

lemma cuts_singleton (hpos : 0 < n) (hn : n ≤ size) :
    Cuts first n size [List.range' first n] where
  numbers := by simp
  nonempty := by simpa using hpos.ne'
  length_le := by simpa using hn

lemma Cuts.append (h : Cuts first total size batches)
    (h' : Cuts (first + total) total' size batches') :
    Cuts first (total + total') size (batches ++ batches') where
  numbers := by
    rw [List.flatten_append, h.numbers, h'.numbers, List.range'_append_1]
  nonempty batch hbatch := (List.mem_append.mp hbatch).elim (h.nonempty batch) (h'.nonempty batch)
  length_le batch hbatch :=
    (List.mem_append.mp hbatch).elim (h.length_le batch) (h'.length_le batch)

variable {S X : Type*} {L : Loop S (List ℕ) X} {pos : S → ℕ} {I : S → Prop} {s : S}

/-- A loop that takes a piece of the range on every pass cuts it. `pos` is how much of the range
it has taken, `I` what the body keeps. -/
theorem Loop.finishes_cuts (hcontinues : ∀ s, L.continues s = decide (pos s < total))
    (hbody : ∀ s, I s → pos s < total → ∃ n s', 0 < n ∧ n ≤ size ∧ pos s + n ≤ total ∧
      L.body s = .ok (List.range' (first + pos s) n, s') ∧ I s' ∧ pos s' = pos s + n)
    (hs : I s) (hle : pos s ≤ total) :
    ∃ batches, L.Finishes s batches ∧ Cuts (first + pos s) (total - pos s) size batches := by
  induction hleft : total - pos s using Nat.strong_induction_on generalizing s with
  | _ left ih =>
    by_cases hdone : pos s < total
    · obtain ⟨n, s', hpos, hn, hfits, hpass, hs', hpos'⟩ := hbody s hs hdone
      obtain ⟨batches, hfinishes, hcuts⟩ := ih (total - pos s') (by omega) hs' (by omega) rfl
      refine ⟨_, hfinishes.pass (by rw [hcontinues]; exact decide_eq_true hdone) hpass, ?_⟩
      have hsplit : left = n + (total - pos s') := by omega
      rw [hsplit]
      rw [hpos', ← Nat.add_assoc] at hcuts
      rw [← hpos'] at hcuts
      exact (cuts_singleton hpos hn).append hcuts
    · refine ⟨[], finishes_exit (by rw [hcontinues]; exact decide_eq_false hdone), ?_⟩
      have hzero : left = 0 := by omega
      rw [hzero]
      exact cuts_nil

/-- A loop that advances by `size` with an addition that is checked against `bound`, and is
clipped by `total` only afterwards. -/
structure Strides (L : Loop S (List ℕ) X) (pos : S → ℕ) (I : S → Prop)
    (total size bound : ℕ) : Prop where
  continues : ∀ s, L.continues s = decide (pos s < total)
  pass : ∀ s, I s → pos s < total → pos s + size < bound →
    ∃ s', L.body s = .ok (List.range' (pos s) (min (pos s + size) total - pos s), s') ∧ I s' ∧
      pos s' = min (pos s + size) total
  overflow : ∀ s, I s → pos s < total → bound ≤ pos s + size → ∃ x, L.body s = .error x

/-- `total` rounded up to a multiple of `size` -/
def roundUp (total size : ℕ) : ℕ := (total + (size - 1)) / size * size

lemma le_roundUp (hsize : 0 < size) : total ≤ roundUp total size := by
  have hlt := Nat.lt_mul_div_succ (total + (size - 1)) hsize
  rw [Nat.mul_succ, Nat.mul_comm] at hlt
  rw [roundUp]
  omega

lemma roundUp_le (hsize : 0 < size) {j : ℕ} (h : total ≤ j * size) :
    roundUp total size ≤ j * size := by
  refine Nat.mul_le_mul_right size ?_
  rw [← Nat.lt_succ_iff, Nat.div_lt_iff_lt_mul hsize, Nat.succ_mul]
  omega

/-- The next multiple of `size` is still within `total` rounded up. -/
lemma succ_mul_le_roundUp (hsize : 0 < size) {j : ℕ} (h : j * size < total) :
    (j + 1) * size ≤ roundUp total size := by
  refine Nat.mul_le_mul_right size ?_
  rw [Nat.le_div_iff_mul_le hsize, Nat.succ_mul]
  omega

/-- Such a loop cuts the range exactly where the last addition is within the bound. -/
theorem Strides.finishes_iff {bound : ℕ} (h : Strides L pos I total size bound) (hsize : 0 < size)
    (hbound : 0 < bound) (hs : I s) (hpos : pos s = 0) :
    (∃ batches, L.Finishes s batches ∧ Cuts 0 total size batches) ↔
      roundUp total size < bound := by
  constructor
  · rintro ⟨batches, hfinishes, -⟩
    have hkeep : ∀ s e s', (I s ∧ ∃ j, pos s = min (j * size) total ∧ j * size < bound) →
        L.continues s = true → L.body s = .ok (e, s') →
        I s' ∧ ∃ j, pos s' = min (j * size) total ∧ j * size < bound := by
      rintro s e s' ⟨hs, j, hj, hlt⟩ hcontinues hbody
      rw [h.continues, decide_eq_true_eq] at hcontinues
      have hmul : pos s = j * size := by omega
      rcases Nat.lt_or_ge (pos s + size) bound with hfits | hover
      · obtain ⟨s'', hpass, hs'', hpos''⟩ := h.pass s hs hcontinues hfits
        obtain ⟨-, rfl⟩ := Prod.mk.inj (Except.ok.inj (hpass.symm.trans hbody))
        exact ⟨hs'', j + 1, by rw [hpos'', hmul, Nat.succ_mul], by rwa [Nat.succ_mul, ← hmul]⟩
      · obtain ⟨x, hx⟩ := h.overflow s hs hcontinues hover
        rw [hx] at hbody
        cases hbody
    obtain ⟨t, ⟨-, j, hj, hlt⟩, hexit⟩ :=
      hfinishes.invariant ⟨hs, 0, by simp [hpos], by simpa using hbound⟩ hkeep
    rw [h.continues, decide_eq_false_iff_not] at hexit
    exact lt_of_le_of_lt (roundUp_le hsize (by omega)) hlt
  · intro hround
    have hpass : ∀ s, (I s ∧ ∃ j, pos s = min (j * size) total) → pos s < total →
        ∃ n s', 0 < n ∧ n ≤ size ∧ pos s + n ≤ total ∧
          L.body s = .ok (List.range' (0 + pos s) n, s') ∧
          (I s' ∧ ∃ j, pos s' = min (j * size) total) ∧ pos s' = pos s + n := by
      rintro s ⟨hs, j, hj⟩ hlt
      have hmul : pos s = j * size := by omega
      have hnext := succ_mul_le_roundUp hsize (hmul ▸ hlt)
      rw [Nat.succ_mul, ← hmul] at hnext
      obtain ⟨s', hpass, hs', hpos'⟩ := h.pass s hs hlt (by omega)
      rw [← Nat.zero_add (pos s)] at hpass
      refine ⟨min (pos s + size) total - pos s, s', ?_, ?_, ?_, ?_, ⟨hs', j + 1, ?_⟩, ?_⟩
      · omega
      · omega
      · omega
      · rwa [Nat.zero_add] at hpass ⊢
      · rw [hpos', hmul, Nat.succ_mul]
      · omega
    have hcuts := Loop.finishes_cuts h.continues hpass ⟨hs, 0, by simp [hpos]⟩ (by omega)
    rwa [hpos, Nat.zero_add, Nat.sub_zero] at hcuts

/-- Full batches, and one for the remainder. -/
def divided (total size : ℕ) : List (List ℕ) :=
  (List.range (total / size)).map (fun b => List.range' (b * size) size) ++
    if 0 < total % size then [List.range' (total / size * size) (total % size)] else []

lemma cuts_full (hsize : 0 < size) (batches : ℕ) :
    Cuts 0 (batches * size) size
      ((List.range batches).map fun b => List.range' (b * size) size) := by
  induction batches with
  | zero => simpa using cuts_nil
  | succ batches ih =>
    rw [List.range_succ, List.map_append, List.map_singleton, Nat.succ_mul]
    refine ih.append ?_
    rw [Nat.zero_add]
    exact cuts_singleton hsize le_rfl

/-- A division with remainder cuts the range from zero. -/
theorem cuts_divided (hsize : 0 < size) : Cuts 0 total size (divided total size) := by
  have hsum := Nat.div_add_mod' total size
  rw [divided]
  split_ifs with hremainder
  · have hcuts := (cuts_full hsize (total / size)).append
      (cuts_singleton hremainder (Nat.mod_lt total hsize).le)
    rwa [Nat.zero_add, hsum] at hcuts
  · have hzero : total % size = 0 := Nat.eq_zero_of_not_pos hremainder
    rw [hzero, Nat.add_zero] at hsum
    rw [List.append_nil]
    conv => arg 2; rw [← hsum]
    exact cuts_full hsize (total / size)

end Loops
