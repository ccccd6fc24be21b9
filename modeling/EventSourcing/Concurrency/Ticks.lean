import Mathlib.Data.List.Chain
import Mathlib.Data.Nat.Basic
import Mathlib.Tactic.Common

/-!
# Ticks of a period

A clock with a period ticks at instants that are whole periods apart; it may skip some of them.
From one tick to the end of a window there are at most as many ticks as periods in the window,
and one more.
-/

namespace Concurrency

/-- Instants of which each is one or more periods after the one before. -/
def Ticks (period : ℕ) (ticks : List ℕ) : Prop :=
  ticks.IsChain fun t t' => ∃ skipped, t' = t + period * (skipped + 1)

variable {period t window : ℕ} {ticks : List ℕ}

lemma ticks_singleton : Ticks period [t] := List.isChain_singleton _

lemma ticks_cons {t' : ℕ} :
    Ticks period (t :: t' :: ticks) ↔
      (∃ skipped, t' = t + period * (skipped + 1)) ∧ Ticks period (t' :: ticks) :=
  List.isChain_cons_cons

lemma Ticks.le (h : Ticks period (t :: ticks)) : ∀ t' ∈ ticks, t ≤ t' := by
  induction ticks generalizing t with
  | nil => exact fun t' ht' => absurd ht' List.not_mem_nil
  | cons next ticks ih =>
    obtain ⟨⟨skipped, hnext⟩, hrest⟩ := ticks_cons.mp h
    intro t' ht'
    rcases List.mem_cons.mp ht' with rfl | ht'
    · exact hnext ▸ Nat.le_add_right _ _
    · exact (hnext ▸ Nat.le_add_right _ _ : t ≤ next).trans (ih hrest t' ht')

/-- The ticks from one tick to the end of a window. -/
lemma Ticks.countP_le (h : Ticks period (t :: ticks)) (hperiod : 0 < period) :
    (t :: ticks).countP (fun t' => t' ≤ t + window) ≤ window / period + 1 := by
  induction ticks generalizing t window with
  | nil => simp
  | cons next ticks ih =>
    obtain ⟨⟨skipped, hnext⟩, hrest⟩ := ticks_cons.mp h
    rw [List.countP_cons_of_pos (by simp)]
    by_cases hin : next ≤ t + window
    · -- the rest of the window begins at the next tick
      have hspan : period * (skipped + 1) ≤ window := by omega
      have hend : t + window = next + (window - period * (skipped + 1)) := by omega
      have hcount : (next :: ticks).countP (fun t' => t' ≤ t + window)
          ≤ (window - period * (skipped + 1)) / period + 1 := hend ▸ ih hrest
      rw [Nat.sub_mul_div] at hcount
      have hperiods : skipped + 1 ≤ window / period :=
        (Nat.le_div_iff_mul_le hperiod).mpr (by rwa [Nat.mul_comm])
      omega
    · have hnone : (next :: ticks).countP (fun t' => t' ≤ t + window) = 0 := by
        rw [List.countP_eq_zero]
        intro t' ht' hle
        have hafter : next ≤ t' := by
          rcases List.mem_cons.mp ht' with rfl | ht'
          · exact le_rfl
          · exact hrest.le t' ht'
        exact hin (hafter.trans (of_decide_eq_true hle))
      rw [hnone]
      exact Nat.le_add_left 1 _

/-- A clock that skips nothing has two ticks in a window of one period. -/
lemma ticks_pair : Ticks period [t, t + period] :=
  ticks_cons.mpr ⟨⟨0, by simp⟩, ticks_singleton⟩

end Concurrency
