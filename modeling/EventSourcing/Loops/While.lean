import Mathlib.Tactic.Common

/-!
# While loops that may stop early

A pass through the body of a loop emits a value and leads to the next state, or it stops the loop
for a reason. A loop finishes where some number of passes is enough to leave it.
-/

namespace Loops

structure Loop (S E X : Type*) where
  continues : S → Bool
  body : S → Except X (E × S)

/-- What a number of passes through a loop comes to. -/
inductive End (E X : Type*) where
  | finished (emitted : List E)
  | stopped (reason : X)
  | unfinished
  deriving DecidableEq

namespace End

variable {E X : Type*}

/-- A value that was emitted before. -/
def cons (e : E) : End E X → End E X
  | finished emitted => finished (e :: emitted)
  | stopped reason => stopped reason
  | unfinished => unfinished

lemma cons_eq_finished {e : E} {r : End E X} {emitted : List E} :
    r.cons e = finished emitted ↔ ∃ rest, r = finished rest ∧ emitted = e :: rest := by
  cases r with
  | finished rest => simp [cons, eq_comm]
  | _ => simp [cons]

lemma cons_eq_stopped {e : E} {r : End E X} {reason : X} :
    r.cons e = stopped reason ↔ r = stopped reason := by
  cases r <;> simp [cons]

end End

namespace Loop

variable {S E X : Type*}

/-- At most `fuel` passes, and the test after the last. -/
def run (L : Loop S E X) : (fuel : ℕ) → S → End E X
  | 0, _ => .unfinished
  | fuel + 1, s =>
    if L.continues s then
      match L.body s with
      | .error reason => .stopped reason
      | .ok (e, s) => (run L fuel s).cons e
    else .finished []

/-- The loop terminates at its test, and has emitted the values. -/
def Finishes (L : Loop S E X) (s : S) (emitted : List E) : Prop :=
  ∃ fuel, L.run fuel s = .finished emitted

variable {L : Loop S E X} {s s' : S} {e : E} {emitted : List E}

lemma finishes_exit (h : L.continues s = false) : L.Finishes s [] :=
  ⟨1, by simp [run, h]⟩

lemma Finishes.pass (hcontinues : L.continues s = true) (hbody : L.body s = .ok (e, s'))
    (h : L.Finishes s' emitted) : L.Finishes s (e :: emitted) := by
  obtain ⟨fuel, hrun⟩ := h
  refine ⟨fuel + 1, ?_⟩
  rw [run, if_pos hcontinues, hbody]
  exact End.cons_eq_finished.mpr ⟨emitted, hrun, rfl⟩

/-- What the first pass of a loop that finishes is. -/
lemma Finishes.first (h : L.Finishes s emitted) (hcontinues : L.continues s = true) :
    ∃ e s' rest, L.body s = .ok (e, s') ∧ L.Finishes s' rest ∧ emitted = e :: rest := by
  obtain ⟨fuel, hrun⟩ := h
  cases fuel with
  | zero => cases hrun
  | succ fuel =>
    rw [run, if_pos hcontinues] at hrun
    cases hbody : L.body s with
    | error reason =>
      rw [hbody] at hrun
      cases hrun
    | ok r =>
      rw [hbody] at hrun
      obtain ⟨rest, hrest, rfl⟩ := End.cons_eq_finished.mp hrun
      exact ⟨r.1, r.2, rest, rfl, ⟨fuel, hrest⟩, rfl⟩

/-- What the body preserves holds where a loop is left. -/
theorem Finishes.invariant {I : S → Prop} (h : L.Finishes s emitted) (hs : I s)
    (hbody : ∀ s e s', I s → L.continues s = true → L.body s = .ok (e, s') → I s') :
    ∃ t, I t ∧ L.continues t = false := by
  obtain ⟨fuel, hrun⟩ := h
  induction fuel generalizing s emitted with
  | zero => cases hrun
  | succ fuel ih =>
    cases hcontinues : L.continues s with
    | false => exact ⟨s, hs, hcontinues⟩
    | true =>
      obtain ⟨e, s', rest, hpass, -, -⟩ := Finishes.first ⟨fuel + 1, hrun⟩ hcontinues
      rw [run, if_pos hcontinues, hpass] at hrun
      obtain ⟨rest', hrest, -⟩ := End.cons_eq_finished.mp hrun
      exact ih (hbody s e s' hs hcontinues hpass) hrest

/-- A loop does not stop for a reason that its body never gives. -/
theorem run_ne_stopped {reason : X}
    (hbody : ∀ s, L.continues s = true → L.body s ≠ .error reason) (fuel : ℕ) (s : S) :
    L.run fuel s ≠ .stopped reason := by
  induction fuel generalizing s with
  | zero => exact nofun
  | succ fuel ih =>
    intro hrun
    rw [run] at hrun
    split_ifs at hrun with hcontinues
    have hreason := hbody s hcontinues
    cases hpass : L.body s with
    | error reason' =>
      rw [hpass] at hrun hreason
      exact hreason (congrArg Except.error (End.stopped.inj hrun))
    | ok r =>
      rw [hpass] at hrun
      exact ih r.2 (End.cons_eq_stopped.mp hrun)

end Loop

end Loops
