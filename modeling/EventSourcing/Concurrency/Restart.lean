import EventSourcing.Concurrency.System

/-!
# Procedures that are stopped and started again

A procedure is a sequence of operations on a shared state, with control points between them.
A run of it may be stopped at any point, or lose the answer of an operation that has taken
effect; a later run starts from the beginning on the state that was left. `Restartable` lists
what a proof about all such histories has to show.
-/

namespace Concurrency

/-- The operation at a control point changes the state and leads to the next point, or to the
successful end of the run. -/
structure Procedure (S C : Type*) where
  start : C
  step : C → S → S × Option C

namespace Procedure

/-- How far the last run has come. -/
inductive Status (C : Type*) where
  | idle
  | running (point : C)
  | succeeded
  | stopped
  deriving DecidableEq

inductive Label where
  | start
  | step
  /-- the run ends, by an error or a crash, before the operation takes effect -/
  | stop
  /-- the run ends, by an error or a crash, after the operation has taken effect -/
  | lose
  deriving DecidableEq

variable {S C : Type*} (P : Procedure S C)

/-- Where a run goes from here. -/
def proceed : Option C → Status C
  | none => .succeeded
  | some point => .running point

def next (p : S × Status C) : Label → Option (S × Status C)
  | .start =>
    match p.2 with
    | .running _ => none
    | _ => some (p.1, .running P.start)
  | .step =>
    match p.2 with
    | .running point => some ((P.step point p.1).1, proceed (P.step point p.1).2)
    | _ => none
  | .stop =>
    match p.2 with
    | .running _ => some (p.1, .stopped)
    | _ => none
  | .lose =>
    match p.2 with
    | .running point => some ((P.step point p.1).1, .stopped)
    | _ => none

variable {P} in
/-- A step starts a run, ends one before its operation, or carries out the operation. -/
lemma next_cases {s s' : S} {status status' : Status C} {label : Label}
    (h : P.next (s, status) label = some (s', status')) :
    (s' = s ∧ ((∀ point, status ≠ .running point) ∧ status' = .running P.start ∨
        label = .stop ∧ status' = .stopped)) ∨
      ∃ point, status = .running point ∧ label ≠ .stop ∧ s' = (P.step point s).1 ∧
        (status' = proceed (P.step point s).2 ∨ status' = .stopped) := by
  cases status with
  | running point =>
    cases label with
    | start => cases h
    | step =>
      obtain ⟨rfl, rfl⟩ := Prod.mk.inj (Option.some.inj h)
      exact .inr ⟨point, rfl, by simp, rfl, .inl rfl⟩
    | stop =>
      obtain ⟨rfl, rfl⟩ := Prod.mk.inj (Option.some.inj h)
      exact .inl ⟨rfl, .inr ⟨rfl, rfl⟩⟩
    | lose =>
      obtain ⟨rfl, rfl⟩ := Prod.mk.inj (Option.some.inj h)
      exact .inr ⟨point, rfl, by simp, rfl, .inr rfl⟩
  | idle | succeeded | stopped =>
    cases label with
    | start =>
      obtain ⟨rfl, rfl⟩ := Prod.mk.inj (Option.some.inj h)
      exact .inl ⟨rfl, .inl ⟨by simp, rfl⟩⟩
    | step | stop | lose => cases h

/-- All histories of runs, one after the other, from a state of `init`. -/
def runs (init : S → Prop) : System (S × Status C) Label where
  init p := init p.1 ∧ p.2 = .idle
  next := P.next

/-- A condition on the steps of a run that is at work. -/
def Meets (Ends : S → C → Label → Prop) (p : S × Status C) (label : Label) : Prop :=
  match p.2 with
  | .running point => Ends p.1 point label
  | _ => True

instance {Ends : S → C → Label → Prop} [∀ s point label, Decidable (Ends s point label)] :
    (p : S × Status C) → (label : Label) → Decidable (Meets Ends p label)
  | (s, .running point), label => inferInstanceAs (Decidable (Ends s point label))
  | (_, .idle), _ | (_, .succeeded), _ | (_, .stopped), _ => isTrue trivial

/-- Between the runs `Rest` holds, at a control point `At`, and `Done` after a success. `Ends`
says which runs may end without success. -/
structure Restartable (Ends : S → C → Label → Prop) (Rest : S → Prop) (At : C → S → Prop)
    (Done : S → Prop) : Prop where
  start : ∀ s, Rest s → At P.start s
  step : ∀ point s, At point s →
    (P.step point s).2.elim (Done (P.step point s).1) fun point' => At point' (P.step point s).1
  rest : ∀ s, Done s → Rest s
  stop : ∀ point s, At point s → Ends s point .stop → Rest s
  lose : ∀ point s, At point s → Ends s point .lose → Rest (P.step point s).1

/-- What holds of the state, by how far the last run has come. -/
def Holds (Rest : S → Prop) (At : C → S → Prop) (Done : S → Prop) (p : S × Status C) : Prop :=
  match p.2 with
  | .running point => At point p.1
  | .succeeded => Done p.1
  | _ => Rest p.1

variable {P} {init : S → Prop} {Ends : S → C → Label → Prop} {Rest : S → Prop}
  {At : C → S → Prop} {Done : S → Prop} {p : S × Status C}

lemma Restartable.holds_proceed (h : P.Restartable Ends Rest At Done) {point : C} {s : S}
    (hs : At point s) :
    Holds Rest At Done ((P.step point s).1, proceed (P.step point s).2) := by
  have hstep := h.step point s hs
  cases hnext : (P.step point s).2 <;> simpa [hnext, proceed, Holds] using hstep

/-- In every history whose unsuccessful ends are admitted, a run that has succeeded has done
what it is for. -/
theorem Restartable.holds (h : P.Restartable Ends Rest At Done) (hinit : ∀ s, init s → Rest s)
    (hp : (P.runs init).ReachBy (Meets Ends) p) : Holds Rest At Done p := by
  refine System.ReachBy.invariant (P := Holds Rest At Done) ?_ ?_ hp
  · rintro ⟨s, status⟩ ⟨hs, rfl⟩
    exact hinit s hs
  · rintro ⟨s, status⟩ label p' _ hholds hends hnext
    have hrest : (∀ point, status ≠ .running point) → Rest s := by
      intro hnot
      cases status with
      | running point => exact absurd rfl (hnot point)
      | idle | stopped => exact hholds
      | succeeded => exact h.rest s hholds
    cases status with
    | running point =>
      cases label with
      | start => cases hnext
      | step =>
        obtain rfl := Option.some.inj hnext
        exact h.holds_proceed hholds
      | stop =>
        obtain rfl := Option.some.inj hnext
        exact h.stop point s hholds hends
      | lose =>
        obtain rfl := Option.some.inj hnext
        exact h.lose point s hholds hends
    | idle | stopped | succeeded =>
      cases label with
      | start =>
        obtain rfl := Option.some.inj hnext
        exact h.start s (hrest (by simp))
      | step | stop | lose => cases hnext

end Procedure

end Concurrency
