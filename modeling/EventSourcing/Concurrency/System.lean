import Mathlib.Logic.Relation
import Mathlib.Tactic.Common

/-!
# Transition systems

A `System` starts in one of its initial states; a label leads to at most one state, and to
none where it is not enabled. Nondeterminism (which process moves, what the environment
answers) is carried by the labels, so a run is a list of labels and can be evaluated.

`System.ReachBy C` collects the states visited by runs whose every step meets `C`;
`System.Reachable` puts no condition on the steps. An invariant is proved once for the
initial states and once for a step (`ReachBy.invariant`).
-/

namespace Concurrency

structure System (S A : Type*) where
  init : S → Prop
  next : S → A → Option S

namespace System

variable {S A S' A' : Type*} (M : System S A) {N : System S' A'}

/-! ### Reachable states -/

/-- The states visited by runs whose every step meets `C`. -/
inductive ReachBy (C : S → A → Prop) : S → Prop where
  | init {s : S} (h : M.init s) : ReachBy C s
  | step {s s' : S} {a : A} (h : ReachBy C s) (hC : C s a) (hs : M.next s a = some s') :
      ReachBy C s'

/-- The states visited by runs. -/
abbrev Reachable : S → Prop := M.ReachBy fun _ _ => True

/-- `s'` is `s` or comes after `s` in a run. -/
abbrev Later : S → S → Prop := Relation.ReflTransGen fun s s' => ∃ a, M.next s a = some s'

/-- `s'` is `s` or comes after `s` in a run whose every step from `s` on meets `C`. -/
abbrev LaterBy (C : S → A → Prop) : S → S → Prop :=
  Relation.ReflTransGen fun s s' => ∃ a, C s a ∧ M.next s a = some s'

variable {M}

lemma Reachable.next {s s' : S} {a : A} (h : M.Reachable s) (hs : M.next s a = some s') :
    M.Reachable s' :=
  .step h trivial hs

lemma ReachBy.reachable {C : S → A → Prop} {s : S} (h : M.ReachBy C s) : M.Reachable s := by
  induction h with
  | init h => exact .init h
  | step _ _ hs ih => exact ih.next hs

/-- Runs that meet one condition and thereby another. -/
lemma ReachBy.imp {C D : S → A → Prop} (hCD : ∀ s a, M.ReachBy C s → C s a → D s a) {s : S}
    (h : M.ReachBy C s) : M.ReachBy D s := by
  induction h with
  | init h => exact .init h
  | step h hC hs ih => exact .step ih (hCD _ _ h hC) hs

lemma ReachBy.later {s s' : S} (h : M.Reachable s) (hl : M.Later s s') : M.Reachable s' := by
  induction hl with
  | refl => exact h
  | tail _ hs ih =>
    obtain ⟨a, hs⟩ := hs
    exact Reachable.next ih hs

lemma ReachBy.laterBy {C : S → A → Prop} {s s' : S} (h : M.ReachBy C s)
    (hl : M.LaterBy C s s') : M.ReachBy C s' := by
  induction hl with
  | refl => exact h
  | tail _ hs ih =>
    obtain ⟨a, hC, hs⟩ := hs
    exact .step ih hC hs

lemma LaterBy.later {C : S → A → Prop} {s s' : S} (hl : M.LaterBy C s s') : M.Later s s' := by
  induction hl with
  | refl => exact .refl
  | tail _ hs ih =>
    obtain ⟨a, -, hs⟩ := hs
    exact ih.tail ⟨a, hs⟩

/-- An invariant of the initial states and of every step holds in every state reached. The
step may use that the state before it was reached. -/
theorem ReachBy.invariant {C : S → A → Prop} {P : S → Prop}
    (hinit : ∀ s, M.init s → P s)
    (hstep : ∀ s a s', M.ReachBy C s → P s → C s a → M.next s a = some s' → P s')
    {s : S} (h : M.ReachBy C s) : P s := by
  induction h with
  | init h => exact hinit _ h
  | step h hC hs ih => exact hstep _ _ _ h ih hC hs

/-- What every step from a reachable state preserves holds along the rest of a run. -/
theorem Later.invariant {P : S → Prop} {s s' : S} (h : M.Reachable s) (hs : P s)
    (hstep : ∀ s a s', M.Reachable s → P s → M.next s a = some s' → P s')
    (hl : M.Later s s') : P s' := by
  induction hl with
  | refl => exact hs
  | tail hl hn ih =>
    obtain ⟨a, hn⟩ := hn
    exact hstep _ a _ (h.later hl) ih hn

/-- What every step that meets `C` preserves holds along the rest of such a run. -/
theorem LaterBy.invariant {C : S → A → Prop} {P : S → Prop} {s s' : S} (h : M.ReachBy C s)
    (hs : P s) (hstep : ∀ s a s', M.ReachBy C s → P s → C s a → M.next s a = some s' → P s')
    (hl : M.LaterBy C s s') : P s' := by
  induction hl with
  | refl => exact hs
  | tail hl hn ih =>
    obtain ⟨a, hC, hn⟩ := hn
    exact hstep _ a _ (h.laterBy hl) ih hC hn

/-! ### Runs as lists of labels -/

variable (M)

/-- The state a list of labels leads to, if every one of them is enabled in turn. -/
def run : List A → S → Option S
  | [], s => some s
  | a :: as, s => (M.next s a).bind (run as)

/-- Every step of the run labelled `as` from `s` meets `C`. -/
def Along (C : S → A → Prop) : List A → S → Prop
  | [], _ => True
  | a :: as, s => C s a ∧ ∀ s', M.next s a = some s' → Along C as s'

/-- The state at the end of a run, or `s` where the run is not enabled. -/
def after (as : List A) (s : S) : S := (M.run as s).getD s

variable {M}

@[simp] lemma run_nil (s : S) : M.run [] s = some s := rfl

lemma run_cons {a : A} {as : List A} {s s'' : S} :
    M.run (a :: as) s = some s'' ↔ ∃ s', M.next s a = some s' ∧ M.run as s' = some s'' := by
  simp [run, Option.bind_eq_some_iff]

lemma ReachBy.run {C : S → A → Prop} {as : List A} {s s' : S} (h : M.ReachBy C s)
    (hC : M.Along C as s) (hr : M.run as s = some s') : M.ReachBy C s' := by
  induction as generalizing s with
  | nil =>
    obtain rfl : s = s' := by simpa using hr
    exact h
  | cons a as ih =>
    obtain ⟨s₁, hs, hr⟩ := run_cons.mp hr
    exact ih (.step h hC.1 hs) (hC.2 s₁ hs) hr

lemma later_of_run {as : List A} {s s' : S} (hr : M.run as s = some s') : M.Later s s' := by
  induction as generalizing s with
  | nil =>
    obtain rfl : s = s' := by simpa using hr
    exact .refl
  | cons a as ih =>
    obtain ⟨s₁, hs, hr⟩ := run_cons.mp hr
    exact (ih hr).head ⟨a, hs⟩

lemma laterBy_of_run {C : S → A → Prop} {as : List A} {s s' : S} (hC : M.Along C as s)
    (hr : M.run as s = some s') : M.LaterBy C s s' := by
  induction as generalizing s with
  | nil =>
    obtain rfl : s = s' := by simpa using hr
    exact .refl
  | cons a as ih =>
    obtain ⟨s₁, hs, hr⟩ := run_cons.mp hr
    exact (ih (hC.2 s₁ hs) hr).head ⟨a, hC.1, hs⟩

/-- A condition that the labels meet in every state. -/
lemma along_of_forall {C : S → A → Prop} {as : List A} {s : S} (h : ∀ a ∈ as, ∀ t, C t a) :
    M.Along C as s := by
  induction as generalizing s with
  | nil => trivial
  | cons a as ih =>
    exact ⟨h a List.mem_cons_self s, fun _ _ => ih fun b hb => h b (List.mem_cons_of_mem a hb)⟩

lemma along_true {as : List A} {s : S} : M.Along (fun _ _ => True) as s :=
  along_of_forall fun _ _ _ => trivial

lemma along_append {C : S → A → Prop} {as bs : List A} {s : S} :
    M.Along C (as ++ bs) s ↔
      M.Along C as s ∧ ∀ s', M.run as s = some s' → M.Along C bs s' := by
  induction as generalizing s with
  | nil => simp [Along]
  | cons a as ih =>
    simp only [List.cons_append, Along, ih, run_cons]
    grind

lemma run_after {as : List A} {s : S} (hr : (M.run as s).isSome) :
    M.run as s = some (M.after as s) := by
  obtain ⟨s', hs'⟩ := Option.isSome_iff_exists.mp hr
  simp [after, hs']

lemma reachable_after (as : List A) {s : S} (h : M.init s) (hr : (M.run as s).isSome) :
    M.Reachable (M.after as s) :=
  (ReachBy.init h).run along_true (run_after hr)

/-- Whether a run meets a condition can be evaluated. -/
instance decidableAlong {C : S → A → Prop} [∀ s a, Decidable (C s a)] :
    (as : List A) → (s : S) → Decidable (M.Along C as s)
  | [], _ => isTrue trivial
  | a :: as, s =>
    match h : M.next s a with
    | none => decidable_of_iff (C s a) (by simp [Along, h])
    | some s' =>
      have := decidableAlong (C := C) as s'
      decidable_of_iff (C s a ∧ M.Along C as s') (by simp [Along, h])

lemma reachBy_after {C : S → A → Prop} (as : List A) {s : S} (h : M.init s)
    (hC : M.Along C as s) (hr : (M.run as s).isSome) : M.ReachBy C (M.after as s) :=
  (ReachBy.init h).run hC (run_after hr)

/-! ### Simulation -/

variable (M N) in
/-- `f` takes every step of `M` that meets `C` to a step of `N` or to no step at all. -/
structure SimulationBy (C : S → A → Prop) (f : S → S') : Prop where
  init : ∀ s, M.init s → N.init (f s)
  next : ∀ s a s', M.ReachBy C s → C s a → M.next s a = some s' →
    f s' = f s ∨ ∃ b, N.next (f s) b = some (f s')

variable (M N) in
/-- `f` takes every step of `M` to a step of `N` or to no step at all. -/
abbrev Simulation (f : S → S') : Prop := SimulationBy M N (fun _ _ => True) f

lemma SimulationBy.reachable {C : S → A → Prop} {f : S → S'} (hf : SimulationBy M N C f) {s : S}
    (h : M.ReachBy C s) : N.Reachable (f s) := by
  induction h with
  | init h => exact .init (hf.init _ h)
  | step h hC hs ih =>
    rcases hf.next _ _ _ h hC hs with heq | ⟨b, hb⟩
    · rwa [heq]
    · exact ih.next hb

/-- The later states of a run are simulated by later states. -/
theorem SimulationBy.later {f : S → S'} (hf : Simulation M N f) {s s' : S}
    (h : M.Reachable s) (hl : M.Later s s') : N.Later (f s) (f s') := by
  refine hl.invariant h (P := fun t => N.Later (f s) (f t)) .refl ?_
  intro t a t' ht hlt hs
  rcases hf.next _ _ _ ht trivial hs with heq | hb
  · rwa [heq]
  · exact hlt.tail hb

/-- Simulations compose. -/
lemma SimulationBy.trans {T B' : Type*} {L : System T B'} {C : S → A → Prop} {f : S → S'}
    {g : S' → T} (hf : SimulationBy M N C f) (hg : Simulation N L g) :
    SimulationBy M L C fun s => g (f s) where
  init s hs := hg.init _ (hf.init s hs)
  next s a s' h hC hs := by
    rcases hf.next s a s' h hC hs with heq | ⟨b, hb⟩
    · exact .inl (congrArg g heq)
    · exact hg.next _ b _ (hf.reachable h) trivial hb

end System

end Concurrency
