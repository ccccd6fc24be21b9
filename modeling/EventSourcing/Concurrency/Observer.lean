import EventSourcing.Concurrency.System

/-!
# Observers

An observer reads the state of a system and keeps a state of its own; it never changes the
system. Run next to the system its steps fall between any two steps of the system.
-/

namespace Concurrency

/-- A process that reads states of `S`, keeps a state of `T` and has steps labelled `B`. -/
structure Observer (S T B : Type*) where
  init : T → Prop
  next : S → T → B → Option T

/-- The observer of a system that stays in the state `s`. -/
def Observer.alone {S T B : Type*} (O : Observer S T B) (s : S) : System T B where
  init := O.init
  next := O.next s

namespace System

variable {S A T B : Type*} (M : System S A) (O : Observer S T B)

/-- The system and its observer, interleaved. -/
def observe : System (S × T) (A ⊕ B) where
  init p := M.init p.1 ∧ O.init p.2
  next p
    | .inl a => (M.next p.1 a).map fun s => (s, p.2)
    | .inr b => (O.next p.1 p.2 b).map fun t => (p.1, t)

variable {M O} {p p' : S × T}

lemma observe_inl {a : A} : (M.observe O).next p (.inl a) = some p' ↔
    ∃ s, M.next p.1 a = some s ∧ (s, p.2) = p' := Option.map_eq_some_iff

lemma observe_inr {b : B} : (M.observe O).next p (.inr b) = some p' ↔
    ∃ t, O.next p.1 p.2 b = some t ∧ (p.1, t) = p' := Option.map_eq_some_iff

/-- The system runs as it does without the observer. -/
theorem ReachBy.system {C : S × T → A ⊕ B → Prop} (h : (M.observe O).ReachBy C p) :
    M.Reachable p.1 := by
  induction h with
  | init h => exact .init h.1
  | @step p p' a _ _ hs ih =>
    cases a with
    | inl a =>
      obtain ⟨s, hsystem, rfl⟩ := observe_inl.mp hs
      exact ih.next hsystem
    | inr b =>
      obtain ⟨t, -, rfl⟩ := observe_inr.mp hs
      exact ih

lemma Later.system (h : (M.observe O).Later p p') : M.Later p.1 p'.1 := by
  induction h with
  | refl => exact .refl
  | @tail q q' _ hs ih =>
    obtain ⟨a, hs⟩ := hs
    cases a with
    | inl a =>
      obtain ⟨s, hsystem, rfl⟩ := observe_inl.mp hs
      exact ih.tail ⟨a, hsystem⟩
    | inr b =>
      obtain ⟨t, -, rfl⟩ := observe_inr.mp hs
      exact ih

/-- An observer that does nothing yet. -/
theorem Reachable.observe {s : S} {t : T} (h : M.Reachable s) (ht : O.init t) :
    (M.observe O).Reachable (s, t) := by
  induction h with
  | init h => exact .init ⟨h, ht⟩
  | step _ _ hs ih => exact Reachable.next ih (observe_inl.mpr ⟨_, hs, rfl⟩)

lemma LaterBy.observe {C : S → A → Prop} {D : S × T → A ⊕ B → Prop} {s s' : S} {t : T}
    (hD : ∀ s a, C s a → D (s, t) (.inl a)) (h : M.LaterBy C s s') :
    (M.observe O).LaterBy D (s, t) (s', t) := by
  induction h with
  | refl => exact .refl
  | tail _ hs ih =>
    obtain ⟨a, hC, hs⟩ := hs
    exact ih.tail ⟨.inl a, hD _ a hC, observe_inl.mpr ⟨_, hs, rfl⟩⟩

/-- An invariant of the system next to its observer, from the steps of each. -/
theorem ReachBy.observed {C : S × T → A ⊕ B → Prop} {P : S × T → Prop}
    (hinit : ∀ s t, M.init s → O.init t → P (s, t))
    (hsystem : ∀ s t a s', (M.observe O).ReachBy C (s, t) → P (s, t) → C (s, t) (.inl a) →
      M.next s a = some s' → P (s', t))
    (hobserver : ∀ s t b t', (M.observe O).ReachBy C (s, t) → P (s, t) → C (s, t) (.inr b) →
      O.next s t b = some t' → P (s, t'))
    (h : (M.observe O).ReachBy C p) : P p := by
  refine ReachBy.invariant (M := M.observe O) (C := C) (P := P) ?_ ?_ h
  · rintro ⟨s, t⟩ ⟨hs, ht⟩
    exact hinit s t hs ht
  · rintro ⟨s, t⟩ a p' hreach hP hC hs
    cases a with
    | inl a =>
      obtain ⟨s', hs', rfl⟩ := observe_inl.mp hs
      exact hsystem s t a s' hreach hP hC hs'
    | inr b =>
      obtain ⟨t', ht', rfl⟩ := observe_inr.mp hs
      exact hobserver s t b t' hreach hP hC ht'

end System

/-! ### Lists of processes -/

section Processes

variable {T : Type*} {processes : List T} {t : T} {j k : ℕ} {P : T → Prop}

/-- What holds of process `k` holds after another one has joined. -/
lemma process_join (h : ∀ u, processes[k]? = some u → P u) (ht : k = processes.length → P t) :
    ∀ u, (processes ++ [t])[k]? = some u → P u := by
  intro u hu
  rw [List.getElem?_append] at hu
  split_ifs at hu with hlt
  · exact h u hu
  · rcases Nat.eq_or_lt_of_le (Nat.le_of_not_lt hlt) with heq | hgt
    · obtain rfl : t = u := by simpa [heq] using hu
      exact ht heq.symm
    · rw [List.getElem?_eq_none (by simp; omega)] at hu
      cases hu

/-- What holds of process `k` holds after a step of one of the processes. -/
lemma process_set (h : ∀ u, processes[k]? = some u → P u) (ht : j = k → P t) :
    ∀ u, (processes.set j t)[k]? = some u → P u := by
  intro u hu
  rw [List.getElem?_set] at hu
  split_ifs at hu with heq hlt
  · obtain rfl := Option.some.inj hu
    exact ht heq
  · exact h u hu

end Processes

end Concurrency
