import Mathlib.Logic.Function.Basic
import Mathlib.Tactic.Common

/-!
# Locks of sessions

A lock on a key belongs to a session. The session that holds it may take it again, which
counts up; giving it back counts down, and the key is free after the last time. Another
session is turned away, and what it gives back is nothing. The end of a session frees
everything it holds.
-/

namespace Concurrency

/-- Who holds a key, and how many times more than once. -/
structure Hold (S : Type*) where
  session : S
  again : ℕ
  deriving DecidableEq

/-- The locks of the server. -/
abbrev SessionLocks (S K : Type*) := K → Option (Hold S)

namespace SessionLocks

variable {S K : Type*}

/-- What is left of a hold that is given back once. -/
def lower (hold : Hold S) : Option (Hold S) :=
  match hold.again with
  | 0 => none
  | n + 1 => some { hold with again := n }

lemma lower_eq_none {hold : Hold S} : lower hold = none ↔ hold.again = 0 := by
  cases hold with
  | mk session again => cases again <;> simp [lower]

lemma lower_session {hold rest : Hold S} (h : lower hold = some rest) :
    rest.session = hold.session := by
  cases hold with
  | mk session again =>
    cases again with
    | zero => cases h
    | succ n =>
      obtain rfl := Option.some.inj h
      rfl

/-- Session `s` holds the lock on `k`. -/
def Holds (locks : SessionLocks S K) (s : S) (k : K) : Prop := ∃ hold ∈ locks k, hold.session = s

/-- Giving the lock back once on session `s` frees `k`. -/
def HoldsOnce (locks : SessionLocks S K) (s : S) (k : K) : Prop := locks k = some ⟨s, 0⟩

lemma holds_iff {locks : SessionLocks S K} {s : S} {k : K} {hold : Hold S}
    (h : locks k = some hold) : locks.Holds s k ↔ hold.session = s := by
  simp [Holds, h]

lemma HoldsOnce.holds {locks : SessionLocks S K} {s : S} {k : K} (h : locks.HoldsOnce s k) :
    locks.Holds s k :=
  ⟨⟨s, 0⟩, h, rfl⟩

variable [DecidableEq S] [DecidableEq K] (locks : SessionLocks S K) (s : S) (k : K)

omit [DecidableEq K] in
instance : Decidable (locks.Holds s k) := inferInstanceAs (Decidable (∃ hold ∈ locks k, _))

omit [DecidableEq K] in
instance : Decidable (locks.HoldsOnce s k) := inferInstanceAs (Decidable (_ = _))

/-- Takes the lock on `k` for session `s`, or says that another session holds it. -/
def tryLock : Bool × SessionLocks S K :=
  match locks k with
  | none => (true, Function.update locks k (some ⟨s, 0⟩))
  | some hold =>
    if hold.session = s then
      (true, Function.update locks k (some { hold with again := hold.again + 1 }))
    else (false, locks)

/-- Gives the lock on `k` back once, if session `s` holds it. -/
def unlock : Bool × SessionLocks S K :=
  match locks k with
  | none => (false, locks)
  | some hold =>
    if hold.session = s then (true, Function.update locks k (lower hold)) else (false, locks)

omit [DecidableEq K] in
/-- The end of session `s`. -/
def close : SessionLocks S K := fun k => (locks k).filter fun hold => hold.session ≠ s

variable {locks s k} {k' : K}

/-- The lock is given to a session that finds the key free or its own. -/
lemma tryLock_eq_true : (locks.tryLock s k).1 = true ↔ locks k = none ∨ locks.Holds s k := by
  cases h : locks k with
  | none => simp [tryLock, h]
  | some hold =>
    simp only [tryLock, h, holds_iff h, reduceCtorEq, false_or]
    split <;> simp [*]

lemma tryLock_of_ne (hk : k' ≠ k) : (locks.tryLock s k).2 k' = locks k' := by
  cases h : locks k with
  | none => simp [tryLock, h, hk]
  | some hold =>
    simp only [tryLock, h]
    split <;> simp [hk]

/-- A session that has been turned away has changed nothing. -/
lemma tryLock_of_false (h : (locks.tryLock s k).1 = false) : (locks.tryLock s k).2 = locks := by
  cases hk : locks k with
  | none => simp [tryLock, hk] at h
  | some hold =>
    simp only [tryLock, hk] at h ⊢
    split at h
    · cases h
    · rename_i hne
      rw [if_neg hne]

/-- A session that has been given the lock holds it. -/
lemma holds_of_tryLock (h : (locks.tryLock s k).1 = true) : (locks.tryLock s k).2.Holds s k := by
  cases hk : locks k with
  | none => simp [tryLock, hk, Holds]
  | some hold =>
    simp only [tryLock, hk] at h ⊢
    split at h
    · rename_i heq
      simp [heq, Holds]
    · cases h

lemma unlock_of_not_holds (h : ¬ locks.Holds s k) : (locks.unlock s k).2 = locks := by
  cases hk : locks k with
  | none => simp [unlock, hk]
  | some hold =>
    have hs : hold.session ≠ s := fun heq => h ((holds_iff hk).mpr heq)
    simp [unlock, hk, hs]

lemma unlock_of_ne (hk : k' ≠ k) : (locks.unlock s k).2 k' = locks k' := by
  cases h : locks k with
  | none => simp [unlock, h]
  | some hold =>
    simp only [unlock, h]
    split <;> simp [hk]

/-- What session `s` leaves of its hold. -/
lemma unlock_self {hold : Hold S} (h : locks k = some hold) (hs : hold.session = s) :
    (locks.unlock s k).2 k = lower hold := by
  simp [unlock, h, hs]

/-- What is held after an unlock was held by the same session before. -/
lemma exists_of_unlock {hold : Hold S} (h : (locks.unlock s k).2 k' = some hold) :
    ∃ hold', locks k' = some hold' ∧ hold.session = hold'.session := by
  by_cases hheld : locks.Holds s k
  · by_cases hk : k' = k
    · subst hk
      obtain ⟨hold', hlock, hs⟩ := hheld
      rw [unlock_self hlock hs] at h
      exact ⟨hold', hlock, lower_session h⟩
    · rw [unlock_of_ne hk] at h
      exact ⟨hold, h, rfl⟩
  · rw [unlock_of_not_holds hheld] at h
    exact ⟨hold, h, rfl⟩

/-- A key that is held stays held unless its session gives it back for the last time. -/
lemma unlock_ne_none (hk : locks k ≠ none) (h : ¬ locks.HoldsOnce s k) :
    (locks.unlock s k).2 k ≠ none := by
  obtain ⟨hold, hk⟩ := Option.ne_none_iff_exists'.mp hk
  by_cases hs : hold.session = s
  · rw [unlock_self hk hs, ne_eq, lower_eq_none]
    intro hzero
    refine h ?_
    rw [HoldsOnce, hk]
    subst hs
    exact congrArg some (by cases hold; simp_all)
  · rw [unlock_of_not_holds fun hheld => hs ((holds_iff hk).mp hheld), hk]
    simp

omit [DecidableEq K] in
lemma close_ne_none (hk : locks k ≠ none) (h : ¬ locks.Holds s k) : locks.close s k ≠ none := by
  obtain ⟨hold, hk⟩ := Option.ne_none_iff_exists'.mp hk
  have hs : hold.session ≠ s := fun heq => h ((holds_iff hk).mpr heq)
  simp [close, hk, Option.filter, hs]

end SessionLocks

end Concurrency
