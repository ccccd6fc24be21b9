import EventSourcing.Concurrency.System
import Mathlib.Data.List.Basic
import Mathlib.Data.Set.Insert

/-!
# Deliveries that are published and then completed

An item is published, and the attempt then either completes it or stops, which leaves it to be
published again. The system has one attempt at a time on each item and none on an item that is
done. Every publish of an item beyond the first is then paid for by an attempt that stopped.

`InOrder` is what a history of publishes keeps when items have to come one before another, and
`InTurn` what attempts keep that follow each other.
-/

namespace Concurrency

universe u

/-- The items published by an attempt that is still open, the items done, and the history of
the publishes and of the attempts that stopped after one. -/
@[ext]
structure Delivery (K : Type u) where
  inFlight : Set K
  done : Set K
  published : List K
  stopped : List K

namespace Delivery

variable {K : Type u} {s s' : Delivery K} {k : K}

inductive Step (K : Type u) where
  | publish (k : K)
  | stop (k : K)
  | complete (k : K)

open Classical in
noncomputable def next (s : Delivery K) : Step K → Option (Delivery K)
  | .publish k =>
    if k ∉ s.inFlight ∧ k ∉ s.done then
      some { s with inFlight := insert k s.inFlight, published := s.published ++ [k] }
    else none
  | .stop k =>
    if k ∈ s.inFlight then
      some { s with inFlight := s.inFlight \ {k}, stopped := s.stopped ++ [k] }
    else none
  | .complete k =>
    if k ∈ s.inFlight then
      some { s with inFlight := s.inFlight \ {k}, done := insert k s.done }
    else none

variable (K) in
noncomputable def system : System (Delivery K) (Step K) where
  init s := s = { inFlight := ∅, done := ∅, published := [], stopped := [] }
  next := next

lemma next_publish (h : k ∉ s.inFlight) (h' : k ∉ s.done) :
    s.next (.publish k)
      = some { s with inFlight := insert k s.inFlight, published := s.published ++ [k] } := by
  simp only [next, if_pos (And.intro h h')]

lemma next_stop (h : k ∈ s.inFlight) :
    s.next (.stop k)
      = some { s with inFlight := s.inFlight \ {k}, stopped := s.stopped ++ [k] } := by
  simp only [next, if_pos h]

lemma next_complete (h : k ∈ s.inFlight) :
    s.next (.complete k)
      = some { s with inFlight := s.inFlight \ {k}, done := insert k s.done } := by
  simp only [next, if_pos h]

/-! ### Publishes in an order -/

section Order

variable {before before' : K → K → Prop} {published : List K} {k : K}

/-- Whatever is published comes after the first publish of everything before it. -/
def InOrder (before : K → K → Prop) (published : List K) : Prop :=
  ∀ earlier k later, published = earlier ++ k :: later → ∀ j, before j k → j ∈ earlier

lemma inOrder_nil : InOrder before [] := by
  intro earlier k later h
  simp at h

/-- An item joins when everything before it has been published. -/
lemma InOrder.snoc (h : InOrder before published) (hk : ∀ j, before j k → j ∈ published) :
    InOrder before (published ++ [k]) := by
  intro earlier k' later heq j hj
  rcases List.eq_nil_or_concat later with rfl | ⟨later, last, rfl⟩
  · obtain ⟨rfl, hlast⟩ := List.append_inj' heq rfl
    obtain rfl : k = k' := by simpa using hlast
    exact hk j hj
  · rw [List.concat_eq_append, ← List.cons_append, ← List.append_assoc] at heq
    exact h earlier k' later (List.append_inj' heq rfl).1 j hj

/-- The order may change for what is published to an order that asks for less. -/
lemma InOrder.mono (h : InOrder before published)
    (hle : ∀ k ∈ published, ∀ j, before' j k → before j k) : InOrder before' published := by
  intro earlier k later heq j hj
  exact h earlier k later heq j (hle k (by simp [heq]) j hj)

end Order

/-! ### Attempts in turn -/

section Turns

variable {begun ended : ℕ → Bool} {q r : ℕ}

/-- The attempts are numbered: while one goes on, no later one has begun. -/
def InTurn (begun ended : ℕ → Bool) : Prop :=
  ∀ r r', r < r' → ended r ∨ begun r' = false

/-- Attempt `q` moves on, which has begun before or begins when those before it have ended. -/
lemma InTurn.step {α : Type*} {attempts attempts' : ℕ → α} {begun ended : α → Bool}
    (h : InTurn (fun r => begun (attempts r)) fun r => ended (attempts r))
    (hq : begun (attempts q) ∨ ∀ r < q, ended (attempts r))
    (hended : ended (attempts q) → ended (attempts' q))
    (hne : ∀ r, r ≠ q → attempts' r = attempts r) :
    InTurn (fun r => begun (attempts' r)) fun r => ended (attempts' r) := by
  have hkept : ∀ r, ended (attempts r) → ended (attempts' r) := by
    intro r hr
    by_cases hrq : r = q
    · subst hrq
      exact hended hr
    · rwa [hne r hrq]
  intro r r' hr
  rcases h r r' hr with hold | hidle
  · exact .inl (hkept r hold)
  · by_cases hr' : r' = q
    · subst hr'
      rcases hq with hold | hbefore
      · simp [hidle] at hold
      · exact .inl (hkept r (hbefore r hr))
    · exact .inr ((congrArg begun (hne r' hr')).trans hidle)

/-- An attempt that goes on is the only one. -/
lemma InTurn.unique (h : InTurn begun ended) (hr : begun r) (hopen : ended r = false)
    (hq : begun q) (hopen' : ended q = false) : r = q := by
  rcases lt_trichotomy r q with hlt | rfl | hlt
  · rcases h r q hlt with hended | hidle
    · simp [hopen] at hended
    · simp [hidle] at hq
  · rfl
  · rcases h q r hlt with hended | hidle
    · simp [hopen'] at hended
    · simp [hidle] at hr

end Turns

/-! ### The balance of publishes -/

variable [DecidableEq K]

/-- A publish of `k` is paid for by a stop, or by the attempt that is open or has completed. -/
structure Balanced (s : Delivery K) : Prop where
  disjoint : ∀ k, k ∈ s.inFlight → k ∉ s.done
  taken : ∀ k, k ∈ s.inFlight ∨ k ∈ s.done → s.published.count k = s.stopped.count k + 1
  free : ∀ k, k ∉ s.inFlight → k ∉ s.done → s.published.count k = s.stopped.count k

lemma Balanced.publish (h : s.Balanced) (hk : k ∉ s.inFlight) (hk' : k ∉ s.done) :
    Balanced { s with inFlight := insert k s.inFlight, published := s.published ++ [k] } where
  disjoint j hj := by
    rcases Set.mem_insert_iff.mp hj with rfl | hj
    · exact hk'
    · exact h.disjoint j hj
  taken j hj := by
    by_cases hjk : j = k
    · subst hjk
      simp [h.free j hk hk']
    · have hj : j ∈ s.inFlight ∨ j ∈ s.done := by simpa [hjk] using hj
      simp [h.taken j hj, Ne.symm hjk]
  free j hj hj' := by
    have hj : j ≠ k ∧ j ∉ s.inFlight := by simpa using hj
    simp [h.free j hj.2 hj', hj.1.symm]

lemma Balanced.stop (h : s.Balanced) (hk : k ∈ s.inFlight) :
    Balanced { s with inFlight := s.inFlight \ {k}, stopped := s.stopped ++ [k] } where
  disjoint j hj := h.disjoint j hj.1
  taken j hj := by
    have hne : j ≠ k := by
      rintro rfl
      exact h.disjoint j hk (hj.resolve_left fun hj => hj.2 rfl)
    have hj : j ∈ s.inFlight ∨ j ∈ s.done := hj.imp_left And.left
    simp [h.taken j hj, hne.symm]
  free j hj hj' := by
    by_cases hjk : j = k
    · subst hjk
      simp [h.taken j (.inl hk)]
    · have hj : j ∉ s.inFlight := fun hmem => hj ⟨hmem, hjk⟩
      simp [h.free j hj hj', Ne.symm hjk]

lemma Balanced.complete (h : s.Balanced) (hk : k ∈ s.inFlight) :
    Balanced { s with inFlight := s.inFlight \ {k}, done := insert k s.done } where
  disjoint j hj hj' := by
    rcases Set.mem_insert_iff.mp hj' with rfl | hj'
    · exact hj.2 rfl
    · exact h.disjoint j hj.1 hj'
  taken j hj := by
    refine h.taken j ?_
    rcases hj with hj | hj
    · exact .inl hj.1
    · rcases Set.mem_insert_iff.mp hj with rfl | hj
      · exact .inl hk
      · exact .inr hj
  free j hj hj' := by
    have hj' : j ≠ k ∧ j ∉ s.done := by simpa using hj'
    exact h.free j (fun hmem => hj ⟨hmem, hj'.1⟩) hj'.2

omit [DecidableEq K] in
/-- What a step can do. -/
lemma next_cases {a : Step K} (hs : (system K).next s a = some s') :
    (∃ k, k ∉ s.inFlight ∧ k ∉ s.done ∧
      s' = { s with inFlight := insert k s.inFlight, published := s.published ++ [k] }) ∨
    (∃ k, k ∈ s.inFlight ∧
      s' = { s with inFlight := s.inFlight \ {k}, stopped := s.stopped ++ [k] }) ∨
    ∃ k, k ∈ s.inFlight ∧
      s' = { s with inFlight := s.inFlight \ {k}, done := insert k s.done } := by
  cases a with
  | publish k =>
    simp only [system, next] at hs
    split_ifs at hs with h
    exact .inl ⟨k, h.1, h.2, (Option.some.inj hs).symm⟩
  | stop k =>
    simp only [system, next] at hs
    split_ifs at hs with h
    exact .inr (.inl ⟨k, h, (Option.some.inj hs).symm⟩)
  | complete k =>
    simp only [system, next] at hs
    split_ifs at hs with h
    exact .inr (.inr ⟨k, h, (Option.some.inj hs).symm⟩)

/-- Every state of every run is balanced. -/
theorem balanced_of_reachable (h : (system K).Reachable s) : s.Balanced := by
  refine System.ReachBy.invariant (P := Balanced) ?_ ?_ h
  · rintro _ rfl
    exact ⟨by simp, by simp, by simp⟩
  · intro s a s' _ hb _ hs
    rcases next_cases hs with ⟨k, hk, hk', rfl⟩ | ⟨k, hk, rfl⟩ | ⟨k, hk, rfl⟩
    · exact hb.publish hk hk'
    · exact hb.stop hk
    · exact hb.complete hk

/-! ### What the balance says about an item -/

lemma Balanced.count_le (h : s.Balanced) (k : K) :
    s.published.count k ≤ 1 + s.stopped.count k := by
  by_cases hk : k ∈ s.inFlight ∨ k ∈ s.done
  · exact (h.taken k hk).le.trans (by omega)
  · rw [not_or] at hk
    exact (h.free k hk.1 hk.2).le.trans (by omega)

lemma Balanced.count_of_done (h : s.Balanced) (hk : k ∈ s.done) :
    s.published.count k = s.stopped.count k + 1 :=
  h.taken k (.inr hk)

/-- An item that is done stays done and is not published again. -/
theorem done_of_later (h : (system K).Reachable s) (hk : k ∈ s.done)
    (hl : (system K).Later s s') :
    k ∈ s'.done ∧ s'.published.count k = s.published.count k := by
  refine hl.invariant h
    (P := fun t => k ∈ t.done ∧ t.published.count k = s.published.count k) ⟨hk, rfl⟩ ?_
  rintro t a t' - ⟨hdone, hcount⟩ hs
  rcases next_cases hs with ⟨j, -, hj, rfl⟩ | ⟨j, -, rfl⟩ | ⟨j, -, rfl⟩
  · have hne : j ≠ k := by
      rintro rfl
      exact hj hdone
    exact ⟨hdone, by simpa [hne] using hcount⟩
  · exact ⟨hdone, hcount⟩
  · exact ⟨Set.mem_insert_of_mem j hdone, hcount⟩

end Delivery

end Concurrency
