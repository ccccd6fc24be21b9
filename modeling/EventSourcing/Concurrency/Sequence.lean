import EventSourcing.Concurrency.System
import Mathlib.Algebra.Order.Group.Int
import Mathlib.Logic.Function.Basic

/-!
# Numbers drawn from a sequence

An owner draws a number for a class, larger than every number drawn before, and later commits
it to the log or drops it. A dropped number is lost, so the log has gaps, and owners commit in
any order, so the log need not ascend. It does ascend within each class if a class is drawn for
by one owner at a time.
-/

namespace Concurrency

universe u v

/-- The last number drawn, the numbers drawn and not committed yet, and the log. -/
@[ext]
structure Sequence (T : Type u) (κ : Type v) where
  last : ℤ
  drafts : T → Option (κ × ℤ)
  log : List (κ × ℤ)

namespace Sequence

variable {T : Type u} {κ : Type v} [DecidableEq T]

inductive Step (T : Type u) (κ : Type v) where
  | draw (t : T) (k : κ) (g : ℤ)
  | drop (t : T)
  | commit (t : T)

/-- No owner has an open draft for class `k`. -/
def FreeClass (s : Sequence T κ) (k : κ) : Prop := ∀ t d, s.drafts t = some d → d.1 ≠ k

open Classical in
noncomputable def next (s : Sequence T κ) : Step T κ → Option (Sequence T κ)
  | .draw t k g =>
    if s.last < g ∧ s.FreeClass k then
      some { s with last := g, drafts := Function.update s.drafts t (some (k, g)) }
    else none
  | .drop t => some { s with drafts := Function.update s.drafts t none }
  | .commit t =>
    (s.drafts t).map fun d =>
      { s with drafts := Function.update s.drafts t none, log := s.log ++ [d] }

variable (T κ) in
noncomputable def system : System (Sequence T κ) (Step T κ) where
  init s := s = { last := 0, drafts := fun _ => none, log := [] }
  next := next

/-- `d` is a number of its own, and above those of its class that come before it. -/
def Follows (d' d : κ × ℤ) : Prop := d'.2 ≠ d.2 ∧ (d'.1 = d.1 → d'.2 < d.2)

/-- Every open draft can join the log, whichever commits first. -/
structure Ordered (s : Sequence T κ) : Prop where
  nonneg : 0 ≤ s.last
  draftPos : ∀ t d, s.drafts t = some d → 0 < d.2
  logPos : ∀ d ∈ s.log, 0 < d.2
  logLe : ∀ d ∈ s.log, d.2 ≤ s.last
  draftLe : ∀ t d, s.drafts t = some d → d.2 ≤ s.last
  follows : ∀ t d, s.drafts t = some d → ∀ d' ∈ s.log, Follows d' d
  apart : ∀ t t' d d', t ≠ t' → s.drafts t = some d → s.drafts t' = some d' →
    d.1 ≠ d'.1 ∧ d.2 ≠ d'.2
  log : s.log.Pairwise Follows

variable {s s' : Sequence T κ}

lemma next_draw {t : T} {k : κ} {g : ℤ} (hg : s.last < g) (hk : s.FreeClass k) :
    s.next (.draw t k g)
      = some { s with last := g, drafts := Function.update s.drafts t (some (k, g)) } := by
  simp only [next, if_pos (And.intro hg hk)]

lemma next_commit {t : T} {d : κ × ℤ} (h : s.drafts t = some d) :
    s.next (.commit t)
      = some { s with drafts := Function.update s.drafts t none, log := s.log ++ [d] } := by
  simp only [next, h, Option.map_some]

/-- An open draft after `t` has given up or replaced its own is one of another owner. -/
lemma drafts_update_none {t t' : T} {d : κ × ℤ}
    (h : Function.update s.drafts t none t' = some d) : t' ≠ t ∧ s.drafts t' = some d := by
  by_cases ht : t' = t
  · subst ht
    simp at h
  · exact ⟨ht, by simpa [ht] using h⟩

lemma drafts_update_some {t t' : T} {d d₀ : κ × ℤ}
    (h : Function.update s.drafts t (some d₀) t' = some d) :
    (t' = t ∧ d = d₀) ∨ (t' ≠ t ∧ s.drafts t' = some d) := by
  by_cases ht : t' = t
  · subst ht
    exact .inl ⟨rfl, by simpa using h.symm⟩
  · exact .inr ⟨ht, by simpa [ht] using h⟩

lemma Ordered.draw (h : s.Ordered) {t : T} {k : κ} {g : ℤ} (hg : s.last < g)
    (hk : s.FreeClass k) :
    Ordered { s with last := g, drafts := Function.update s.drafts t (some (k, g)) } where
  nonneg := h.nonneg.trans hg.le
  draftPos t' d hd := by
    rcases drafts_update_some hd with ⟨-, rfl⟩ | ⟨-, hd⟩
    · exact h.nonneg.trans_lt hg
    · exact h.draftPos t' d hd
  logPos := h.logPos
  logLe d hd := (h.logLe d hd).trans hg.le
  draftLe t' d hd := by
    rcases drafts_update_some hd with ⟨-, rfl⟩ | ⟨-, hd⟩
    · exact le_refl g
    · exact (h.draftLe t' d hd).trans hg.le
  follows t' d hd d' hd' := by
    rcases drafts_update_some hd with ⟨-, rfl⟩ | ⟨-, hd⟩
    · have hlt : d'.2 < g := (h.logLe d' hd').trans_lt hg
      exact ⟨hlt.ne, fun _ => hlt⟩
    · exact h.follows t' d hd d' hd'
  apart t₁ t₂ d₁ d₂ ht h₁ h₂ := by
    rcases drafts_update_some h₁ with ⟨rfl, rfl⟩ | ⟨-, hd₁⟩
    · rcases drafts_update_some h₂ with ⟨rfl, -⟩ | ⟨-, hd₂⟩
      · exact absurd rfl ht
      · exact ⟨(hk t₂ d₂ hd₂).symm, ((h.draftLe t₂ d₂ hd₂).trans_lt hg).ne'⟩
    · rcases drafts_update_some h₂ with ⟨rfl, rfl⟩ | ⟨-, hd₂⟩
      · exact ⟨hk t₁ d₁ hd₁, ((h.draftLe t₁ d₁ hd₁).trans_lt hg).ne⟩
      · exact h.apart t₁ t₂ d₁ d₂ ht hd₁ hd₂
  log := h.log

lemma Ordered.drop (h : s.Ordered) (t : T) :
    Ordered { s with drafts := Function.update s.drafts t none } where
  nonneg := h.nonneg
  draftPos t' d hd := h.draftPos t' d (drafts_update_none hd).2
  logPos := h.logPos
  logLe := h.logLe
  draftLe t' d hd := h.draftLe t' d (drafts_update_none hd).2
  follows t' d hd := h.follows t' d (drafts_update_none hd).2
  apart t₁ t₂ d₁ d₂ ht h₁ h₂ :=
    h.apart t₁ t₂ d₁ d₂ ht (drafts_update_none h₁).2 (drafts_update_none h₂).2
  log := h.log

lemma Ordered.commit (h : s.Ordered) {t : T} {d : κ × ℤ} (hd : s.drafts t = some d) :
    Ordered { s with drafts := Function.update s.drafts t none, log := s.log ++ [d] } where
  nonneg := h.nonneg
  draftPos := (h.drop t).draftPos
  logPos d' hd' := by
    rcases List.mem_append.mp hd' with hd' | hd'
    · exact h.logPos d' hd'
    · obtain rfl := List.mem_singleton.mp hd'
      exact h.draftPos t d' hd
  logLe d' hd' := by
    rcases List.mem_append.mp hd' with hd' | hd'
    · exact h.logLe d' hd'
    · obtain rfl := List.mem_singleton.mp hd'
      exact h.draftLe t d' hd
  draftLe := (h.drop t).draftLe
  follows t' d' hd' d'' hd'' := by
    obtain ⟨ht, hopen⟩ := drafts_update_none hd'
    rcases List.mem_append.mp hd'' with hd'' | hd''
    · exact h.follows t' d' hopen d'' hd''
    · -- the number committed now is apart from every other draft
      obtain rfl := List.mem_singleton.mp hd''
      obtain ⟨hclass, hnumber⟩ := h.apart t t' d'' d' (Ne.symm ht) hd hopen
      exact ⟨hnumber, fun heq => absurd heq hclass⟩
  apart := (h.drop t).apart
  log := by
    refine List.pairwise_append.mpr ⟨h.log, List.pairwise_singleton _ _, ?_⟩
    intro d' hd' d'' hd''
    obtain rfl := List.mem_singleton.mp hd''
    exact h.follows t d'' hd d' hd'

/-- Every state of every run is ordered. -/
theorem ordered_of_reachable (h : (system T κ).Reachable s) : s.Ordered := by
  refine System.ReachBy.invariant (P := Ordered) ?_ ?_ h
  · rintro _ rfl
    exact ⟨le_refl 0, by simp, by simp, by simp, by simp, by simp, by simp, List.Pairwise.nil⟩
  · intro s a s' _ hord _ hs
    cases a with
    | draw t k g =>
      simp only [system, next] at hs
      split_ifs at hs with hg
      obtain rfl := Option.some.inj hs
      exact hord.draw hg.1 hg.2
    | drop t =>
      obtain rfl := Option.some.inj hs
      exact hord.drop t
    | commit t =>
      obtain ⟨d, hd, rfl⟩ := Option.map_eq_some_iff.mp hs
      exact hord.commit hd

end Sequence

end Concurrency
