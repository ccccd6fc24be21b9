import Mathlib.Data.List.Basic

/-!
# Tasks that hold permits

A semaphore has a number of free permits. A task is spawned with one of them and gives it back
when it ends, so the free permits and those of the running tasks always add up to the capacity
(`Balanced`): no more than that many tasks run at a time, and whoever finds every permit free
finds every task ended.
-/

namespace Concurrency

/-- The free permits of a semaphore, and every task that was spawned with one. -/
structure Permits (T : Type*) where
  free : ℕ
  tasks : List T

namespace Permits

variable {T : Type*} (running : T → Bool)

/-- Takes a permit for a new task, if one is free. -/
def spawn (t : T) (p : Permits T) : Option (Permits T) :=
  if p.free = 0 then none else some { free := p.free - 1, tasks := p.tasks ++ [t] }

/-- Task `k` moves on to `t`; when it ends, its permit is free again. -/
def move (k : ℕ) (t : T) (p : Permits T) : Permits T where
  free := p.free + if running t then 0 else 1
  tasks := p.tasks.set k t

/-- No permit is lost and none is made. -/
def Balanced (capacity : ℕ) (p : Permits T) : Prop :=
  p.free + p.tasks.countP running = capacity

variable {running} {p p' : Permits T} {t u : T} {k capacity : ℕ}

/-- Of the tasks of a kind, a move takes the one that was and adds the one that is. -/
lemma countP_move {l : List T} (hk : l[k]? = some u) (q : T → Bool) :
    (l.set k t).countP q + (if q u then 1 else 0) = l.countP q + if q t then 1 else 0 := by
  obtain ⟨hlt, rfl⟩ := List.getElem?_eq_some_iff.mp hk
  have hcounted : (if q l[k] then 1 else 0) ≤ l.countP q := by
    split_ifs with hq
    · exact List.countP_pos_iff.mpr ⟨l[k], List.getElem_mem hlt, hq⟩
    · exact Nat.zero_le _
  rw [List.countP_set hlt]
  omega

lemma spawn_eq_some (hs : p.spawn t = some p') :
    p.free ≠ 0 ∧ p' = { free := p.free - 1, tasks := p.tasks ++ [t] } := by
  simp only [spawn] at hs
  split_ifs at hs with hfree
  exact ⟨hfree, (Option.some.inj hs).symm⟩

lemma balanced_initial : Balanced running capacity { free := capacity, tasks := [] } := by
  simp [Balanced]

lemma Balanced.spawn (h : p.Balanced running capacity) (ht : running t = true)
    (hs : p.spawn t = some p') : p'.Balanced running capacity := by
  obtain ⟨hfree, rfl⟩ := spawn_eq_some hs
  simp only [Balanced, List.countP_append, List.countP_singleton, ht, if_pos] at h ⊢
  omega

lemma Balanced.move (h : p.Balanced running capacity) (hk : p.tasks[k]? = some u)
    (hu : running u = true) : (p.move running k t).Balanced running capacity := by
  have hcount := countP_move (t := t) hk running
  simp only [hu, if_pos] at hcount
  simp only [Balanced, Permits.move] at h ⊢
  split_ifs at hcount ⊢ <;> omega

/-- No more tasks run than there are permits. -/
lemma Balanced.running_le (h : p.Balanced running capacity) :
    p.tasks.countP running ≤ capacity := by
  rw [Balanced] at h
  omega

/-- Once every permit is free, every task has ended. -/
lemma Balanced.ended (h : p.Balanced running capacity) (hfree : capacity ≤ p.free) :
    ∀ t ∈ p.tasks, running t = false := by
  have hzero : p.tasks.countP running = 0 := by
    rw [Balanced] at h
    omega
  simpa using List.countP_eq_zero.mp hzero

end Permits

end Concurrency
