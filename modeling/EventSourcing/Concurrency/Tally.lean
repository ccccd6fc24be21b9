import Mathlib.Algebra.GroupWithZero.Nat
import Mathlib.Algebra.Order.BigOperators.Group.List
import Mathlib.Tactic.Common

/-!
# Tasks that add to shared counters

A task makes its additions one after another, each of them atomically, while other tasks run in
between. What the counters hold and what the tasks have still to add is at any time what the
tasks have issued (`Settled`), so once nothing is left to add, the counters hold the sums of the
additions that were issued.
-/

namespace Concurrency.Tally

variable {T C : Type*} [DecidableEq C]

/-- What additions give for a counter. -/
def amount (c : C) (adds : List (C × ℕ)) : ℕ :=
  (adds.map fun add => if add.1 = c then add.2 else 0).sum

/-- What a value of the tasks sums up to. -/
def sumOver (f : T → ℕ) (tasks : List T) : ℕ := (tasks.map f).sum

/-- What the tasks have issued is in the counters or still to add. -/
def Settled (counters : C → ℕ) (issued pending : T → List (C × ℕ)) (tasks : List T) : Prop :=
  ∀ c, counters c + sumOver (fun t => amount c (pending t)) tasks
    = sumOver (fun t => amount c (issued t)) tasks

section Amount

variable (c : C)

@[simp] lemma amount_nil : amount c [] = 0 := rfl

@[simp] lemma amount_cons (add : C × ℕ) (adds : List (C × ℕ)) :
    amount c (add :: adds) = (if add.1 = c then add.2 else 0) + amount c adds := by
  simp [amount]

@[simp] lemma amount_append (adds adds' : List (C × ℕ)) :
    amount c (adds ++ adds') = amount c adds + amount c adds' := by
  simp [amount]

lemma amount_replicate (n : ℕ) (adds : List (C × ℕ)) :
    amount c (List.replicate n adds).flatten = n * amount c adds := by
  induction n with
  | zero => simp
  | succ n ih => rw [List.replicate_succ, List.flatten_cons, amount_append, ih, Nat.succ_mul,
      Nat.add_comm]

end Amount

variable {f g : T → ℕ} {tasks : List T} {t u : T} {k : ℕ}

@[simp] lemma sumOver_nil : sumOver f [] = 0 := rfl

@[simp] lemma sumOver_concat : sumOver f (tasks ++ [t]) = sumOver f tasks + f t := by simp [sumOver]

lemma sumOver_add : sumOver (fun t => f t + g t) tasks = sumOver f tasks + sumOver g tasks :=
  List.sum_map_add

lemma sumOver_congr (h : ∀ t ∈ tasks, f t = g t) : sumOver f tasks = sumOver g tasks :=
  congrArg List.sum (List.map_congr_left h)

lemma sumOver_one : sumOver (fun _ => 1) tasks = tasks.length := by simp [sumOver]

lemma countP_eq_over (p : T → Bool) :
    tasks.countP p = sumOver (fun t => if p t then 1 else 0) tasks := by
  induction tasks with
  | nil => rfl
  | cons t tasks ih =>
    rw [List.countP_cons, ih, sumOver, sumOver, List.map_cons, List.sum_cons, Nat.add_comm]

/-- A sum of numbers is zero where all of them are. -/
lemma sumOver_eq_zero_iff : sumOver f tasks = 0 ↔ ∀ t ∈ tasks, f t = 0 := by
  rw [sumOver, List.sum_eq_zero_iff_forall_eq_nat, List.forall_mem_map]

/-- Of a sum, a move takes the task that was and adds the one that is. -/
lemma sumOver_set (hk : tasks[k]? = some u) (f : T → ℕ) :
    sumOver f (tasks.set k t) + f u = sumOver f tasks + f t := by
  obtain ⟨hlt, rfl⟩ := List.getElem?_eq_some_iff.mp hk
  induction tasks generalizing k with
  | nil => simp at hlt
  | cons x tasks ih =>
    cases k with
    | zero =>
      simp [sumOver]
      omega
    | succ k =>
      have hlt' : k < tasks.length := by simpa using hlt
      have hrest := ih hlt' (List.getElem?_eq_getElem hlt')
      simp only [sumOver, List.set_cons_succ, List.map_cons, List.sum_cons, List.getElem_cons_succ]
        at hrest ⊢
      omega

variable {counters : C → ℕ} {issued pending : T → List (C × ℕ)}

lemma settled_nil : Settled (fun _ => 0) issued pending [] := fun _ => rfl

/-- A new task has issued nothing. -/
lemma Settled.spawn (h : Settled counters issued pending tasks) (hissued : issued t = [])
    (hpending : pending t = []) : Settled counters issued pending (tasks ++ [t]) := by
  intro c
  rw [sumOver_concat, sumOver_concat, hissued, hpending]
  exact h c

/-- A task issues additions. -/
lemma Settled.issue (h : Settled counters issued pending tasks) (hk : tasks[k]? = some u)
    {adds : List (C × ℕ)} (hissued : issued t = issued u ++ adds)
    (hpending : pending t = pending u ++ adds) :
    Settled counters issued pending (tasks.set k t) := by
  intro c
  have hbefore := h c
  have hsum := sumOver_set (t := t) hk fun t => amount c (issued t)
  have hleft := sumOver_set (t := t) hk fun t => amount c (pending t)
  simp only [hissued, hpending, amount_append] at hsum hleft
  omega

/-- A task makes the first of its additions. -/
lemma Settled.add (h : Settled counters issued pending tasks) (hk : tasks[k]? = some u)
    {c : C} {n : ℕ} (hissued : issued t = issued u) (hpending : pending u = (c, n) :: pending t) :
    Settled (Function.update counters c (counters c + n)) issued pending (tasks.set k t) := by
  intro c'
  have hbefore := h c'
  have hsum := sumOver_set (t := t) hk fun t => amount c' (issued t)
  have hleft := sumOver_set (t := t) hk fun t => amount c' (pending t)
  simp only [hissued, hpending, amount_cons] at hsum hleft
  by_cases hc : c = c'
  · subst hc
    rw [Function.update_self]
    simp only [if_pos] at hleft
    omega
  · rw [Function.update_of_ne (Ne.symm hc)]
    simp only [if_neg hc] at hleft
    omega

/-- Nothing is left to add. -/
lemma Settled.counters_eq (h : Settled counters issued pending tasks)
    (hpending : ∀ t ∈ tasks, pending t = []) (c : C) :
    counters c = sumOver (fun t => amount c (issued t)) tasks := by
  have hzero : sumOver (fun t => amount c (pending t)) tasks = 0 :=
    sumOver_eq_zero_iff.mpr fun t ht => by rw [hpending t ht, amount_nil]
  rw [← h c, hzero, Nat.add_zero]

end Concurrency.Tally
