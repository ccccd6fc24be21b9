import Mathlib.Data.Int.Basic
import Mathlib.Data.List.Basic
import Mathlib.Data.List.Count
import Mathlib.Data.List.Induction
import Mathlib.Data.List.Nodup
import Mathlib.Tactic.Common

/-!
# Consecutive numbering

A list is numbered when, within each class of its elements, the numbers run `0, 1, …` in list
order. An element joins a numbered list under the number of elements its class has so far.
-/

namespace Concurrency

variable {α κ : Type*} [DecidableEq κ]

/-- How many elements of `l` are in class `k`. -/
def classCount (c : α → κ) (l : List α) (k : κ) : ℕ := l.countP fun a => c a = k

/-- `n` numbers the elements of each class of `c` from `0` without a gap, in list order. -/
def Numbered (c : α → κ) (n : α → ℤ) (l : List α) : Prop :=
  ∀ k, (l.filter fun a => c a = k).map n
    = (List.range (classCount c l k)).map fun i : ℕ => (i : ℤ)

variable {c : α → κ} {n : α → ℤ} {l : List α} {a b : α}

@[simp] lemma classCount_nil (k : κ) : classCount c [] k = 0 := rfl

@[simp] lemma classCount_append (l l' : List α) (k : κ) :
    classCount c (l ++ l') k = classCount c l k + classCount c l' k :=
  List.countP_append ..

lemma classCount_singleton (a : α) (k : κ) :
    classCount c [a] k = if c a = k then 1 else 0 := by
  simp [classCount, List.countP_singleton]

@[simp] lemma numbered_nil : Numbered c n [] := fun _ => rfl

/-- An element numbered by the size of its class can be appended. -/
lemma Numbered.snoc (h : Numbered c n l) (ha : n a = classCount c l (c a)) :
    Numbered c n (l ++ [a]) := by
  intro k
  by_cases hk : c a = k
  · subst hk
    rw [classCount_append, classCount_singleton, if_pos rfl, List.range_succ]
    simp [h (c a), ha]
  · rw [classCount_append, classCount_singleton, if_neg hk]
    simp [h k, hk]

/-- Numbers lie below the size of the class. -/
lemma Numbered.bounds (h : Numbered c n l) (ha : a ∈ l) :
    0 ≤ n a ∧ n a < classCount c l (c a) := by
  have hmem : n a ∈ (l.filter fun b => c b = c a).map n :=
    List.mem_map_of_mem (List.mem_filter.mpr ⟨ha, by simp⟩)
  rw [h (c a)] at hmem
  obtain ⟨i, hi, hn⟩ := List.mem_map.mp hmem
  have := List.mem_range.mp hi
  omega

/-- Every number below the size of a class is taken. -/
lemma Numbered.exists_of_lt (h : Numbered c n l) {k : κ} {i : ℕ} (hi : i < classCount c l k) :
    ∃ a ∈ l, c a = k ∧ n a = i := by
  have hmem : (i : ℤ) ∈ (List.range (classCount c l k)).map fun i : ℕ => (i : ℤ) :=
    List.mem_map_of_mem (List.mem_range.mpr hi)
  rw [← h k] at hmem
  obtain ⟨a, ha, hn⟩ := List.mem_map.mp hmem
  obtain ⟨hal, hc⟩ := List.mem_filter.mp ha
  exact ⟨a, hal, by simpa using hc, hn⟩

/-- Within a class the list order is the order of the numbers. -/
lemma Numbered.sorted (h : Numbered c n l) (k : κ) :
    ((l.filter fun a => c a = k).map n).Pairwise (· < ·) := by
  rw [h k, List.pairwise_map]
  exact List.pairwise_lt_range.imp fun hij => by exact_mod_cast hij

/-- The last element of a numbered list has the size of its class before it. -/
lemma Numbered.of_snoc (h : Numbered c n (l ++ [a])) :
    Numbered c n l ∧ n a = classCount c l (c a) := by
  have hself := h (c a)
  rw [classCount_append, classCount_singleton, if_pos rfl, List.range_succ, List.filter_append,
    List.filter_cons_of_pos (by simp), List.filter_nil, List.map_append, List.map_append] at hself
  obtain ⟨hclass, hlast⟩ := List.append_inj' hself rfl
  refine ⟨fun k => ?_, by simpa using hlast⟩
  by_cases hk : c a = k
  · exact hk ▸ hclass
  · simpa [classCount_singleton, hk] using h k

/-- Lists with the same classes have the same numbers. -/
lemma Numbered.map_eq {β : Type*} {c' : β → κ} {n' : β → ℤ} {l' : List β}
    (h : Numbered c n l) (h' : Numbered c' n' l') (hc : l.map c = l'.map c') :
    l.map n = l'.map n' := by
  induction l using List.reverseRecOn generalizing l' with
  | nil =>
    obtain rfl := List.map_eq_nil_iff.mp hc.symm
    rfl
  | append_singleton l a ih =>
    rcases List.eq_nil_or_concat l' with rfl | ⟨l', a', rfl⟩
    · simp at hc
    · rw [List.concat_eq_append] at h' hc ⊢
      rw [List.map_append, List.map_append] at hc
      obtain ⟨hinit, hlast⟩ := List.append_inj' hc rfl
      obtain ⟨hl, ha⟩ := h.of_snoc
      obtain ⟨hl', ha'⟩ := h'.of_snoc
      have hclass : c a = c' a' := by simpa using hlast
      have hcount : ∀ k, classCount c l k = classCount c' l' k := by
        intro k
        have hcount := congrArg (List.countP fun x => x = k) hinit
        rwa [List.countP_map, List.countP_map] at hcount
      rw [List.map_append, List.map_append, ih hl hl' hinit, List.map_singleton, List.map_singleton,
        ha, ha', hcount, hclass]

/-! ### Numbers drawn from a counter -/

/-- Numbers drawn from a counter at `v` ascend from there, below where they leave it. -/
lemma ascending_of_range {v : ℤ} {k : ℕ}
    (h : l.map n = (List.range k).map fun i : ℕ => v + i) :
    (l.map n).Pairwise (· < ·) ∧ ∀ a ∈ l, v ≤ n a ∧ n a < v + k := by
  constructor
  · rw [h, List.pairwise_map]
    exact List.pairwise_lt_range.imp fun hlt => by omega
  · intro a ha
    have hmem : n a ∈ (List.range k).map fun i : ℕ => v + i := h ▸ List.mem_map_of_mem ha
    obtain ⟨i, hi, heq⟩ := List.mem_map.mp hmem
    have hlt := List.mem_range.mp hi
    omega

/-- They stand behind numbers that lie below the counter. -/
lemma ascending_append {l' : List α} {v v' : ℤ} (h : (l.map n).Pairwise (· < ·))
    (hbelow : ∀ a ∈ l, n a < v) (h' : (l'.map n).Pairwise (· < ·))
    (hdrawn : ∀ a ∈ l', v ≤ n a ∧ n a < v') (hle : v ≤ v') :
    ((l ++ l').map n).Pairwise (· < ·) ∧ ∀ a ∈ l ++ l', n a < v' := by
  constructor
  · rw [List.map_append, List.pairwise_append]
    refine ⟨h, h', ?_⟩
    simp only [List.forall_mem_map]
    exact fun a ha a' ha' => Int.lt_of_lt_of_le (hbelow a ha) (hdrawn a' ha').1
  · intro a ha
    rcases List.mem_append.mp ha with ha | ha
    · exact Int.lt_of_lt_of_le (hbelow a ha) hle
    · exact (hdrawn a ha).2

end Concurrency
