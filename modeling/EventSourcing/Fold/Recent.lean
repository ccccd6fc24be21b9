import Mathlib.Data.List.Dedup
import Mathlib.Data.List.DropRight
import Mathlib.Order.Lattice
import Mathlib.Tactic.Common

/-!
# The most recent element of each key

A list that elements join at its front, where the older element of the same key leaves. It holds
the last element of each key, the most recent first. Cutting it off after `n` elements whenever
one joins leaves what cutting it off at the end leaves.
-/

namespace Fold

variable {E K : Type*} [DecidableEq K] {key : E → K}

/-- The element comes first, the older one of its key leaves. -/
def touch (key : E → K) (recent : List E) (e : E) : List E :=
  e :: recent.filter fun e' => key e' ≠ key e

/-- Elements that join one by one. -/
def recent (key : E → K) (es : List E) : List E := es.foldl (touch key) []

/-- The last element of a key. -/
def latest (key : E → K) (es : List E) (k : K) : Option E := es.reverse.find? fun e => key e = k

@[simp] lemma recent_nil : recent key [] = [] := rfl

lemma recent_concat (es : List E) (e : E) :
    recent key (es ++ [e]) = touch key (recent key es) e := by
  rw [recent, List.foldl_append, List.foldl_cons, List.foldl_nil, recent]

lemma latest_concat (es : List E) (e : E) (k : K) :
    latest key (es ++ [e]) k = if key e = k then some e else latest key es k := by
  simp only [latest, List.reverse_append, List.reverse_singleton, List.singleton_append,
    List.find?_cons]
  by_cases h : key e = k
  · simp [h]
  · simp [h]

lemma map_filter_ne (es : List E) (k : K) :
    (es.filter fun e => key e ≠ k).map key = (es.map key).filter (· ≠ k) := by
  rw [List.filter_map]
  rfl

/-- The keys are in the order of their last elements. -/
lemma dedup_concat (ks : List K) (k : K) :
    (ks ++ [k]).dedup = ks.dedup.filter (· ≠ k) ++ [k] := by
  induction ks with
  | nil => simp
  | cons x ks ih =>
    rw [List.cons_append]
    by_cases hk : x = k
    · subst hk
      rw [List.dedup_cons_of_mem (by simp), ih]
      by_cases hx : x ∈ ks
      · rw [List.dedup_cons_of_mem hx]
      · rw [List.dedup_cons_of_notMem hx]
        simp
    · by_cases hx : x ∈ ks
      · rw [List.dedup_cons_of_mem (by simp [hx]), List.dedup_cons_of_mem hx, ih]
      · rw [List.dedup_cons_of_notMem (by simp [hx, hk]), List.dedup_cons_of_notMem hx, ih]
        simp [hk]

lemma map_key_recent (es : List E) : (recent key es).map key = (es.map key).dedup.reverse := by
  induction es using List.reverseRecOn with
  | nil => simp
  | append_singleton es e ih =>
    rw [recent_concat, touch, List.map_cons, map_filter_ne, ih, List.map_append, List.map_singleton,
      dedup_concat, List.reverse_append, List.filter_reverse]
    rfl

lemma nodup_keys_recent (es : List E) : ((recent key es).map key).Nodup := by
  rw [map_key_recent, List.nodup_reverse]
  exact List.nodup_dedup _

/-- Each element is the last one of its key. -/
lemma latest_of_mem_recent (es : List E) : ∀ e ∈ recent key es, latest key es (key e) = some e := by
  induction es using List.reverseRecOn with
  | nil => simp
  | append_singleton es e ih =>
    intro e' he'
    rw [recent_concat, touch, List.mem_cons, List.mem_filter] at he'
    rw [latest_concat]
    rcases he' with rfl | ⟨he', hne⟩
    · rw [if_pos rfl]
    · rw [if_neg fun h => (of_decide_eq_true hne) h.symm]
      exact ih e' he'

/-! ### Cutting off -/

/-- An element of the key leaves room for one that is behind. -/
lemma take_filter_take {es : List E} (h : (es.map key).Nodup) (k : K) (n : ℕ) :
    ((es.take (n + 1)).filter fun e => key e ≠ k).take n
      = (es.filter fun e => key e ≠ k).take n := by
  induction es generalizing n with
  | nil => simp
  | cons e es ih =>
    rw [List.map_cons, List.nodup_cons] at h
    rw [List.take_succ_cons]
    by_cases hk : key e = k
    · -- no other element of the key is in the list
      have hothers : ∀ e' ∈ es, key e' ≠ k := by
        intro e' he' hk'
        exact h.1 (hk.trans hk'.symm ▸ List.mem_map_of_mem he')
      have hall : es.filter (fun e => key e ≠ k) = es :=
        List.filter_eq_self.mpr fun e' he' => decide_eq_true (hothers e' he')
      have htake : (es.take n).filter (fun e => key e ≠ k) = es.take n :=
        List.filter_eq_self.mpr fun e' he' =>
          decide_eq_true (hothers e' (List.mem_of_mem_take he'))
      rw [List.filter_cons_of_neg (by simp [hk]), List.filter_cons_of_neg (by simp [hk]), hall,
        htake, List.take_take, Nat.min_self]
    · rw [List.filter_cons_of_pos (by simp [hk]), List.filter_cons_of_pos (by simp [hk])]
      cases n with
      | zero => rfl
      | succ n => rw [List.take_succ_cons, List.take_succ_cons, ih h.2]

/-- An element that joins the first `n`. -/
lemma take_touch_take {es : List E} (h : (es.map key).Nodup) (e : E) (n : ℕ) :
    (touch key (es.take n) e).take n = (touch key es e).take n := by
  cases n with
  | zero => rfl
  | succ n => rw [touch, touch, List.take_succ_cons, List.take_succ_cons, take_filter_take h]

end Fold
