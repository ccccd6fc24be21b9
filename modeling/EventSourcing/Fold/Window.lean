import Mathlib.Data.List.DropRight
import Mathlib.Data.List.Sort
import Mathlib.Tactic.Common

/-!
# The window over the end of a log

A window of size `n` holds the last `n` elements of a log, `log.rtake n`. An element that joins
the log joins the window, and the oldest element leaves a full one; that keeps the window over
the end of the log, however long the log is.
-/

namespace Fold

variable {E : Type*} {n : ℕ} {log : List E}

/-- An element joins the window; the oldest leaves a full one. -/
def slide (n : ℕ) (window : List E) (e : E) : List E :=
  (if window.length = n then window.drop 1 else window) ++ [e]

lemma length_rtake : (log.rtake n).length = min n log.length := by
  rw [List.rtake, List.length_drop]
  omega

lemma rtake_of_length_le (h : log.length ≤ n) : log.rtake n = log := by
  rw [List.rtake, Nat.sub_eq_zero_of_le h, List.drop_zero]

/-- The window over the end of a log stays there. -/
lemma slide_rtake (hn : n ≠ 0) (e : E) : slide n (log.rtake n) e = (log ++ [e]).rtake n := by
  obtain ⟨n, rfl⟩ := Nat.exists_eq_succ_of_ne_zero hn
  rw [Nat.succ_eq_add_one, List.rtake_concat_succ, slide, length_rtake]
  congr 1
  split_ifs with hfull
  · -- a full window is what the log holds from its position on
    have hle : n + 1 ≤ log.length := by omega
    rw [List.rtake, List.rtake, List.drop_drop]
    congr 1
    omega
  · have hlt : log.length ≤ n := by omega
    rw [rtake_of_length_le (by omega), rtake_of_length_le hlt]

/-- Elements that join one by one. -/
lemma foldl_slide (hn : n ≠ 0) (log new : List E) :
    new.foldl (slide n) (log.rtake n) = (log ++ new).rtake n := by
  induction new generalizing log with
  | nil => rw [List.foldl_nil, List.append_nil]
  | cons e new ih =>
    rw [List.foldl_cons, slide_rtake hn, ih, List.append_assoc, List.singleton_append]

/-- A window that is filled from nothing. -/
lemma foldl_slide_nil (hn : n ≠ 0) (new : List E) : new.foldl (slide n) [] = new.rtake n := by
  simpa using foldl_slide hn [] new

/-- From a window of size zero nothing ever leaves. -/
lemma foldl_slide_zero (window new : List E) : new.foldl (slide 0) window = window ++ new := by
  induction new generalizing window with
  | nil => exact (List.append_nil _).symm
  | cons e new ih =>
    have hstays : slide 0 window e = window ++ [e] := by
      rw [slide]
      split_ifs with hempty
      · rw [List.length_eq_zero_iff.mp hempty, List.drop_nil]
      · rfl
    rw [List.foldl_cons, hstays, ih, List.append_assoc, List.singleton_append]

/-- A window that is filled from nothing is at the end of what has joined it, unless its size is
zero. -/
lemma foldl_slide_nil_iff {new : List E} :
    new.foldl (slide n) [] = new.rtake n ↔ n ≠ 0 ∨ new = [] := by
  by_cases hn : n = 0
  · subst hn
    rw [foldl_slide_zero, List.nil_append, List.rtake_zero]
    simp
  · exact ⟨fun _ => .inl hn, fun _ => foldl_slide_nil hn new⟩

/-- The window over a log without its first elements starts where the log or the window does. -/
lemma rtake_drop (k : ℕ) : (log.drop k).rtake n = log.drop (max k (log.length - n)) := by
  rw [List.rtake, List.drop_drop, List.length_drop]
  congr 1
  omega

/-- What is before a window is not seen. -/
lemma rtake_append_of_le {new : List E} (h : n ≤ new.length) :
    (log ++ new).rtake n = new.rtake n := by
  rw [List.rtake, List.rtake, List.length_append, Nat.add_sub_assoc h, List.drop_length_add_append]

lemma map_rtake {D : Type*} (f : E → D) : (log.rtake n).map f = (log.map f).rtake n := by
  rw [List.rtake, List.rtake, List.map_drop, List.length_map]

lemma rtake_rtake : (log.rtake n).rtake n = log.rtake n := by
  apply rtake_of_length_le
  rw [length_rtake]
  exact Nat.min_le_left _ _

/-! ### Sorted logs -/

section Sorted

variable {K : Type*} [LinearOrder K] {key : E → K} {l l' : List E}

local instance totalKey : Std.Total fun e e' : E => key e ≤ key e' :=
  ⟨fun e e' => le_total (key e) (key e')⟩

local instance transKey : IsTrans E fun e e' => key e ≤ key e' :=
  ⟨fun _ _ _ hle hle' => hle.trans hle'⟩

/-- Keys of their own leave one order. -/
lemma eq_of_ascending (h : (l.map key).Nodup) (hl : l.Pairwise fun e e' => key e ≤ key e')
    (hl' : l'.Pairwise fun e e' => key e ≤ key e') (hperm : l.Perm l') : l = l' := by
  have hunique := List.inj_on_of_nodup_map h
  refine List.Perm.eq_of_pairwise ?_ hl hl' hperm
  intro e e' he he' hle hle'
  exact hunique he (hperm.mem_iff.mpr he') (le_antisymm hle hle')

lemma rdrop_append_rtake (log : List E) (n : ℕ) : log.rdrop n ++ log.rtake n = log :=
  List.take_append_drop _ _

/-- A log that is sorted by keys of its own ends as it did if and only if the keys of its end
ascend, above the keys before it. -/
lemma rtake_insertionSort_iff (h : (log.map key).Nodup) :
    (log.insertionSort fun e e' => key e ≤ key e').rtake n = log.rtake n
      ↔ (∀ e ∈ log.rdrop n, ∀ e' ∈ log.rtake n, key e < key e')
        ∧ (log.rtake n).Pairwise fun e e' => key e < key e' := by
  have hperm := List.perm_insertionSort (fun e e' => key e ≤ key e') log
  have hascending := List.pairwise_insertionSort (fun e e' => key e ≤ key e') log
  have hdistinct := (hperm.map key).nodup_iff.mpr h
  generalize log.insertionSort (fun e e' => key e ≤ key e') = sorted at *
  constructor
  · intro hend
    have hsplit : sorted = sorted.rdrop n ++ log.rtake n := by
      rw [← hend, rdrop_append_rtake]
    have hstart : (sorted.rdrop n).Perm (log.rdrop n) := by
      rw [← List.perm_append_right_iff (log.rtake n), ← hsplit, rdrop_append_rtake]
      exact hperm
    have hstrict : sorted.Pairwise fun e e' => key e < key e' :=
      (hascending.and (List.pairwise_map.mp hdistinct)).imp fun hlt => lt_of_le_of_ne hlt.1 hlt.2
    rw [hsplit, List.pairwise_append] at hstrict
    exact ⟨fun e he e' he' => hstrict.2.2 e (hstart.mem_iff.mpr he) e' he', hstrict.2.1⟩
  · rintro ⟨habove, hend⟩
    -- what is before the end is sorted on its own
    have hsplit : sorted
        = (log.rdrop n).insertionSort (fun e e' => key e ≤ key e') ++ log.rtake n := by
      refine eq_of_ascending hdistinct hascending ?_ ?_
      · rw [List.pairwise_append]
        refine ⟨List.pairwise_insertionSort _ _, hend.imp le_of_lt, ?_⟩
        intro e he e' he'
        exact (habove e ((List.mem_insertionSort _).mp he) e' he').le
      · refine hperm.trans ?_
        conv_lhs => rw [← rdrop_append_rtake log n]
        exact (List.perm_insertionSort _ _).symm.append_right _
    have hlength : (log.rdrop n).length = sorted.length - n := by
      rw [hperm.length_eq, List.rdrop, List.length_take]
      omega
    rw [List.rtake, ← hlength]
    conv_lhs => rw [hsplit]
    rw [List.drop_left' (List.length_insertionSort _ _)]

/-- A log whose keys ascend, sorted from the greatest key. -/
lemma insertionSort_newest (h : (log.map key).Pairwise (· < ·)) :
    log.insertionSort (fun e e' => key e' ≤ key e) = log.reverse := by
  have hascending : log.Pairwise fun e e' => key e < key e' := List.pairwise_map.mp h
  -- the keys in the order from the greatest
  let newest : E → Kᵒᵈ := fun e => OrderDual.toDual (key e)
  have hperm := List.perm_insertionSort (fun e e' => newest e ≤ newest e') log
  have hdistinct : (log.map newest).Nodup :=
    List.pairwise_map.mpr (hascending.imp fun hlt heq => hlt.ne (OrderDual.toDual.injective heq))
  refine eq_of_ascending ((hperm.map newest).nodup_iff.mpr hdistinct)
    (List.pairwise_insertionSort _ _) ?_ (hperm.trans (List.reverse_perm _).symm)
  rw [List.pairwise_reverse]
  exact hascending.imp le_of_lt

/-- The end of a log, by positions. -/
lemma end_iff {r : E → E → Prop} :
    ((∀ e ∈ log.rdrop n, ∀ e' ∈ log.rtake n, r e e') ∧ (log.rtake n).Pairwise r)
      ↔ ∀ i j, (hij : i < j) → (hj : j < log.length) → log.length ≤ j + n → r log[i] log[j] := by
  simp only [List.rdrop, List.rtake]
  constructor
  · rintro ⟨habove, hend⟩ i j hij hj hlast
    have hdrop : ∀ k, (hk : k < log.length) → log.length - n ≤ k →
        ∃ hlt, (log.drop (log.length - n)).get ⟨k - (log.length - n), hlt⟩ = log[k] := by
      intro k hk hle
      refine ⟨by rw [List.length_drop]; omega, ?_⟩
      simp only [List.get_eq_getElem, List.getElem_drop]
      congr 1
      omega
    obtain ⟨hltj, hgetj⟩ := hdrop j hj (by omega)
    by_cases hi : i < log.length - n
    · have hmem : log[i] ∈ log.take (log.length - n) :=
        List.mem_take_iff_getElem.mpr ⟨i, by omega, rfl⟩
      rw [← hgetj]
      exact habove _ hmem _ (List.getElem_mem hltj)
    · obtain ⟨hlti, hgeti⟩ := hdrop i (by omega) (by omega)
      rw [← hgetj, ← hgeti]
      exact List.pairwise_iff_getElem.mp hend _ _ hlti hltj (by omega)
  · intro h
    constructor
    · intro e he e' he'
      obtain ⟨i, hi, rfl⟩ := List.mem_take_iff_getElem.mp he
      obtain ⟨j, hj, rfl⟩ := List.mem_drop_iff_getElem.mp he'
      exact h i _ (by omega) (by omega) (by omega)
    · rw [List.pairwise_iff_getElem]
      intro i j hi hj hij
      rw [List.length_drop] at hi hj
      rw [List.getElem_drop, List.getElem_drop]
      exact h _ _ (by omega) (by omega) (by omega)

end Sorted

/-! ### Windows that are read -/

/-- The first `n` from the end, put in order again. -/
lemma reverse_take_reverse : (log.reverse.take n).reverse = log.rtake n :=
  (List.rtake_eq_reverse_take_reverse log n).symm

/-- A window over the values that are read off a log. -/
lemma filterMap_rtake {D : Type*} {f : E → Option D} (hf : ∀ e ∈ log, (f e).isSome) :
    (log.rtake n).filterMap f = (log.filterMap f).rtake n := by
  induction log using List.reverseRecOn generalizing n with
  | nil => simp
  | append_singleton log e ih =>
    obtain ⟨d, hd⟩ := Option.isSome_iff_exists.mp (hf e (by simp))
    have hlog : ∀ e ∈ log, (f e).isSome := fun e he => hf e (List.mem_append_left _ he)
    cases n with
    | zero => simp
    | succ n =>
      have hlast : (log ++ [e]).filterMap f = log.filterMap f ++ [d] := by simp [hd]
      rw [List.rtake_concat_succ, hlast, List.rtake_concat_succ, List.filterMap_append, ih hlog]
      simp [hd]

end Fold
