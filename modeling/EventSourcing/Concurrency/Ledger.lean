import Mathlib.Algebra.Order.Group.Int
import Mathlib.Data.List.Perm.Basic
import Mathlib.Data.List.Perm.Subperm
import Mathlib.Data.List.Nodup

/-!
# Numbers that are stored or held

Calls hold the numbers they have drawn until they store them or give them up. The ledger lists
both; a step of one call changes it by the numbers that call draws or gives up, whatever the
order in which calls store theirs.
-/

namespace Concurrency

open scoped List

variable {C α : Type*}

/-- The stored numbers and those the calls hold. -/
def ledger (held : C → List α) (stored : List α) (calls : List C) : List α :=
  stored ++ calls.flatMap held

variable {held : C → List α} {stored new : List α} {calls : List C} {c c' : C} {k : ℕ} {a : α}

lemma mem_ledger : a ∈ ledger held stored calls ↔
    a ∈ stored ∨ ∃ (k : ℕ) (c : C), calls[k]? = some c ∧ a ∈ held c := by
  simp only [ledger, List.mem_append, List.mem_flatMap]
  refine or_congr_right ⟨?_, ?_⟩
  · rintro ⟨c, hc, ha⟩
    obtain ⟨k, hk⟩ := List.mem_iff_getElem?.mp hc
    exact ⟨k, c, hk, ha⟩
  · rintro ⟨k, c, hk, ha⟩
    exact ⟨c, List.mem_of_getElem? hk, ha⟩

/-- The call at a place after call `k` has moved on. -/
lemma getElem?_set_cases {j : ℕ} {d : C} (h : (calls.set k c)[j]? = some d) :
    (j = k ∧ d = c) ∨ (j ≠ k ∧ calls[j]? = some d) := by
  rw [List.getElem?_set] at h
  split_ifs at h with hj hk
  · exact .inl ⟨hj.symm, (Option.some.inj h).symm⟩
  · exact .inr ⟨Ne.symm hj, h⟩

/-- The call at a place after a call has joined. -/
lemma getElem?_concat_cases {j : ℕ} {d : C} (h : (calls ++ [c])[j]? = some d) :
    (j = calls.length ∧ d = c) ∨ calls[j]? = some d := by
  rw [List.getElem?_append] at h
  split_ifs at h with hj
  · exact .inr h
  · obtain ⟨hlt, heq⟩ := List.getElem?_eq_some_iff.mp h
    rw [List.length_singleton] at hlt
    exact .inl ⟨by omega, by simpa using heq.symm⟩

/-- One call becomes another: its numbers leave and those of the other come. -/
lemma flatMap_set_perm (held : C → List α) (h : calls[k]? = some c) (c' : C) :
    (calls.set k c').flatMap held ++ held c ~ calls.flatMap held ++ held c' := by
  obtain ⟨hk, rfl⟩ := List.getElem?_eq_some_iff.mp h
  have hset : (calls.set k c').flatMap held ~ held c' ++ (calls.eraseIdx k).flatMap held :=
    (List.set_perm_cons_eraseIdx hk c').flatMap_right held
  have hget : calls.flatMap held ~ held calls[k] ++ (calls.eraseIdx k).flatMap held :=
    ((List.getElem_cons_eraseIdx_perm hk).symm).flatMap_right held
  calc (calls.set k c').flatMap held ++ held calls[k]
      ~ (held c' ++ (calls.eraseIdx k).flatMap held) ++ held calls[k] := hset.append_right _
    _ ~ held c' ++ (held calls[k] ++ (calls.eraseIdx k).flatMap held) := by
        rw [List.append_assoc]
        exact List.perm_append_comm.append_left _
    _ ~ held c' ++ calls.flatMap held := hget.symm.append_left _
    _ ~ calls.flatMap held ++ held c' := List.perm_append_comm

lemma ledger_start (hc : held c = []) :
    ledger held stored (calls ++ [c]) = ledger held stored calls := by
  simp [ledger, hc]

/-- A call draws `new`. -/
lemma ledger_draw (h : calls[k]? = some c) (hc : held c' ~ held c ++ new) :
    ledger held stored (calls.set k c') ~ ledger held stored calls ++ new := by
  rw [ledger, ledger, List.append_assoc]
  refine List.Perm.append_left stored ?_
  rw [← List.perm_append_right_iff (held c)]
  calc (calls.set k c').flatMap held ++ held c ~ calls.flatMap held ++ held c' :=
        flatMap_set_perm held h c'
    _ ~ calls.flatMap held ++ (new ++ held c) := (hc.trans List.perm_append_comm).append_left _
    _ = calls.flatMap held ++ new ++ held c := (List.append_assoc ..).symm

/-- A call moves on with the numbers it holds. -/
lemma ledger_keep (h : calls[k]? = some c) (hc : held c' = held c) :
    ledger held stored (calls.set k c') ~ ledger held stored calls := by
  have hperm : ledger held stored (calls.set k c') ~ ledger held stored calls ++ [] :=
    ledger_draw h (by rw [hc, List.append_nil])
  rwa [List.append_nil] at hperm

/-- A call stores all its numbers. -/
lemma ledger_store (h : calls[k]? = some c) (hc : held c' = []) :
    ledger held (stored ++ held c) (calls.set k c') ~ ledger held stored calls := by
  rw [ledger, ledger, List.append_assoc]
  refine List.Perm.append_left stored ?_
  calc held c ++ (calls.set k c').flatMap held ~ (calls.set k c').flatMap held ++ held c :=
        List.perm_append_comm
    _ ~ calls.flatMap held ++ held c' := flatMap_set_perm held h c'
    _ = calls.flatMap held := by rw [hc, List.append_nil]

/-- A call gives its numbers up. -/
lemma ledger_drop (h : calls[k]? = some c) (hc : held c' = []) :
    ledger held stored (calls.set k c') <+~ ledger held stored calls := by
  have hstored : ledger held stored (calls.set k c')
      <+~ ledger held (stored ++ held c) (calls.set k c') := by
    rw [ledger, ledger, List.append_assoc]
    exact ((List.sublist_append_right ..).append_left _).subperm
  exact hstored.trans (ledger_store h hc).subperm

/-- Two calls hold different numbers. -/
lemma ledger_apart {j : ℕ} {d : C} (h : (ledger held stored calls).Nodup)
    (hk : calls[k]? = some c) (hj : calls[j]? = some d) (hne : j ≠ k) (ha : a ∈ held c) :
    a ∉ held d := by
  obtain ⟨hkl, rfl⟩ := List.getElem?_eq_some_iff.mp hk
  obtain ⟨hjl, rfl⟩ := List.getElem?_eq_some_iff.mp hj
  have hpairwise := (List.nodup_flatMap.mp (List.nodup_append.mp h).2.1).2
  rw [List.pairwise_iff_getElem] at hpairwise
  intro ha'
  rcases Nat.lt_or_gt_of_ne hne with hlt | hlt
  · exact hpairwise j k hjl hkl hlt ha' ha
  · exact hpairwise k j hkl hjl hlt ha ha'

/-! ### Numbers drawn from a sequence -/

/-- Each number was drawn above those drawn before it; all lie above `lo`, and `hi` is the last
one. -/
structure Drawn (held : C → List ℤ) (lo hi : ℤ) (stored : List ℤ) (calls : List C) : Prop where
  le : lo ≤ hi
  nodup : (ledger held stored calls).Nodup
  mem : ∀ g ∈ ledger held stored calls, lo < g ∧ g ≤ hi

namespace Drawn

variable {held : C → List ℤ} {lo hi hi' : ℤ} {stored new : List ℤ}

lemma mono {stored' : List ℤ} {calls' : List C} (h : Drawn held lo hi stored calls)
    (hsub : ledger held stored' calls' <+~ ledger held stored calls) :
    Drawn held lo hi stored' calls' where
  le := h.le
  nodup := by
    obtain ⟨l, hperm, hsublist⟩ := hsub
    exact hperm.nodup_iff.mp (h.nodup.sublist hsublist)
  mem g hg := h.mem g (hsub.subset hg)

lemma start (h : Drawn held lo hi stored calls) (hc : held c = []) :
    Drawn held lo hi stored (calls ++ [c]) :=
  h.mono (by rw [ledger_start hc])

lemma keep (h : Drawn held lo hi stored calls) (hk : calls[k]? = some c)
    (hc : held c' = held c) : Drawn held lo hi stored (calls.set k c') :=
  h.mono (ledger_keep hk hc).subperm

lemma store (h : Drawn held lo hi stored calls) (hk : calls[k]? = some c) (hc : held c' = []) :
    Drawn held lo hi (stored ++ held c) (calls.set k c') :=
  h.mono (ledger_store hk hc).subperm

lemma drop (h : Drawn held lo hi stored calls) (hk : calls[k]? = some c) (hc : held c' = []) :
    Drawn held lo hi stored (calls.set k c') :=
  h.mono (ledger_drop hk hc)

/-- A call draws numbers above the last one. -/
lemma draw (h : Drawn held lo hi stored calls) (hk : calls[k]? = some c)
    (hc : held c' ~ held c ++ new) (hnodup : new.Nodup) (hle : hi ≤ hi')
    (hnew : ∀ g ∈ new, hi < g ∧ g ≤ hi') : Drawn held lo hi' stored (calls.set k c') := by
  have hperm : ledger held stored (calls.set k c') ~ ledger held stored calls ++ new :=
    ledger_draw hk hc
  refine ⟨h.le.trans hle, hperm.nodup_iff.mpr ?_, fun g hg => ?_⟩
  · refine List.nodup_append.mpr ⟨h.nodup, hnodup, ?_⟩
    intro g hg g' hg' heq
    have hbefore := (h.mem g hg).2
    have hafter := (hnew g' hg').1
    omega
  · rcases List.mem_append.mp (hperm.subset hg) with hmem | hmem
    · exact ⟨(h.mem g hmem).1, (h.mem g hmem).2.trans hle⟩
    · exact ⟨h.le.trans_lt (hnew g hmem).1, (hnew g hmem).2⟩

lemma nodup_stored (h : Drawn held lo hi stored calls) : stored.Nodup :=
  h.nodup.sublist (List.sublist_append_left ..)

end Drawn

/-! ### Consecutive numbers -/

/-- The numbers from `start` on, `n` of them. -/
def numbers (start : ℤ) (n : ℕ) : List ℤ := (List.range n).map fun i : ℕ => start + i

lemma mem_numbers {start g : ℤ} {n : ℕ} : g ∈ numbers start n ↔ start ≤ g ∧ g < start + n := by
  simp only [numbers, List.mem_map, List.mem_range]
  constructor
  · rintro ⟨i, hi, rfl⟩
    omega
  · intro h
    exact ⟨(g - start).toNat, by omega, by omega⟩

lemma nodup_numbers (start : ℤ) (n : ℕ) : (numbers start n).Nodup := by
  refine List.nodup_range.map ?_
  intro i j hij
  dsimp only at hij
  omega

@[simp] lemma length_numbers (start : ℤ) (n : ℕ) : (numbers start n).length = n := by
  simp [numbers]

lemma numbers_succ (start : ℤ) (n : ℕ) :
    numbers start (n + 1) = numbers start n ++ [start + n] := by
  rw [numbers, List.range_succ, List.map_append]
  rfl

/-- The numbers go on where they end. -/
lemma numbers_append (start : ℤ) (m n : ℕ) :
    numbers start m ++ numbers (start + m) n = numbers start (m + n) := by
  simp only [numbers, List.range_add, List.map_append, List.map_map]
  congr 2
  funext i
  simp [Int.add_assoc]

/-- The first of the numbers. -/
lemma eq_numbers_of_prefix {start : ℤ} {n : ℕ} {l : List ℤ} (h : l <+: numbers start n) :
    l = numbers start l.length := by
  have hle : l.length ≤ n := by simpa using h.length_le
  rw [List.prefix_iff_eq_take] at h
  rw [numbers, ← List.map_take, List.take_range, Nat.min_eq_left hle] at h
  exact h

lemma numbers_inj {start start' : ℤ} {n : ℕ} :
    numbers start n = numbers start' n ↔ n = 0 ∨ start = start' := by
  constructor
  · intro h
    cases n with
    | zero => exact .inl rfl
    | succ n =>
      rw [numbers_succ, numbers_succ] at h
      have hlast := (List.append_inj' h rfl).2
      exact .inr (by simpa using hlast)
  · rintro (rfl | rfl) <;> rfl

end Concurrency
