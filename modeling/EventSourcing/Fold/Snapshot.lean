import Mathlib.Tactic.Common

/-!
# Folding a log from a snapshot

A state is the fold of a log. A snapshot is the state after some of its first elements; it
stays one while the log grows, and folding the rest of the log over it gives the state of the
whole log.
-/

namespace Fold

variable {E S : Type*}

/-- The state after a log. -/
def replay (apply : S → E → S) (init : S) (log : List E) : S := log.foldl apply init

/-- `s` is the state after the first `n` elements of the log. -/
structure Covers (apply : S → E → S) (init : S) (log : List E) (n : ℕ) (s : S) : Prop where
  le : n ≤ log.length
  state : s = replay apply init (log.take n)

variable {apply : S → E → S} {init s : S} {log new : List E} {n : ℕ}

lemma replay_append : replay apply init (log ++ new) = replay apply (replay apply init log) new :=
  List.foldl_append

lemma covers_zero : Covers apply init log 0 init where
  le := Nat.zero_le _
  state := rfl

lemma Covers.append (h : Covers apply init log n s) : Covers apply init (log ++ new) n s where
  le := Nat.le_trans h.le (by simp)
  state := by rw [List.take_append_of_le_length h.le, h.state]

/-- The rest of the log over a snapshot gives the whole. -/
lemma Covers.resume (h : Covers apply init log n s) :
    replay apply s (log.drop n) = replay apply init log := by
  rw [h.state, ← replay_append, List.take_append_drop]

lemma Covers.eq_replay (h : Covers apply init log log.length s) : s = replay apply init log := by
  rw [h.state, List.take_length]

/-- A snapshot of the log so far that goes on with what joins. -/
lemma Covers.snoc (h : Covers apply init log log.length s) (new : List E) :
    Covers apply init (log ++ new) (log ++ new).length (replay apply s new) where
  le := Nat.le_refl _
  state := by rw [List.take_length, replay_append, h.eq_replay]

lemma mapIdx_map {C D : Type*} (f : C → D) (g : ℕ → D → E) (log : List C) :
    (log.map f).mapIdx g = log.mapIdx fun i c => g i (f c) := by
  apply List.ext_getElem <;> simp

lemma map_mapIdx {C D : Type*} (f : ℕ → C → D) (g : D → E) (log : List C) :
    (log.mapIdx f).map g = log.mapIdx fun i c => g (f i c) := by
  apply List.ext_getElem <;> simp

/-- Logs whose elements act alike have the same effect. -/
lemma replay_mapIdx_congr {D : Type*} {f g : ℕ → D → E}
    (hfg : ∀ i d s, apply s (f i d) = apply s (g i d)) (log : List D) :
    replay apply s (log.mapIdx f) = replay apply s (log.mapIdx g) := by
  induction log generalizing f g s with
  | nil => rfl
  | cons d log ih =>
    rw [List.mapIdx_cons, List.mapIdx_cons, replay, replay, List.foldl_cons, List.foldl_cons,
      hfg 0 d s]
    exact ih fun i => hfg (i + 1)

/-- Elements that are skipped may be left out of the log. -/
lemma replay_filterMap {D : Type*} (decode : D → Option E) (log : List D) :
    replay (fun s d => match decode d with | some e => apply s e | none => s) init log
      = replay apply init (log.filterMap decode) := by
  induction log generalizing init with
  | nil => rfl
  | cons d log ih =>
    rw [replay, List.foldl_cons, ← replay, ih, List.filterMap_cons]
    cases decode d <;> rfl

end Fold
