import EventSourcing.Concurrency.Transactions

/-!
# Snapshot isolation

A transaction reads from the snapshot it started with, overlaid by its own writes. Of two
overlapping transactions that write the same item one fails: a write is refused when another
open transaction holds the item, or when a commit has changed the item since the snapshot.

The consequence every read-then-update relies on is `Sound.held_current`: an item that a
transaction holds still contains what the snapshot of that transaction shows.
-/

namespace Concurrency

universe u v w x y

open Items

/-- `modified k` numbers the commit that last wrote `k`, `began t` the last commit in the
snapshot of `t`. -/
structure Snapshots (T : Type y) (D : Type u) (K : Type v) (W : Type w)
    extends Txns T D K W where
  clock : ℕ
  modified : K → ℕ
  began : T → ℕ
  snapshot : T → D

namespace Snapshots

variable {T : Type y} {D : Type u} {K : Type v} {W : Type w}

/-- No transaction is open and none has committed. -/
def idle (d : D) : Snapshots T D K W where
  toTxns := Txns.idle d
  clock := 0
  modified _ := 0
  began _ := 0
  snapshot _ := d

variable [DecidableEq T]

/-- Fix the snapshot of `t`. -/
def start (m : Snapshots T D K W) (t : T) : Snapshots T D K W :=
  { m with
    began := Function.update m.began t m.clock
    snapshot := Function.update m.snapshot t m.db }

def rollback (m : Snapshots T D K W) (t : T) : Snapshots T D K W :=
  { m with toTxns := m.toTxns.rollback t }

variable [Items.{u, v, w, x} D K W]

/-- The database as `t` sees it. -/
def view (m : Snapshots T D K W) (t : T) : D := applyAll (m.snapshot t) (m.writes t)

variable [DecidableEq K]

/-- Add a write to those of `t`, unless one of its targets is in conflict. -/
def write (m : Snapshots T D K W) (t : T) (w : W) : Option (Snapshots T D K W) :=
  if ∀ k ∈ targets D w, m.modified k ≤ m.began t then
    (m.toTxns.write t w).map fun m' => { m with toTxns := m' }
  else none

def commit (m : Snapshots T D K W) (t : T) : Snapshots T D K W :=
  { m with
    toTxns := m.toTxns.commit t
    clock := m.clock + 1
    modified := fun k =>
      if ∃ w ∈ m.writes t, k ∈ targets D w then m.clock + 1 else m.modified k }

/-- What the locks and the commit numbers say about the snapshots. -/
structure Sound (m : Snapshots T D K W) : Prop where
  locked : m.toTxns.Locked
  modified_le : ∀ k, m.modified k ≤ m.clock
  began_le : ∀ t, m.began t ≤ m.clock
  held : ∀ k t, m.holder k = some t → m.modified k ≤ m.began t
  current : ∀ k t, m.modified k ≤ m.began t → read (m.snapshot t) k = read m.db k

variable {m m' : Snapshots T D K W} {t : T} {w : W}

omit [DecidableEq T] [DecidableEq K] in
/-- An item held by `t` contains what the snapshot of `t` shows. -/
lemma Sound.held_current (h : m.Sound) {k : K} (hk : m.holder k = some t) :
    read (m.snapshot t) k = read m.db k :=
  h.current k t (h.held k t hk)

lemma write_eq_some :
    m.write t w = some m' ↔ (∀ k ∈ targets D w, m.modified k ≤ m.began t) ∧
      ∃ x, m.toTxns.write t w = some x ∧ { m with toTxns := x } = m' := by
  simp only [write]
  split_ifs with h
  · simp only [Option.map_eq_some_iff, iff_and_self]
    exact fun _ => h
  · simp [h]

/-! ### Soundness is an invariant -/

omit [DecidableEq T] [DecidableEq K] in
lemma sound_idle (d : D) : (idle d : Snapshots T D K W).Sound where
  locked := Txns.locked_idle d
  modified_le _ := Nat.le_refl _
  began_le _ := Nat.le_refl _
  held _ _ h := by simp [idle, Txns.idle] at h
  current _ _ _ := rfl

omit [DecidableEq K] in
lemma Sound.start (h : m.Sound) (t : T) : (m.start t).Sound where
  locked := h.locked
  modified_le := h.modified_le
  began_le t' := by
    by_cases ht : t' = t
    · simp [Snapshots.start, ht]
    · simpa [Snapshots.start, ht] using h.began_le t'
  held k t' hk := by
    by_cases ht : t' = t
    · simpa [Snapshots.start, ht] using h.modified_le k
    · simpa [Snapshots.start, ht] using h.held k t' hk
  current k t' hk := by
    by_cases ht : t' = t
    · simp [Snapshots.start, ht]
    · simp only [Snapshots.start, Function.update_of_ne ht] at hk ⊢
      exact h.current k t' hk

omit [DecidableEq K] in
lemma Sound.rollback (h : m.Sound) (t : T) : (m.rollback t).Sound where
  locked := h.locked.rollback t
  modified_le := h.modified_le
  began_le := h.began_le
  held k t' hk := by
    by_cases ht : m.holder k = some t
    · simp [Snapshots.rollback, Txns.rollback, ht] at hk
    · exact h.held k t' (by simpa [Snapshots.rollback, Txns.rollback, ht] using hk)
  current := h.current

lemma Sound.write (h : m.Sound) (hw : m.write t w = some m') : m'.Sound := by
  obtain ⟨hmod, x, hx, rfl⟩ := write_eq_some.mp hw
  have hdb := (Txns.wrote_of_write hx).db
  refine ⟨h.locked.write hx, h.modified_le, h.began_le, fun k t' hk => ?_, fun k t' hk => ?_⟩
  · obtain ⟨-, rfl⟩ := Txns.write_eq_some.mp hx
    by_cases hks : k ∈ targets D w
    · obtain rfl : t = t' := by simpa [hks] using hk
      exact hmod k hks
    · exact h.held k t' (by simpa [hks] using hk)
  · simpa only [hdb] using h.current k t' hk

lemma Sound.commit (h : m.Sound) (t : T) : (m.commit t).Sound where
  locked := h.locked.commit t
  modified_le k := by
    have := h.modified_le k
    simp only [Snapshots.commit]
    split_ifs <;> omega
  began_le t' := Nat.le_succ_of_le (h.began_le t')
  held k t' hk := by
    have ht : m.holder k ≠ some t := by
      intro ht
      simp [Snapshots.commit, Txns.commit, Txns.rollback, ht] at hk
    have hk : m.holder k = some t' := by
      simpa [Snapshots.commit, Txns.commit, Txns.rollback, ht] using hk
    -- `t` wrote no item that it does not hold
    have hn : ¬ ∃ w ∈ m.writes t, k ∈ targets D w := by
      rintro ⟨w, hw, hkw⟩
      exact ht (h.locked t w hw k hkw)
    simpa [Snapshots.commit, hn] using h.held k t' hk
  current k t' hk := by
    by_cases hn : ∃ w ∈ m.writes t, k ∈ targets D w
    · -- the commit is later than every snapshot
      have := h.began_le t'
      simp only [Snapshots.commit, if_pos hn] at hk
      omega
    · simp only [Snapshots.commit, if_neg hn] at hk
      have hread : read (applyAll m.db (m.writes t)) k = read m.db k :=
        read_applyAll _ _ _ fun w hw hkw => hn ⟨w, hw, hkw⟩
      simpa [Snapshots.commit, Txns.commit, hread] using h.current k t' hk

/-! ### A write and the snapshot it was computed from -/

/-- After a successful write, the transaction holds each target, and its snapshot is up to date
there. -/
lemma Sound.write_current (h : m.Sound) (hw : m.write t w = some m') {k : K}
    (hk : k ∈ targets D w) : read (m.snapshot t) k = read m.db k := by
  obtain ⟨-, x, hx, rfl⟩ := write_eq_some.mp hw
  have hwrote := Txns.wrote_of_write hx
  exact ((h.write hw).held_current (hwrote.targets k hk)).trans (congrArg (read · k) hwrote.db)

lemma wrote_of_write (hw : m.write t w = some m') :
    Txns.Wrote t w m.toTxns m'.toTxns ∧ m'.snapshot = m.snapshot := by
  obtain ⟨-, x, hx, rfl⟩ := write_eq_some.mp hw
  exact ⟨Txns.wrote_of_write hx, rfl⟩

lemma write_undisturbed {t' : T} (ht : t' ≠ t) (hw : m.write t w = some m') :
    Txns.Undisturbed t' m.toTxns m'.toTxns := by
  obtain ⟨-, x, hx, rfl⟩ := write_eq_some.mp hw
  exact Txns.write_undisturbed ht hx

end Snapshots

end Concurrency
