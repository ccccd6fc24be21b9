import Mathlib.Logic.Function.Basic
import Mathlib.Tactic.Common

/-!
# Transactions under exclusive locks

A database is made of items (documents, rows, index entries) that writes change. A
transaction collects its writes and locks the items they target; its commit applies them all
at once, its rollback none of them, and both release the locks.

What a transaction relies on is `Txns.Undisturbed`: no operation of another transaction
touches an item it holds. Everything a store proves about a value it read and then updated
under a lock (`Txns.Holds`) rests on `write_undisturbed`, `commit_undisturbed` and
`rollback_undisturbed`.
-/

namespace Concurrency

universe u v w x y

/-- A database `D` of items named by `K`, and the writes `W` that change it. -/
class Items (D : Type u) (K : outParam (Type v)) (W : outParam (Type w)) where
  /-- what an item holds -/
  Content : K → Type x
  read : D → (k : K) → Content k
  apply : D → W → D
  /-- the items a write locks -/
  targets : W → List K
  read_apply : ∀ d w k, k ∉ targets w → read (apply d w) k = read d k

namespace Items

variable {D : Type u} {K : Type v} {W : Type w} [Items.{u, v, w, x} D K W]

/-- Apply the writes of a transaction in order. -/
def applyAll (d : D) (ws : List W) : D := ws.foldl apply d

@[simp] lemma applyAll_nil (d : D) : applyAll d ([] : List W) = d := rfl

@[simp] lemma applyAll_cons (d : D) (w : W) (ws : List W) :
    applyAll d (w :: ws) = applyAll (apply d w) ws := rfl

/-- Writes leave the items they do not target alone. -/
lemma read_applyAll (d : D) (ws : List W) (k : K) (h : ∀ w ∈ ws, k ∉ targets D w) :
    read (applyAll d ws) k = read d k := by
  induction ws generalizing d with
  | nil => rfl
  | cons w ws ih =>
    rw [applyAll_cons, ih _ fun w' hw' => h w' (List.mem_cons_of_mem w hw')]
    exact read_apply d w k (h w List.mem_cons_self)

end Items

open Items

/-- Committed content, the transaction that holds each item, and the writes each
transaction has not committed yet. -/
structure Txns (T : Type y) (D : Type u) (K : Type v) (W : Type w) where
  db : D
  holder : K → Option T
  writes : T → List W

namespace Txns

variable {T : Type y} {D : Type u} {K : Type v} {W : Type w}

/-- No transaction is open. -/
def idle (d : D) : Txns T D K W where
  db := d
  holder _ := none
  writes _ := []

/-- No transaction other than `t` holds `k`. -/
def FreeFor (m : Txns T D K W) (t : T) (k : K) : Prop :=
  m.holder k = none ∨ m.holder k = some t

instance [DecidableEq T] (m : Txns T D K W) (t : T) (k : K) : Decidable (m.FreeFor t k) :=
  inferInstanceAs (Decidable (_ ∨ _))

/-! ### Operations -/

variable [DecidableEq T]

/-- Release what `t` holds and drop its writes. -/
def rollback (m : Txns T D K W) (t : T) : Txns T D K W :=
  { m with
    holder := fun k => if m.holder k = some t then none else m.holder k
    writes := Function.update m.writes t [] }

/-- Lock items for `t`, if no other transaction holds one of them. -/
def lock [DecidableEq K] (m : Txns T D K W) (t : T) (ks : List K) : Option (Txns T D K W) :=
  if ∀ k ∈ ks, m.FreeFor t k then
    some { m with holder := fun k => if k ∈ ks then some t else m.holder k }
  else none

variable {m m' : Txns T D K W} {t t' : T}

@[simp] lemma rollback_db : (m.rollback t).db = m.db := rfl

@[simp] lemma rollback_writes_self : (m.rollback t).writes t = [] := by
  simp [rollback]

@[simp] lemma holder_rollback_ne (k : K) : (m.rollback t).holder k ≠ some t := by
  simp only [rollback]
  split_ifs with h
  · simp
  · exact h

/-- From `m` to `m'` the transaction `t` takes no item. -/
def TakesNone (t : T) (m m' : Txns T D K W) : Prop :=
  ∀ k, m'.holder k = some t → m.holder k = some t

omit [DecidableEq T] in
lemma TakesNone.refl (t : T) (m : Txns T D K W) : TakesNone t m m := fun _ h => h

lemma rollback_takesNone : TakesNone t' m (m.rollback t) := by
  intro k hk
  simp only [rollback] at hk
  split_ifs at hk
  exact hk

section

variable [DecidableEq K] {ks : List K}

lemma lock_eq_some :
    m.lock t ks = some m' ↔ (∀ k ∈ ks, m.FreeFor t k) ∧
      { m with holder := fun k => if k ∈ ks then some t else m.holder k } = m' := by
  simp only [lock]
  split_ifs with h
  · simp only [Option.some.injEq, iff_and_self]
    exact fun _ => h
  · simp [h]

omit [DecidableEq T] in
/-- Locking keeps what any transaction already held. -/
lemma holder_of_free (hfree : ∀ k ∈ ks, m.FreeFor t k) {k : K}
    (hk : m.holder k = some t') :
    (if k ∈ ks then some t else m.holder k) = some t' := by
  split_ifs with hks
  · rcases hfree k hks with hf | hf
    · simp [hf] at hk
    · rw [← hf, hk]
  · exact hk

lemma lock_takesNone (ht : t' ≠ t) (hl : m.lock t ks = some m') : TakesNone t' m m' := by
  obtain ⟨-, rfl⟩ := lock_eq_some.mp hl
  intro k hk
  simp only at hk
  split_ifs at hk
  · exact absurd (Option.some.inj hk).symm ht
  · exact hk

end

variable [Items.{u, v, w, x} D K W]

/-- Apply the writes of `t` and release what it holds. -/
def commit (m : Txns T D K W) (t : T) : Txns T D K W :=
  { m.rollback t with db := applyAll m.db (m.writes t) }

/-- Lock the targets of a write and add it to the writes of `t`. -/
def write [DecidableEq K] (m : Txns T D K W) (t : T) (w : W) : Option (Txns T D K W) :=
  (m.lock t (targets D w)).map fun m' =>
    { m' with writes := Function.update m'.writes t (m'.writes t ++ [w]) }

omit [DecidableEq T] in
/-- The database as `t` sees it: the latest committed content under its own writes. -/
def view (m : Txns T D K W) (t : T) : D := applyAll m.db (m.writes t)

/-- Every uncommitted write holds its targets. -/
def Locked (m : Txns T D K W) : Prop :=
  ∀ t, ∀ w ∈ m.writes t, ∀ k ∈ targets D w, m.holder k = some t

/-- From `m` to `m'` the writes of `t`, the items it holds and what they contain stay. -/
structure Undisturbed (t : T) (m m' : Txns T D K W) : Prop where
  writes : m'.writes t = m.writes t
  holder : ∀ k, m.holder k = some t → m'.holder k = some t
  read : ∀ k, m.holder k = some t → read m'.db k = read m.db k

/-- `t` holds item `k`, whose content is as `p` says. -/
structure Holds (m : Txns T D K W) (t : T) (k : K) (p : Content D k → Prop) : Prop where
  holder : m.holder k = some t
  content : p (read m.db k)

/-! ### Commit and rollback -/

omit [DecidableEq T] in
lemma locked_idle (d : D) : (idle d : Txns T D K W).Locked := by
  simp [Locked, idle]

omit [DecidableEq T] in
lemma Undisturbed.refl (t : T) (m : Txns T D K W) : Undisturbed t m m :=
  ⟨rfl, fun _ h => h, fun _ _ => rfl⟩

omit [DecidableEq T] in
lemma Undisturbed.trans {t : T} {m m' m'' : Txns T D K W} (h : Undisturbed t m m')
    (h' : Undisturbed t m' m'') : Undisturbed t m m'' :=
  ⟨h'.writes.trans h.writes, fun k hk => h'.holder k (h.holder k hk),
    fun k hk => (h'.read k (h.holder k hk)).trans (h.read k hk)⟩

omit [DecidableEq T] in
/-- What a transaction holds stays as it is until that transaction ends. -/
lemma Holds.undisturbed {k : K} {p : Content D k → Prop} (h : m.Holds t k p)
    (hu : Undisturbed t m m') : m'.Holds t k p :=
  ⟨hu.holder k h.holder, by rw [hu.read k h.holder]; exact h.content⟩

@[simp] lemma commit_db : (m.commit t).db = applyAll m.db (m.writes t) := rfl

@[simp] lemma commit_writes_self : (m.commit t).writes t = [] := by
  simp [commit]

lemma Locked.rollback (h : m.Locked) (t : T) : (m.rollback t).Locked := by
  intro t' w hw k hk
  by_cases ht : t' = t
  · subst ht
    simp at hw
  · have hw : w ∈ m.writes t' := by simpa [Txns.rollback, ht] using hw
    simp [Txns.rollback, h t' w hw k hk, ht]

lemma Locked.commit (h : m.Locked) (t : T) : (m.commit t).Locked :=
  h.rollback t

lemma rollback_undisturbed (ht : t' ≠ t) : Undisturbed t' m (m.rollback t) :=
  ⟨by simp [rollback, ht], fun k hk => by simp [rollback, hk, ht], fun _ _ => rfl⟩

lemma commit_undisturbed (h : m.Locked) (ht : t' ≠ t) : Undisturbed t' m (m.commit t) := by
  refine ⟨by simp [commit, rollback, ht], fun k hk => by simp [commit, rollback, hk, ht],
    fun k hk => ?_⟩
  refine read_applyAll _ _ _ fun w hw hkw => ht ?_
  -- an item `t` writes is held by `t`
  simpa [hk] using h t w hw k hkw

lemma commit_takesNone : TakesNone t' m (m.commit t) := rollback_takesNone

@[simp] lemma holder_commit_ne (k : K) : (m.commit t).holder k ≠ some t := holder_rollback_ne k

/-! ### Locks and writes -/

section

variable [DecidableEq K]

lemma write_eq_some {w : W} :
    m.write t w = some m' ↔ (∀ k ∈ targets D w, m.FreeFor t k) ∧
      { db := m.db
        holder := fun k => if k ∈ targets D w then some t else m.holder k
        writes := Function.update m.writes t (m.writes t ++ [w]) } = m' := by
  simp only [write, Option.map_eq_some_iff, lock_eq_some]
  constructor
  · rintro ⟨_, ⟨h, rfl⟩, rfl⟩
    exact ⟨h, rfl⟩
  · rintro ⟨h, rfl⟩
    exact ⟨_, ⟨h, rfl⟩, rfl⟩

lemma Locked.lock {ks : List K} (h : m.Locked) (hl : m.lock t ks = some m') : m'.Locked := by
  obtain ⟨hfree, rfl⟩ := lock_eq_some.mp hl
  exact fun t' w hw k hk => holder_of_free hfree (h t' w hw k hk)

lemma Locked.write {w : W} (h : m.Locked) (hw : m.write t w = some m') : m'.Locked := by
  obtain ⟨hfree, rfl⟩ := write_eq_some.mp hw
  intro t' w' hw' k hk
  by_cases ht : t' = t
  · subst ht
    rcases List.mem_append.mp (by simpa using hw' : w' ∈ m.writes t' ++ [w]) with hw' | hw'
    · exact holder_of_free hfree (h t' w' hw' k hk)
    · obtain rfl : w' = w := by simpa using hw'
      simp [hk]
  · have hw' : w' ∈ m.writes t' := by simpa [ht] using hw'
    exact holder_of_free hfree (h t' w' hw' k hk)

lemma lock_undisturbed {ks : List K} (hl : m.lock t ks = some m') : Undisturbed t' m m' := by
  obtain ⟨hfree, rfl⟩ := lock_eq_some.mp hl
  exact ⟨rfl, fun k hk => holder_of_free hfree hk, fun _ _ => rfl⟩

lemma write_undisturbed {w : W} (ht : t' ≠ t) (hw : m.write t w = some m') :
    Undisturbed t' m m' := by
  obtain ⟨hfree, rfl⟩ := write_eq_some.mp hw
  exact ⟨by simp [ht], fun k hk => holder_of_free hfree hk, fun _ _ => rfl⟩

lemma write_takesNone {w : W} (ht : t' ≠ t) (hw : m.write t w = some m') :
    TakesNone t' m m' := by
  obtain ⟨m₁, hl, rfl⟩ := Option.map_eq_some_iff.mp hw
  exact fun k hk => lock_takesNone ht hl k hk

/-- The items a transaction holds after a write: those it held and the targets. -/
lemma holder_of_write {w : W} (hw : m.write t w = some m') {k : K}
    (hk : m'.holder k = some t) : k ∈ targets D w ∨ m.holder k = some t := by
  obtain ⟨-, rfl⟩ := write_eq_some.mp hw
  simp only at hk
  split_ifs at hk with hmem
  · exact .inl hmem
  · exact .inr hk

/-- A write holds its targets and is the last of the writes of its transaction. -/
structure Wrote (t : T) (w : W) (m m' : Txns T D K W) : Prop where
  db : m'.db = m.db
  writes : m'.writes t = m.writes t ++ [w]
  targets : ∀ k ∈ targets D w, m'.holder k = some t
  holder : ∀ k t', m.holder k = some t' → m'.holder k = some t'

omit [DecidableEq T] [DecidableEq K] in
lemma Holds.wrote {w : W} {k : K} {p : Content D k → Prop} (h : m.Holds t k p)
    (hw : Wrote t' w m m') : m'.Holds t k p :=
  ⟨hw.holder k t h.holder, by rw [hw.db]; exact h.content⟩

lemma wrote_of_write {w : W} (hw : m.write t w = some m') : Wrote t w m m' := by
  obtain ⟨hfree, rfl⟩ := write_eq_some.mp hw
  exact ⟨rfl, by simp, fun k hk => by simp [hk], fun k _ hk => holder_of_free hfree hk⟩

end

end Txns

end Concurrency
