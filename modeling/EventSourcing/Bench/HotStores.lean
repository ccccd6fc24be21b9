import EventSourcing.Bench.Contention

/-!
# The contention phase on a store

The tasks of the contention phase append to a store, and the store decides how their attempts
end. Nothing but `hot_revisions` tells a task where a hot stream ends; but no task ever moves it
ahead of the stream, so whatever rule the store checks an append by, the events of the tasks go on
where the stream has ended (`HotStore.Laws.sound`). When all tasks have ended, `total_events` is
what the store has gained, but for events of writes that did not return `Ok` (`stored_eq`).
-/

namespace EventSourcing.Bench.Contention

open Concurrency Tally

/-- A store as the tasks meet it. `E` is what decides how a statement ends, where the data do
not. -/
structure HotStore (D E : Type) where
  /-- an append to a hot stream under an expected revision -/
  append : D → ℕ → UInt64 → E → D × Attempt × UInt64
  /-- the read after a conflict -/
  reread : D → ℕ → E → Option (Option UInt64)
  /-- a write to a cold stream, and whether it returns `Ok` -/
  appendCold : D → ℕ → E → D × Bool
  /-- how many events are stored -/
  size : D → ℕ

structure Stored (D : Type) where
  bench : State
  data : D
  /-- history: how many events were stored by writes that did not return `Ok` -/
  lost : ℕ

inductive StoreAction (E : Type) where
  | bench (a : Action)
  | append (k : ℕ) (e : E)
  | reread (k : ℕ) (e : E)
  | appendCold (k coldIdx : ℕ) (e : E)

/-- The steps in which the store has no part. -/
def Action.isLocal : Action → Bool
  | .step _ (.append _ _) | .step _ (.reread _) | .step _ (.appendCold _) => false
  | _ => true

namespace Stored

variable {D E : Type} (store : HotStore D E) (B : Backend) (config : Config) (σ : Stored D)

/-- The data after a write, and the event in them that its task does not know of. -/
def wrote (bench : State) (data : D) (ok : Bool) : Stored D where
  bench := bench
  data := data
  lost := if ok then σ.lost else σ.lost + (store.size data - store.size σ.data)

def next : StoreAction E → Option (Stored D)
  | .bench a =>
    if a.isLocal then (σ.bench.next B config a).map fun bench => { σ with bench := bench } else none
  | .append k e =>
    match (σ.bench.permits.tasks[k]?).map Task.point with
    | some (.appending hotIdx _ expected) =>
      let (data, outcome, answer) := store.append σ.data hotIdx expected e
      (σ.bench.next B config (.step k (.append outcome answer))).map fun bench =>
        σ.wrote store bench data (decide (outcome = .success))
    | _ => none
  | .reread k e =>
    match (σ.bench.permits.tasks[k]?).map Task.point with
    | some (.rereading hotIdx _) =>
      (σ.bench.next B config (.step k (.reread (store.reread σ.data hotIdx e)))).map
        fun bench => { σ with bench := bench }
    | _ => none
  | .appendCold k coldIdx e =>
    if coldIdx < (max config.coldStreams 1).toNat then
      let (data, ok) := store.appendCold σ.data coldIdx e
      (σ.bench.next B config (.step k (.appendCold ok))).map fun bench =>
        σ.wrote store bench data ok
    else none

end Stored

/-- The phase on a store, from given data and revisions on. -/
def contentionOn {D E : Type} (store : HotStore D E) (B : Backend) (config : Config) (data : D)
    (hotRevisions : ℕ → UInt64) : System (Stored D) (StoreAction E) where
  init σ := (contention B config).init σ.bench ∧ σ.bench.hotRevisions = hotRevisions ∧
    σ.data = data ∧ σ.lost = 0
  next := Stored.next store B config

/-! ### What a store promises -/

/-- Data with as many events as a `BIGINT` can count. -/
def HotStore.Small {D E : Type} (store : HotStore D E) (data : D) : Prop :=
  store.size data < 2 ^ 63

/-- `Inv` holds of the data, and `bound` is where a hot stream ends: an append under a revision that
is not ahead of it does not leave one that is. -/
structure HotStore.Laws {D E : Type} (store : HotStore D E) (B : Backend) (Inv : D → Prop)
    (bound : D → ℕ → ℕ) : Prop where
  append_le : ∀ {d i expected e d' outcome answer},
    store.append d i expected e = (d', outcome, answer) → store.size d ≤ store.size d'
  appendCold_le : ∀ {d j e d' ok}, store.appendCold d j e = (d', ok) →
    store.size d ≤ store.size d'
  append : ∀ {d i expected e d' outcome answer}, Inv d → expected.toNat ≤ bound d i →
    store.Small d' → store.append d i expected e = (d', outcome, answer) → Inv d' ∧
      (∀ j, bound d j ≤ bound d' j) ∧
      ((store.size d' = store.size d ∧ outcome ≠ .success) ∨
        (store.size d' = store.size d + 1 ∧
          (outcome = .success → (B.advance expected answer).toNat ≤ bound d' i)))
  reread : ∀ {d i e revision}, Inv d → store.Small d →
    B.resync (store.reread d i e) = some revision → revision.toNat ≤ bound d i
  appendCold : ∀ {d j e d' ok}, Inv d → store.appendCold d j e = (d', ok) → Inv d' ∧
    (∀ j, bound d j ≤ bound d' j) ∧ (store.size d' = store.size d + 1 ∨
      (store.size d' = store.size d ∧ ok = false))

/-! ### The invariant -/

/-- What a task knows of the end of a stream is not ahead of it. -/
def Task.Behind (bound : ℕ → ℕ) (t : Task) : Prop :=
  match t.point with
  | .appending hotIdx _ expected => expected.toNat ≤ bound hotIdx
  | .advancing hotIdx _ _ next => next.toNat ≤ bound hotIdx
  | .storing hotIdx _ revision => revision.toNat ≤ bound hotIdx
  | _ => True

/-- The shared revisions are not ahead of the streams, and no task is. -/
structure State.Behind (bound : ℕ → ℕ) (σ : State) : Prop where
  revisions : ∀ i, (σ.hotRevisions i).toNat ≤ bound i
  tasks : ∀ t ∈ σ.permits.tasks, t.Behind bound

section Behind

variable {B : Backend} {config : Config} {bound bound' : ℕ → ℕ} {t t' : Task}
  {revisions revisions' : ℕ → UInt64} {s : TaskStep} {σ σ' : State} {a : Action}

lemma Task.Behind.mono (h : t.Behind bound) (hle : ∀ i, bound i ≤ bound' i) :
    t.Behind bound' := by
  simp only [Task.Behind] at h ⊢
  split
  · rename_i hpoint
    simp only [hpoint] at h
    exact h.trans (hle _)
  · rename_i hpoint
    simp only [hpoint] at h
    exact h.trans (hle _)
  · rename_i hpoint
    simp only [hpoint] at h
    exact h.trans (hle _)
  · trivial

lemma State.Behind.mono (h : σ.Behind bound) (hle : ∀ i, bound i ≤ bound' i) :
    σ.Behind bound' :=
  ⟨fun i => (h.revisions i).trans (hle i), fun t ht => (h.tasks t ht).mono hle⟩

/-- The event of a task that is about to count it. -/
def Point.uncounted : Point → ℕ
  | advancing .. => 1
  | _ => 0

/-- The events a task knows to be stored: it has come to count them, or is about to. -/
def Task.acked (t : Task) : ℕ := amount .totalEvents t.issued + t.point.uncounted

/-- The events a step of a task learns to be stored. -/
def TaskStep.gain : TaskStep → ℕ
  | .append .success _ => 1
  | .appendCold true => 1
  | _ => 0

lemma acked_goto (point : Point) (write : Write) (adds : List (Counter × ℕ)) :
    (t.goto point write adds).acked
      = amount .totalEvents t.issued + amount .totalEvents adds + point.uncounted := by
  rw [Task.acked, goto_issued, amount_append]
  rfl

lemma continueLoop_spec {hotIdx attempt : ℕ} : (t.continueLoop config hotIdx attempt).Behind bound ∧
    (t.continueLoop config hotIdx attempt).acked = amount .totalEvents t.issued := by
  rw [Task.continueLoop]
  split_ifs
  · exact ⟨trivial, acked_goto ..⟩
  · exact ⟨trivial, acked_goto ..⟩

/-- A step takes no task and no revision ahead of the streams, where an answer of the store does
not. -/
lemma next_spec (hrevisions : ∀ i, (revisions i).toNat ≤ bound i) (ht : t.Behind bound)
    (hs : t.next B config revisions s = some (revisions', t'))
    (happend : ∀ hotIdx attempt expected answer, t.point = .appending hotIdx attempt expected →
      s = .append .success answer → (B.advance expected answer).toNat ≤ bound hotIdx)
    (hreread : ∀ hotIdx attempt result revision, t.point = .rereading hotIdx attempt →
      s = .reread result → B.resync result = some revision → revision.toNat ≤ bound hotIdx) :
    (∀ i, (revisions' i).toNat ≤ bound i) ∧ t'.Behind bound ∧ t'.acked = t.acked + s.gain := by
  cases s with
  | pick isHot hotIdx coldIdx =>
    simp only [Task.next] at hs
    split at hs
    · rename_i hpoint
      split_ifs at hs
      · obtain ⟨rfl, rfl⟩ := Prod.mk.inj (Option.some.inj hs)
        exact ⟨hrevisions, trivial, by rw [acked_goto, Task.acked, hpoint]; rfl⟩
      · obtain ⟨rfl, rfl⟩ := Prod.mk.inj (Option.some.inj hs)
        exact ⟨hrevisions, trivial, by rw [acked_goto, Task.acked, hpoint]; rfl⟩
    · cases hs
  | load =>
    simp only [Task.next] at hs
    split at hs
    · rename_i hpoint
      obtain ⟨rfl, rfl⟩ := Prod.mk.inj (Option.some.inj hs)
      exact ⟨hrevisions, hrevisions _, by rw [acked_goto, Task.acked, hpoint]; rfl⟩
    · cases hs
  | append outcome answer =>
    simp only [Task.next] at hs
    split at hs
    · rename_i hpoint
      cases outcome with
      | success =>
        obtain ⟨rfl, rfl⟩ := Prod.mk.inj (Option.some.inj hs)
        exact ⟨hrevisions, happend _ _ _ _ hpoint rfl,
          by rw [acked_goto, Task.acked, hpoint]; rfl⟩
      | conflict =>
        obtain ⟨rfl, rfl⟩ := Prod.mk.inj (Option.some.inj hs)
        exact ⟨hrevisions, trivial, by rw [acked_goto, Task.acked, hpoint]; rfl⟩
      | otherError =>
        obtain ⟨rfl, rfl⟩ := Prod.mk.inj (Option.some.inj hs)
        exact ⟨hrevisions, trivial, by rw [acked_goto, Task.acked, hpoint]; rfl⟩
    · cases hs
  | exchange =>
    simp only [Task.next] at hs
    split at hs
    · rename_i hpoint
      obtain ⟨rfl, rfl⟩ := Prod.mk.inj (Option.some.inj hs)
      simp only [Task.Behind, hpoint] at ht
      refine ⟨fun i => ?_, trivial, by rw [acked_goto, Task.acked, hpoint, amount_successAdds]; rfl⟩
      split_ifs
      · rw [Function.update_apply]
        split_ifs with hi
        · exact hi ▸ ht
        · exact hrevisions i
      · exact hrevisions i
    · cases hs
  | reread result =>
    simp only [Task.next] at hs
    split at hs
    · rename_i hpoint
      split at hs
      · rename_i hresync
        obtain ⟨rfl, rfl⟩ := Prod.mk.inj (Option.some.inj hs)
        exact ⟨hrevisions, hreread _ _ _ _ hpoint rfl hresync,
          by rw [acked_goto, Task.acked, hpoint]; rfl⟩
      · obtain ⟨rfl, rfl⟩ := Prod.mk.inj (Option.some.inj hs)
        obtain ⟨hbehind, hacked⟩ := continueLoop_spec
        exact ⟨hrevisions, hbehind, by rw [hacked, Task.acked, hpoint]; rfl⟩
    · cases hs
  | store =>
    simp only [Task.next] at hs
    split at hs
    · rename_i hpoint
      obtain ⟨rfl, rfl⟩ := Prod.mk.inj (Option.some.inj hs)
      obtain ⟨hbehind, hacked⟩ := continueLoop_spec
      simp only [Task.Behind, hpoint] at ht
      refine ⟨fun i => ?_, hbehind, by rw [hacked, Task.acked, hpoint]; rfl⟩
      rw [Function.update_apply]
      split_ifs with hi
      · exact hi ▸ ht
      · exact hrevisions i
    · cases hs
  | appendCold ok =>
    simp only [Task.next] at hs
    split at hs
    · rename_i hpoint
      obtain ⟨rfl, rfl⟩ := Prod.mk.inj (Option.some.inj hs)
      refine ⟨hrevisions, trivial, ?_⟩
      cases ok <;> rw [acked_goto, Task.acked, hpoint] <;> rfl
    · cases hs
  | exit =>
    simp only [Task.next] at hs
    split at hs
    · rename_i hpoint
      obtain ⟨rfl, rfl⟩ := Prod.mk.inj (Option.some.inj hs)
      exact ⟨hrevisions, trivial, by rw [acked_goto, Task.acked, hpoint]; rfl⟩
    · cases hs

/-- What the tasks know to be stored. -/
def State.acked (σ : State) : ℕ := sumOver Task.acked σ.permits.tasks

/-- The step of a task. -/
lemma step_spec {k : ℕ} (h : σ.Behind bound) (hs : σ.next B config (.step k s) = some σ')
    (happend : ∀ hotIdx attempt expected answer,
      (σ.permits.tasks[k]?).map Task.point = some (.appending hotIdx attempt expected) →
      s = .append .success answer → (B.advance expected answer).toNat ≤ bound hotIdx)
    (hreread : ∀ hotIdx attempt result revision,
      (σ.permits.tasks[k]?).map Task.point = some (.rereading hotIdx attempt) →
      s = .reread result → B.resync result = some revision → revision.toNat ≤ bound hotIdx) :
    σ'.Behind bound ∧ σ'.acked = σ.acked + s.gain := by
  simp only [State.next] at hs
  split at hs
  · rename_i t hk
    split_ifs at hs
    obtain ⟨⟨revisions, t'⟩, hnext, rfl⟩ := Option.map_eq_some_iff.mp hs
    rw [hk] at happend hreread
    obtain ⟨hrevisions, ht', hacked⟩ := next_spec h.revisions
      (h.tasks t (List.mem_of_getElem? hk)) hnext
      (fun i attempt expected answer hpoint =>
        happend i attempt expected answer (congrArg some hpoint))
      fun i attempt result revision hpoint =>
        hreread i attempt result revision (congrArg some hpoint)
    refine ⟨⟨hrevisions, fun u hu => ?_⟩, ?_⟩
    · rcases List.mem_or_eq_of_mem_set hu with hu | rfl
      · exact h.tasks u hu
      · exact ht'
    · have hset := sumOver_set hk (t := t') Task.acked
      show sumOver Task.acked (σ.permits.tasks.set k t') = _
      rw [State.acked]
      omega
  · cases hs

/-- Neither the dispatch nor the counters move a task. -/
lemma local_spec (h : σ.Behind bound) (hlocal : a.isLocal = true)
    (hs : σ.next B config a = some σ') : σ'.Behind bound ∧ σ'.acked = σ.acked := by
  cases a with
  | tick =>
    simp only [State.next] at hs
    split at hs
    · split_ifs at hs
      · obtain rfl := Option.some.inj hs
        exact ⟨h, rfl⟩
      · obtain ⟨permits, hspawn, rfl⟩ := Option.map_eq_some_iff.mp hs
        obtain ⟨-, rfl⟩ := Permits.spawn_eq_some hspawn
        refine ⟨⟨h.revisions, fun t ht => ?_⟩, sumOver_concat⟩
        rcases List.mem_append.mp ht with ht | ht
        · exact h.tasks t ht
        · obtain rfl := List.mem_singleton.mp ht
          trivial
    · cases hs
  | stop =>
    simp only [State.next] at hs
    split at hs
    · obtain rfl := Option.some.inj hs
      exact ⟨⟨h.revisions, h.tasks⟩, rfl⟩
    · cases hs
  | acquireMany =>
    simp only [State.next] at hs
    split at hs
    · split_ifs at hs
      obtain rfl := Option.some.inj hs
      exact ⟨⟨h.revisions, h.tasks⟩, rfl⟩
    · cases hs
  | add k =>
    simp only [State.next] at hs
    split at hs
    · rename_i t hk
      split at hs
      · obtain rfl := Option.some.inj hs
        refine ⟨⟨h.revisions, fun u hu => ?_⟩, ?_⟩
        · rcases List.mem_or_eq_of_mem_set hu with hu | rfl
          · exact h.tasks u hu
          · exact h.tasks t (List.mem_of_getElem? hk)
        · exact Nat.add_right_cancel (sumOver_set hk Task.acked)
      · cases hs
    · cases hs
  | step k s =>
    have hgain : s.gain = 0 := by
      cases s with
      | append | appendCold => cases hlocal
      | _ => rfl
    obtain ⟨hbehind, hacked⟩ := step_spec h hs
      (fun _ _ _ _ _ heq => by rw [heq] at hlocal; cases hlocal)
      fun _ _ _ _ _ heq => by rw [heq] at hlocal; cases hlocal
    exact ⟨hbehind, by rw [hacked, hgain, Nat.add_zero]⟩

end Behind

/-! ### The phase on the store -/

section Phase

variable {D E : Type} {store : HotStore D E} {B : Backend} {config : Config} {Inv : D → Prop}
  {bound : D → ℕ → ℕ} {data : D} {revisions : ℕ → UInt64} {σ σ' : Stored D} {a : StoreAction E}

/-- What holds of the store and of the tasks; `n` events were stored at the start. -/
structure Stored.Sound (store : HotStore D E) (Inv : D → Prop) (bound : D → ℕ → ℕ) (n : ℕ)
    (σ : Stored D) : Prop where
  inv : Inv σ.data
  behind : σ.bench.Behind (bound σ.data)
  size : store.size σ.data = n + σ.bench.acked + σ.lost

/-- No step takes an event away. -/
lemma HotStore.Laws.size_le (h : store.Laws B Inv bound)
    (hs : σ.next store B config a = some σ') : store.size σ.data ≤ store.size σ'.data := by
  cases a with
  | bench a =>
    simp only [Stored.next] at hs
    split_ifs at hs
    obtain ⟨bench, -, rfl⟩ := Option.map_eq_some_iff.mp hs
    exact le_refl _
  | append k e =>
    simp only [Stored.next] at hs
    split at hs
    · obtain ⟨bench, -, rfl⟩ := Option.map_eq_some_iff.mp hs
      exact h.append_le rfl
    · cases hs
  | reread k e =>
    simp only [Stored.next] at hs
    split at hs
    · obtain ⟨bench, -, rfl⟩ := Option.map_eq_some_iff.mp hs
      exact le_refl _
    · cases hs
  | appendCold k coldIdx e =>
    simp only [Stored.next] at hs
    split_ifs at hs
    obtain ⟨bench, -, rfl⟩ := Option.map_eq_some_iff.mp hs
    exact h.appendCold_le rfl

/-- An append to a hot stream goes on where the stream has ended, or it stores nothing. -/
lemma Stored.Sound.append {n k hotIdx attempt : ℕ} {expected answer : UInt64} {e : E} {d : D}
    {outcome : Attempt} {bench : State} (laws : store.Laws B Inv bound)
    (h : σ.Sound store Inv bound n) (hsmall : store.Small d)
    (hpoint : (σ.bench.permits.tasks[k]?).map Task.point
      = some (.appending hotIdx attempt expected))
    (hd : store.append σ.data hotIdx expected e = (d, outcome, answer))
    (hs : σ.bench.next B config (.step k (.append outcome answer)) = some bench) :
    (σ.wrote store bench d (decide (outcome = .success))).Sound store Inv bound n := by
  have hexpected : expected.toNat ≤ bound σ.data hotIdx := by
    obtain ⟨t, hk, ht⟩ := Option.map_eq_some_iff.mp hpoint
    have hbehind := h.behind.tasks t (List.mem_of_getElem? hk)
    simpa only [Task.Behind, ht] using hbehind
  obtain ⟨hinv, hbound, hcases⟩ := laws.append h.inv hexpected hsmall hd
  obtain ⟨hbehind, hacked⟩ := step_spec (h.behind.mono hbound) hs
    (fun i attempt' expected' answer' hpoint' heq => by
      obtain ⟨rfl, -, rfl⟩ : hotIdx = i ∧ attempt = attempt' ∧ expected = expected' := by
        simpa using hpoint.symm.trans hpoint'
      obtain ⟨rfl, rfl⟩ : outcome = .success ∧ answer = answer' := by simpa using heq
      rcases hcases with ⟨-, hfailed⟩ | ⟨-, hadvance⟩
      · exact absurd rfl hfailed
      · exact hadvance rfl)
    fun _ _ _ _ _ heq => by cases heq
  refine ⟨hinv, hbehind, ?_⟩
  have hsize := h.size
  simp only [Stored.wrote, decide_eq_true_eq]
  rcases hcases with ⟨hsame, hfailed⟩ | ⟨hgrown, -⟩
  · have hgain : (TaskStep.append outcome answer).gain = 0 := by
      cases outcome with
      | success => exact absurd rfl hfailed
      | conflict | otherError => rfl
    rw [if_neg hfailed]
    omega
  · split_ifs with hok
    · subst hok
      have hgain : (TaskStep.append .success answer).gain = 1 := rfl
      omega
    · have hgain : (TaskStep.append outcome answer).gain = 0 := by
        cases outcome with
        | success => exact absurd rfl hok
        | conflict | otherError => rfl
      omega

lemma Stored.Sound.appendCold {n k coldIdx : ℕ} {e : E} {d : D} {ok : Bool} {bench : State}
    (laws : store.Laws B Inv bound) (h : σ.Sound store Inv bound n)
    (hd : store.appendCold σ.data coldIdx e = (d, ok))
    (hs : σ.bench.next B config (.step k (.appendCold ok)) = some bench) :
    (σ.wrote store bench d ok).Sound store Inv bound n := by
  obtain ⟨hinv, hbound, hcases⟩ := laws.appendCold h.inv hd
  obtain ⟨hbehind, hacked⟩ := step_spec (h.behind.mono hbound) hs
    (fun _ _ _ _ _ heq => by cases heq) fun _ _ _ _ _ heq => by cases heq
  refine ⟨hinv, hbehind, ?_⟩
  have hsize := h.size
  simp only [Stored.wrote]
  cases ok with
  | true =>
    have hgain : (TaskStep.appendCold true).gain = 1 := rfl
    rcases hcases with hgrown | ⟨-, hfailed⟩
    · simp only [if_true]
      omega
    · cases hfailed
  | false =>
    have hgain : (TaskStep.appendCold false).gain = 0 := rfl
    have hle := laws.appendCold_le hd
    simp only [Bool.false_eq_true, if_false]
    omega

lemma Stored.Sound.next {n : ℕ} (laws : store.Laws B Inv bound) (h : σ.Sound store Inv bound n)
    (hsmall : store.Small σ'.data) (hs : σ.next store B config a = some σ') :
    σ'.Sound store Inv bound n := by
  cases a with
  | bench a =>
    simp only [Stored.next] at hs
    split_ifs at hs with hlocal
    obtain ⟨bench, hbench, rfl⟩ := Option.map_eq_some_iff.mp hs
    obtain ⟨hbehind, hacked⟩ := local_spec h.behind hlocal hbench
    exact ⟨h.inv, hbehind, by rw [h.size, hacked]⟩
  | append k e =>
    simp only [Stored.next] at hs
    split at hs
    · rename_i hpoint
      obtain ⟨bench, hbench, rfl⟩ := Option.map_eq_some_iff.mp hs
      exact h.append laws hsmall hpoint rfl hbench
    · cases hs
  | reread k e =>
    simp only [Stored.next] at hs
    split at hs
    · rename_i hotIdx attempt hpoint
      obtain ⟨bench, hbench, rfl⟩ := Option.map_eq_some_iff.mp hs
      obtain ⟨hbehind, hacked⟩ := step_spec h.behind hbench (fun _ _ _ _ _ heq => by cases heq)
        (fun i attempt' result revision hpoint' heq hresync => by
          obtain ⟨rfl, -⟩ : hotIdx = i ∧ attempt = attempt' := by
            simpa using hpoint.symm.trans hpoint'
          obtain rfl := TaskStep.reread.inj heq
          exact laws.reread h.inv hsmall hresync)
      exact ⟨h.inv, hbehind, by rw [h.size, hacked]; rfl⟩
    · cases hs
  | appendCold k coldIdx e =>
    simp only [Stored.next] at hs
    split_ifs at hs
    obtain ⟨bench, hbench, rfl⟩ := Option.map_eq_some_iff.mp hs
    exact h.appendCold laws rfl hbench

/-- In every state of the phase, as long as the store can count its events, the store is as it
promises, no task is ahead of a stream, and what has been stored is what the tasks know of and
what they do not. -/
theorem HotStore.Laws.sound (laws : store.Laws B Inv bound) (hdata : Inv data)
    (hbound : ∀ i, (revisions i).toNat ≤ bound data i)
    (h : (contentionOn store B config data revisions).Reachable σ) (hsmall : store.Small σ.data) :
    σ.Sound store Inv bound (store.size data) := by
  revert hsmall
  refine System.ReachBy.invariant
    (P := fun σ => store.Small σ.data → σ.Sound store Inv bound (store.size data)) ?_ ?_ h
  · rintro σ ⟨⟨hzero, hbench⟩, rfl, rfl, hlost⟩ -
    refine ⟨hdata, ⟨hbound, ?_⟩, ?_⟩
    · rw [hbench]
      exact nofun
    · rw [hlost, State.acked, hbench]
      rfl
  · intro σ a σ' _ ih _ hs hsmall
    exact (ih ((laws.size_le hs).trans_lt hsmall)).next laws hsmall hs

/-- The tasks of a phase on a store run as they do against any answers. -/
lemma bench_reachable (h : (contentionOn store B config data revisions).Reachable σ) :
    (contention B config).Reachable σ.bench := by
  refine System.ReachBy.invariant (P := fun σ => (contention B config).Reachable σ.bench) ?_ ?_ h
  · rintro σ ⟨hbench, -⟩
    exact .init hbench
  · intro σ a σ' _ ih _ hs
    cases a with
    | bench a =>
      simp only [contentionOn, Stored.next] at hs
      split_ifs at hs
      obtain ⟨bench, hbench, rfl⟩ := Option.map_eq_some_iff.mp hs
      exact ih.next hbench
    | append k e =>
      simp only [contentionOn, Stored.next] at hs
      split at hs
      · obtain ⟨bench, hbench, rfl⟩ := Option.map_eq_some_iff.mp hs
        exact System.Reachable.next (M := contention B config) (a := .step k (.append _ _)) ih
          hbench
      · cases hs
    | reread k e =>
      simp only [contentionOn, Stored.next] at hs
      split at hs
      · obtain ⟨bench, hbench, rfl⟩ := Option.map_eq_some_iff.mp hs
        exact System.Reachable.next (M := contention B config) (a := .step k (.reread _)) ih hbench
      · cases hs
    | appendCold k coldIdx e =>
      simp only [contentionOn, Stored.next] at hs
      split_ifs at hs
      obtain ⟨bench, hbench, rfl⟩ := Option.map_eq_some_iff.mp hs
      exact System.Reachable.next (M := contention B config) (a := .step k (.appendCold _)) ih
        hbench

/-- Where every task has ended, the counter holds what they know of. -/
lemma acked_eq {σ : State} (h : (contention B config).Reachable σ)
    (hended : ∀ t ∈ σ.permits.tasks, t.running = false) :
    σ.acked = σ.counters .totalEvents := by
  rw [(counters_eq h hended .totalEvents).2]
  refine sumOver_congr fun t ht => ?_
  have hpoint : t.point = .ended := by simpa [Task.running] using hended t ht
  rw [Task.acked, hpoint]
  rfl

/-- When all tasks have ended, the store has gained `total_events` events and those of writes
that did not return `Ok`. -/
theorem stored_eq (laws : store.Laws B Inv bound) (hdata : Inv data)
    (hbound : ∀ i, (revisions i).toNat ≤ bound data i)
    (h : (contentionOn store B config data revisions).Reachable σ) (hsmall : store.Small σ.data)
    (hended : ∀ t ∈ σ.bench.permits.tasks, t.running = false) :
    store.size σ.data = store.size data + σ.bench.counters .totalEvents + σ.lost := by
  rw [(laws.sound hdata hbound h hsmall).size, acked_eq (bench_reachable h) hended]

end Phase

end EventSourcing.Bench.Contention
