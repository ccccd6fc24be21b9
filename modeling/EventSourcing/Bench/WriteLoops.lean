import EventSourcing.HotTail.Runner
import EventSourcing.Loops.Cuts

/-!
# The write phases of the demos and benches

The snapshot demo, `scale_bench`, the seed phases of `hot_cache_bench` and `memcache_bench` and
the rehydrate demo append a total of events in batches. The two demos add the batch size to a
`u32` before they clip the sum by the total, so that a total near `u32::MAX` overflows; a batch
size of zero is taken as it is and leads to empty batches, an underflow or a division by zero
(`write_phases_iff`).
-/

namespace EventSourcing.Bench.WriteLoops

open HotTail (eventSize)
open Loops

/-! ### Checked arithmetic -/

/-- Why a write phase ends early. -/
inductive Stop where
  | panicked (message : String)
  | appendFailed
  deriving DecidableEq

def u32Range : ℕ := 2 ^ 32

def u64Range : ℕ := 2 ^ 64

def checkedAdd (range a b : ℕ) : Except Stop ℕ :=
  if a + b < range then .ok (a + b) else .error (.panicked "attempt to add with overflow")

def checkedSub (a b : ℕ) : Except Stop ℕ :=
  if b ≤ a then .ok (a - b) else .error (.panicked "attempt to subtract with overflow")

def checkedMul (range a b : ℕ) : Except Stop ℕ :=
  if a * b < range then .ok (a * b) else .error (.panicked "attempt to multiply with overflow")

def checkedDiv (a b : ℕ) : Except Stop ℕ :=
  if b = 0 then .error (.panicked "attempt to divide by zero") else .ok (a / b)

def checkedRem (a b : ℕ) : Except Stop ℕ :=
  if b = 0 then .error (.panicked "attempt to calculate the remainder with a divisor of zero")
  else .ok (a % b)

/-- The allocation of a batch: `limit` is the number of its elements that are within `isize::MAX`
bytes. -/
def allocate (limit n : ℕ) : Except Stop Unit :=
  if n ≤ limit then .ok () else .error (.panicked "capacity overflow")

/-- `BenchmarkEvent`s within `isize::MAX` bytes. -/
def eventLimit : ℕ := (2 ^ 63 - 1) / eventSize

/-- The append of a batch, given by the numbers of its events. It succeeds, unless the batch is
empty and the store is one that refuses it. -/
def append (takesEmpty : Bool) (batch : List ℕ) : Except Stop Unit :=
  if batch = [] ∧ takesEmpty = false then .error .appendFailed else .ok ()

/-! ### The phases -/

/-- What the write loop of the snapshot demo carries. -/
structure Windows where
  seq : ℕ
  snapshotCount : ℕ

/-- The write loop of `snapshot_demo::run`. -/
def snapshotLoop (takesEmpty : Bool) (eventCount snapshotEvery : UInt32) :
    Loop Windows (List ℕ) Stop where
  continues s := decide (s.seq < eventCount.toNat)
  body s := do
    let windowEnd := min (← checkedAdd u32Range s.seq snapshotEvery.toNat) eventCount.toNat
    let windowLen ← checkedSub windowEnd s.seq
    let eventDataBatch := List.range' s.seq windowLen
    append takesEmpty eventDataBatch
    -- the stream is new, so its last revision is the number of the last event
    let lastRevision := windowEnd - 1
    let _firstRevision ← checkedSub lastRevision (← checkedSub windowLen 1)
    let snapshotCount ← checkedAdd u32Range s.snapshotCount 1
    let _batchLast ← checkedSub windowEnd 1
    return (eventDataBatch, ⟨windowEnd, snapshotCount⟩)

/-- What the write loops of `scale_bench` carry. -/
structure Scaled where
  globalSeq : ℕ
  batchesDone : ℕ

/-- The write loops of `scale_bench`. Only `run_postgres` passes the number before the batch on;
the size of what `run_kurrentdb` collects is that of its client library. -/
def scaleLoop (limit : ℕ) (takesEmpty : Bool) (scaleEvents batchSize : UInt64) :
    Loop Scaled (List ℕ) Stop where
  continues s := decide (s.globalSeq < scaleEvents.toNat)
  body s := do
    let thisBatch := min batchSize.toNat (← checkedSub scaleEvents.toNat s.globalSeq)
    allocate limit thisBatch
    let payloads := List.range' (s.globalSeq + 1) thisBatch
    let globalSeq ← checkedAdd u64Range s.globalSeq thisBatch
    let _baseSeq ← checkedSub globalSeq thisBatch
    append takesEmpty payloads
    let batchesDone ← checkedAdd u64Range s.batchesDone 1
    return (payloads, ⟨globalSeq, batchesDone⟩)

/-- The numbers of a batch of `n` events from `base` on. -/
def seedBatch (base n : ℕ) : Except Stop (List ℕ) := do
  allocate eventLimit n
  (List.range n).mapM fun i => checkedAdd u64Range base i

/-- The seed phases of `hot_cache_bench` and `memcache_bench`: the batches in order. -/
def seedPhase (seedEvents seedBatchSize : UInt64) : Except Stop (List (List ℕ)) := do
  let batches ← checkedDiv seedEvents.toNat seedBatchSize.toNat
  let full ← (List.range batches).mapM fun b => do
    seedBatch (← checkedMul u64Range b seedBatchSize.toNat) seedBatchSize.toNat
  let remainder ← checkedRem seedEvents.toNat seedBatchSize.toNat
  if 0 < remainder then
    let base ← checkedMul u64Range batches seedBatchSize.toNat
    return full ++ [← seedBatch base remainder]
  else return full

/-- The write loop of `kurrentdb_rehydrate_demo`. -/
def rehydrateLoop (takesEmpty : Bool) (eventCount : UInt32) : Loop ℕ (List ℕ) Stop where
  continues i := decide (i < eventCount.toNat)
  body i := do
    let chunkEnd := min (← checkedAdd u32Range i 500) eventCount.toNat
    let batch ← (List.range' i (chunkEnd - i)).mapM fun j => do
      let _quantity ← checkedAdd u32Range j 1
      return j
    append takesEmpty batch
    return (batch, chunkEnd)

/-! ### What a write phase is for -/

/-- If every append succeeds, the loop terminates, and it has appended the `total` events from
`first` on in batches of at least one event and at most `size`. -/
def Writes {S : Type} (L : Loop S (List ℕ) Stop) (start : S) (first total size : ℕ) : Prop :=
  (∀ fuel, L.run fuel start ≠ .stopped .appendFailed) →
    ∃ batches, L.Finishes start batches ∧ Cuts first total size batches

variable {S : Type} {L : Loop S (List ℕ) Stop} {start : S} {first total size : ℕ}
  {takesEmpty : Bool}

/-- A loop whose appends all succeed is judged by what it has appended. -/
lemma writes_iff (happends : ∀ s, L.continues s = true → L.body s ≠ .error .appendFailed) :
    Writes L start first total size ↔
      ∃ batches, L.Finishes start batches ∧ Cuts first total size batches :=
  ⟨fun h => h fun fuel => Loop.run_ne_stopped happends fuel start, fun h _ => h⟩

/-- A loop whose first append fails has nothing to meet. -/
lemma writes_of_appendFailed (hcontinues : L.continues start = true)
    (hbody : L.body start = .error .appendFailed) : Writes L start first total size := by
  intro happends
  refine absurd ?_ (happends 1)
  rw [Loop.run, if_pos hcontinues, hbody]

/-- A loop that has nothing to append is left at once. -/
lemma writes_of_done (hcontinues : L.continues start = false) : Writes L start first 0 size :=
  fun _ => ⟨[], Loop.finishes_exit hcontinues, cuts_nil⟩

/-- Batches of no events are as good as any where there is nothing to append, or where the store
refuses the first of them. -/
lemma writes_empty_iff (hcontinues : L.continues start = decide (0 < total))
    (hrefused : takesEmpty = false → L.body start = .error .appendFailed)
    (htaken : takesEmpty = true → L.continues start = true → ¬ Writes L start first total size) :
    Writes L start first total size ↔ total = 0 ∨ takesEmpty = false := by
  rcases Nat.eq_zero_or_pos total with rfl | hpos
  · exact iff_of_true (writes_of_done hcontinues) (.inl rfl)
  · have hfirst : L.continues start = true := hcontinues.trans (decide_eq_true hpos)
    cases takesEmpty with
    | false => exact iff_of_true (writes_of_appendFailed hfirst (hrefused rfl)) (.inr rfl)
    | true => exact iff_of_false (htaken rfl hfirst) (by simp [hpos.ne'])

/-- An empty batch is not what a write phase is for. -/
lemma not_cuts_of_first {s : S} (hcontinues : L.continues start = true)
    (hbody : L.body start = .ok ([], s)) :
    ¬ ∃ batches, L.Finishes start batches ∧ Cuts first total size batches := by
  rintro ⟨batches, hfinishes, hcuts⟩
  obtain ⟨batch, s', rest, hpass, -, rfl⟩ := hfinishes.first hcontinues
  obtain ⟨rfl, -⟩ := Prod.mk.inj (Except.ok.inj (hbody.symm.trans hpass))
  exact hcuts.nonempty [] List.mem_cons_self rfl

lemma not_finishes_of_error {reason : Stop} {batches : List (List ℕ)}
    (hcontinues : L.continues start = true) (hbody : L.body start = .error reason) :
    ¬ L.Finishes start batches := by
  intro hfinishes
  obtain ⟨batch, s, rest, hpass, -⟩ := hfinishes.first hcontinues
  rw [hbody] at hpass
  cases hpass

/-! ### The operations -/

section Operations

variable {range limit a b n : ℕ} {batch : List ℕ}

lemma checkedAdd_ok (h : a + b < range) : checkedAdd range a b = .ok (a + b) := if_pos h

lemma checkedAdd_overflow (h : range ≤ a + b) :
    checkedAdd range a b = .error (.panicked "attempt to add with overflow") :=
  if_neg (Nat.not_lt.mpr h)

lemma checkedSub_ok (h : b ≤ a) : checkedSub a b = .ok (a - b) := if_pos h

lemma checkedMul_ok (h : a * b < range) : checkedMul range a b = .ok (a * b) := if_pos h

lemma checkedDiv_ok (h : 0 < b) : checkedDiv a b = .ok (a / b) := if_neg h.ne'

lemma checkedRem_ok (h : 0 < b) : checkedRem a b = .ok (a % b) := if_neg h.ne'

lemma allocate_ok (h : n ≤ limit) : allocate limit n = .ok () := if_pos h

lemma allocate_overflow (h : ¬ n ≤ limit) :
    allocate limit n = .error (.panicked "capacity overflow") := if_neg h

lemma append_ok (h : batch ≠ [] ∨ takesEmpty = true) : append takesEmpty batch = .ok () :=
  if_neg fun hrefused => h.elim (· hrefused.1) (by simp [hrefused.2])

@[simp] lemma checkedAdd_ne_appendFailed : checkedAdd range a b ≠ .error .appendFailed := by
  rw [checkedAdd]
  split_ifs <;> simp

@[simp] lemma checkedSub_ne_appendFailed : checkedSub a b ≠ .error .appendFailed := by
  rw [checkedSub]
  split_ifs <;> simp

@[simp] lemma allocate_ne_appendFailed : allocate limit n ≠ .error .appendFailed := by
  rw [allocate]
  split_ifs <;> simp

lemma checkedAdd_eq_ok {c : ℕ} : checkedAdd range a b = .ok c ↔ a + b < range ∧ a + b = c := by
  rw [checkedAdd]
  split_ifs with h <;> simp [h]

lemma checkedSub_eq_ok {c : ℕ} : checkedSub a b = .ok c ↔ b ≤ a ∧ a - b = c := by
  rw [checkedSub]
  split_ifs with h <;> simp [h]

lemma append_eq_error : append takesEmpty batch = .error .appendFailed ↔
    batch = [] ∧ takesEmpty = false := by
  rw [append]
  split_ifs with h <;> simp [h]

/-- Where a failure comes from. -/
lemma bind_eq_error {α β : Type} {x : Except Stop α} {f : α → Except Stop β} {stop : Stop} :
    x.bind f = .error stop ↔ x = .error stop ∨ ∃ a, x = .ok a ∧ f a = .error stop := by
  cases x <;> simp [Except.bind]

lemma mapM_ok {α β : Type} {f : α → Except Stop β} {g : α → β} {l : List α}
    (h : ∀ a ∈ l, f a = .ok (g a)) : l.mapM f = .ok (l.map g) := by
  induction l with
  | nil => rfl
  | cons a l ih =>
    rw [List.mapM_cons, h a List.mem_cons_self, ih fun b hb => h b (List.mem_cons_of_mem a hb)]
    rfl

end Operations

/-! ### The snapshot demo -/

section Snapshots

variable {eventCount snapshotEvery : UInt32}

lemma snapshot_strides (hevery : 0 < snapshotEvery.toNat) :
    Strides (snapshotLoop takesEmpty eventCount snapshotEvery) Windows.seq
      (fun s => s.snapshotCount ≤ s.seq) eventCount.toNat snapshotEvery.toNat u32Range where
  continues _ := rfl
  pass s hcount hlt hfits := by
    have hmax := eventCount.toNat_lt
    have hcount' : s.snapshotCount + 1 < u32Range := by
      rw [u32Range]
      omega
    generalize hend : min (s.seq + snapshotEvery.toNat) eventCount.toNat = windowEnd
    have hbatch : List.range' s.seq (windowEnd - s.seq) ≠ [] := by
      rw [Ne, List.range'_eq_nil_iff]
      omega
    refine ⟨⟨windowEnd, s.snapshotCount + 1⟩, ?_, ?_, rfl⟩
    · simp only [snapshotLoop, bind, Except.bind, checkedAdd_ok hfits, hend,
        checkedSub_ok (show s.seq ≤ windowEnd by omega), append_ok (.inl hbatch),
        checkedSub_ok (show 1 ≤ windowEnd - s.seq by omega),
        checkedSub_ok (show windowEnd - s.seq - 1 ≤ windowEnd - 1 by omega),
        checkedAdd_ok hcount', checkedSub_ok (show 1 ≤ windowEnd by omega)]
      rfl
    · show s.snapshotCount + 1 ≤ windowEnd
      omega
  overflow s _ _ hover := by
    refine ⟨.panicked "attempt to add with overflow", ?_⟩
    simp only [snapshotLoop, bind, Except.bind, checkedAdd_overflow hover]

lemma snapshot_appends (hwindow : 0 < snapshotEvery.toNat ∨ takesEmpty = true) (s : Windows)
    (hcontinues : (snapshotLoop takesEmpty eventCount snapshotEvery).continues s = true) :
    (snapshotLoop takesEmpty eventCount snapshotEvery).body s ≠ .error .appendFailed := by
  have hlt : s.seq < eventCount.toNat := of_decide_eq_true hcontinues
  intro hbody
  simp only [snapshotLoop, bind, bind_eq_error, checkedAdd_ne_appendFailed,
    checkedSub_ne_appendFailed, checkedAdd_eq_ok, checkedSub_eq_ok, append_eq_error, pure,
    Except.pure, false_or, reduceCtorEq, and_false, exists_false, or_false] at hbody
  obtain ⟨_, ⟨-, rfl⟩, _, ⟨-, rfl⟩, hempty, hrefused⟩ := hbody
  rw [List.range'_eq_nil_iff] at hempty
  rcases hwindow with hpos | htakes
  · omega
  · rw [htakes] at hrefused
    cases hrefused

/-- A window of no events: the store refuses the empty batch, or its length underflows. -/
lemma snapshot_body_zero :
    (snapshotLoop takesEmpty eventCount 0).body ⟨0, 0⟩ = .error
      (if takesEmpty = true then .panicked "attempt to subtract with overflow"
        else .appendFailed) := by
  cases takesEmpty <;>
    simp [snapshotLoop, bind, Except.bind, checkedAdd, checkedSub, append, u32Range]

/-- The snapshot demo writes what it is to write if and only if the end of its last window,
before it is clipped, is within `u32`. With windows of no events there must be nothing to
write, or a store that fails the first append. -/
theorem snapshot_writes_iff :
    Writes (snapshotLoop takesEmpty eventCount snapshotEvery) ⟨0, 0⟩ 0 eventCount.toNat
        snapshotEvery.toNat ↔
      if snapshotEvery = 0 then eventCount = 0 ∨ takesEmpty = false
      else roundUp eventCount.toNat snapshotEvery.toNat < u32Range := by
  split_ifs with hevery
  · subst hevery
    rw [← UInt32.toNat_inj]
    refine writes_empty_iff rfl (fun hrefused => ?_) fun htakes hcontinues => ?_
    · rw [snapshot_body_zero, if_neg (by simp [hrefused])]
    · rw [writes_iff (snapshot_appends (.inr htakes))]
      have hbody : (snapshotLoop takesEmpty eventCount 0).body ⟨0, 0⟩
          = .error (.panicked "attempt to subtract with overflow") := by
        rw [snapshot_body_zero, if_pos htakes]
      rintro ⟨batches, hfinishes, -⟩
      exact not_finishes_of_error hcontinues hbody hfinishes
  · have hpos : 0 < snapshotEvery.toNat :=
      Nat.pos_of_ne_zero fun h => hevery (UInt32.toNat_inj.mp h)
    rw [writes_iff (snapshot_appends (.inl hpos))]
    exact (snapshot_strides hpos).finishes_iff hpos (by decide) le_rfl rfl

end Snapshots

/-! ### The rehydrate demo -/

section Rehydrate

variable {eventCount : UInt32}

lemma rehydrate_body_overflow {i : ℕ} (hover : u32Range ≤ i + 500) :
    (rehydrateLoop takesEmpty eventCount).body i
      = .error (.panicked "attempt to add with overflow") := by
  simp only [rehydrateLoop, bind, Except.bind, checkedAdd_overflow hover]

lemma rehydrate_strides :
    Strides (rehydrateLoop takesEmpty eventCount) id (fun _ => True) eventCount.toNat 500
      u32Range where
  continues _ := rfl
  pass i _ hlt hfits := by
    have hmax := eventCount.toNat_lt
    simp only [id] at hlt hfits ⊢
    generalize hend : min (i + 500) eventCount.toNat = chunkEnd
    have hquantities : (List.range' i (chunkEnd - i)).mapM
        (fun j => (checkedAdd u32Range j 1).bind fun _ => .ok j)
        = .ok ((List.range' i (chunkEnd - i)).map id) := by
      refine mapM_ok fun j hj => ?_
      rw [List.mem_range'_1] at hj
      rw [checkedAdd_ok (show j + 1 < u32Range by rw [u32Range]; omega)]
      rfl
    rw [List.map_id] at hquantities
    have hbatch : List.range' i (chunkEnd - i) ≠ [] := by
      rw [Ne, List.range'_eq_nil_iff]
      omega
    refine ⟨chunkEnd, ?_, trivial, rfl⟩
    simp only [rehydrateLoop, bind, checkedAdd_ok hfits, Except.bind, hend, pure, Except.pure]
      at hquantities ⊢
    rw [hquantities]
    simp only [append_ok (.inl hbatch)]
  overflow _ _ _ hover := ⟨_, rehydrate_body_overflow hover⟩

/-- The rehydrate demo writes its events if and only if the end of the last chunk, before it is
clipped, is within `u32`. -/
theorem rehydrate_writes_iff :
    Writes (rehydrateLoop takesEmpty eventCount) 0 0 eventCount.toNat 500 ↔
      eventCount.toNat ≤ 4294967000 := by
  have happends : ∀ i, (rehydrateLoop takesEmpty eventCount).continues i = true →
      (rehydrateLoop takesEmpty eventCount).body i ≠ .error .appendFailed := by
    intro i hcontinues hbody
    rcases Nat.lt_or_ge (i + 500) u32Range with hfits | hover
    · obtain ⟨chunkEnd, hpass, -⟩ :=
        rehydrate_strides.pass i trivial (of_decide_eq_true hcontinues) hfits
      rw [hpass] at hbody
      cases hbody
    · rw [rehydrate_body_overflow hover] at hbody
      cases hbody
  rw [writes_iff happends, rehydrate_strides.finishes_iff (by decide) (by decide) trivial rfl,
    roundUp, u32Range]
  omega

end Rehydrate

/-! ### `scale_bench` -/

section Scale

variable {limit : ℕ} {scaleEvents batchSize : UInt64}

/-- A pass takes a batch of what is left. -/
lemma scale_body {s : Scaled} (hlt : s.globalSeq < scaleEvents.toNat)
    (hfits : min batchSize.toNat (scaleEvents.toNat - s.globalSeq) ≤ limit)
    (htaken : 0 < batchSize.toNat ∨ takesEmpty = true) (hdone : s.batchesDone + 1 < u64Range) :
    (scaleLoop limit takesEmpty scaleEvents batchSize).body s = .ok
      (List.range' (1 + s.globalSeq) (min batchSize.toNat (scaleEvents.toNat - s.globalSeq)),
        ⟨s.globalSeq + min batchSize.toNat (scaleEvents.toNat - s.globalSeq),
          s.batchesDone + 1⟩) := by
  have hmax := scaleEvents.toNat_lt
  generalize hbatch : min batchSize.toNat (scaleEvents.toNat - s.globalSeq) = thisBatch at hfits ⊢
  have hsum : s.globalSeq + thisBatch < u64Range := by
    rw [u64Range]
    omega
  have hpayloads : List.range' (s.globalSeq + 1) thisBatch ≠ [] ∨ takesEmpty = true := by
    refine htaken.imp_left fun hpos => ?_
    rw [Ne, List.range'_eq_nil_iff]
    omega
  simp only [scaleLoop, bind, Except.bind, checkedSub_ok hlt.le, hbatch, allocate_ok hfits,
    checkedAdd_ok hsum, checkedSub_ok (Nat.le_add_left thisBatch s.globalSeq),
    append_ok hpayloads, checkedAdd_ok hdone, Nat.add_comm 1]
  rfl

lemma scale_appends (htaken : 0 < batchSize.toNat ∨ takesEmpty = true) (s : Scaled)
    (hcontinues : (scaleLoop limit takesEmpty scaleEvents batchSize).continues s = true) :
    (scaleLoop limit takesEmpty scaleEvents batchSize).body s ≠ .error .appendFailed := by
  have hlt : s.globalSeq < scaleEvents.toNat := of_decide_eq_true hcontinues
  intro hbody
  simp only [scaleLoop, bind, bind_eq_error, checkedAdd_ne_appendFailed,
    checkedSub_ne_appendFailed, allocate_ne_appendFailed, checkedAdd_eq_ok, checkedSub_eq_ok,
    append_eq_error, pure, Except.pure, false_or, reduceCtorEq, and_false, exists_false,
    or_false] at hbody
  obtain ⟨_, ⟨-, rfl⟩, _, -, _, -, _, -, hempty, hrefused⟩ := hbody
  rw [List.range'_eq_nil_iff] at hempty
  rcases htaken with hpos | htakes
  · omega
  · rw [htakes] at hrefused
    cases hrefused

/-- A batch of no events is stored, or the store refuses it. -/
lemma scale_body_zero :
    (scaleLoop limit takesEmpty scaleEvents 0).body ⟨0, 0⟩
      = if takesEmpty = true then .ok ([], ⟨0, 1⟩) else .error .appendFailed := by
  cases takesEmpty <;>
    simp [scaleLoop, bind, Except.bind, checkedSub, allocate, checkedAdd, append, u64Range, pure,
      Except.pure]

/-- `scale_bench` writes what it is to write if and only if its batches are of at least one event
and the first of them can be allocated. With empty batches there must be nothing to write, or a
store that fails the first append. -/
theorem scale_writes_iff :
    Writes (scaleLoop limit takesEmpty scaleEvents batchSize) ⟨0, 0⟩ 1 scaleEvents.toNat
        batchSize.toNat ↔
      if batchSize = 0 then scaleEvents = 0 ∨ takesEmpty = false
      else min batchSize.toNat scaleEvents.toNat ≤ limit := by
  split_ifs with hbatch
  · subst hbatch
    rw [← UInt64.toNat_inj]
    refine writes_empty_iff rfl (fun hrefused => ?_) fun htakes hcontinues => ?_
    · rw [scale_body_zero, if_neg (by simp [hrefused])]
    · rw [writes_iff (scale_appends (.inr htakes))]
      exact not_cuts_of_first hcontinues (scale_body_zero.trans (if_pos htakes))
  · have hbatch' : 0 < batchSize.toNat :=
      Nat.pos_of_ne_zero fun h => hbatch (UInt64.toNat_inj.mp h)
    rw [writes_iff (scale_appends (.inl hbatch'))]
    constructor
    · rintro ⟨batches, hfinishes, -⟩
      by_contra hlimit
      have hbody : (scaleLoop limit takesEmpty scaleEvents batchSize).body ⟨0, 0⟩
          = .error (.panicked "capacity overflow") := by
        simp only [scaleLoop, bind, Except.bind, checkedSub_ok (Nat.zero_le _), Nat.sub_zero,
          allocate_overflow hlimit]
      have hcontinues : (scaleLoop limit takesEmpty scaleEvents batchSize).continues ⟨0, 0⟩
          = true := decide_eq_true (by show 0 < scaleEvents.toNat; omega)
      exact not_finishes_of_error hcontinues hbody hfinishes
    · intro hlimit
      have hpass : ∀ s : Scaled, s.batchesDone ≤ s.globalSeq → s.globalSeq < scaleEvents.toNat →
          ∃ n s', 0 < n ∧ n ≤ batchSize.toNat ∧ s.globalSeq + n ≤ scaleEvents.toNat ∧
            (scaleLoop limit takesEmpty scaleEvents batchSize).body s
              = .ok (List.range' (1 + s.globalSeq) n, s') ∧
            s'.batchesDone ≤ s'.globalSeq ∧ s'.globalSeq = s.globalSeq + n := by
        intro s hdone hlt
        have hmax := scaleEvents.toNat_lt
        refine ⟨_, _, ?_, ?_, ?_, scale_body hlt ?_ (.inl hbatch') ?_, ?_, rfl⟩
        · omega
        · omega
        · omega
        · omega
        · rw [u64Range]
          omega
        · show s.batchesDone + 1 ≤ s.globalSeq + _
          omega
      exact Loop.finishes_cuts (fun _ => rfl) hpass le_rfl (Nat.zero_le _)

end Scale

/-! ### The seed phases -/

section Seed

variable {seedEvents seedBatchSize : UInt64} {base n : ℕ}

lemma seedBatch_ok (hfits : n ≤ eventLimit) (hrange : base + n ≤ u64Range) :
    seedBatch base n = .ok (List.range' base n) := by
  have hnumbers : (List.range n).mapM (fun i => checkedAdd u64Range base i)
      = .ok ((List.range n).map (base + ·)) := by
    refine mapM_ok fun i hi => checkedAdd_ok ?_
    rw [List.mem_range] at hi
    omega
  rw [← List.range'_eq_map_range] at hnumbers
  simp only [seedBatch, bind, Except.bind, allocate_ok hfits, hnumbers]

lemma seedBatch_overflow (hlimit : ¬ n ≤ eventLimit) :
    seedBatch base n = .error (.panicked "capacity overflow") := by
  simp only [seedBatch, bind, Except.bind, allocate_overflow hlimit]

/-- The seed phases divide the events into full batches and a remainder. -/
lemma seedPhase_ok (hsize : 0 < seedBatchSize.toNat)
    (hlimit : min seedBatchSize.toNat seedEvents.toNat ≤ eventLimit) :
    seedPhase seedEvents seedBatchSize = .ok (divided seedEvents.toNat seedBatchSize.toNat) := by
  have hmax := seedEvents.toNat_lt
  generalize hbatches : seedEvents.toNat / seedBatchSize.toNat = batches
  have htotal := Nat.div_add_mod' seedEvents.toNat seedBatchSize.toNat
  have hremainder := Nat.mod_lt seedEvents.toNat hsize
  rw [hbatches] at htotal
  have hfull : (List.range batches).mapM (fun b =>
      (checkedMul u64Range b seedBatchSize.toNat).bind fun base =>
        seedBatch base seedBatchSize.toNat)
      = .ok ((List.range batches).map fun b =>
        List.range' (b * seedBatchSize.toNat) seedBatchSize.toNat) := by
    refine mapM_ok fun b hb => ?_
    have hnext := Nat.mul_le_mul_right seedBatchSize.toNat (List.mem_range.mp hb)
    rw [Nat.succ_mul] at hnext
    rw [checkedMul_ok (show b * seedBatchSize.toNat < u64Range by rw [u64Range]; omega)]
    exact seedBatch_ok (by omega) (by rw [u64Range]; omega)
  have hbase : batches * seedBatchSize.toNat < u64Range := by
    rw [u64Range]
    omega
  simp only [Except.bind] at hfull
  simp only [seedPhase, bind, Except.bind, checkedDiv_ok hsize, hbatches, hfull,
    checkedRem_ok hsize, checkedMul_ok hbase, divided]
  split_ifs with hrest
  · rw [seedBatch_ok (by omega) (by rw [u64Range]; omega)]
    rfl
  · rw [List.append_nil]
    rfl

lemma seedPhase_zero : seedPhase seedEvents 0 = .error (.panicked "attempt to divide by zero") :=
  rfl

/-- The first batch is too large to be allocated. -/
lemma seedPhase_overflow (hsize : 0 < seedBatchSize.toNat)
    (hlimit : ¬ min seedBatchSize.toNat seedEvents.toNat ≤ eventLimit) :
    seedPhase seedEvents seedBatchSize = .error (.panicked "capacity overflow") := by
  have hdiv := checkedDiv_ok hsize (a := seedEvents.toNat)
  rcases Nat.lt_or_ge seedEvents.toNat seedBatchSize.toNat with hlt | hge
  · rw [Nat.div_eq_of_lt hlt] at hdiv
    have hremainder : 0 < seedEvents.toNat := by omega
    have hover : ¬ seedEvents.toNat ≤ eventLimit := by omega
    simp only [seedPhase, bind, Except.bind, hdiv, List.range_zero, List.mapM_nil, pure,
      Except.pure, checkedRem_ok hsize, Nat.mod_eq_of_lt hlt, if_pos hremainder,
      checkedMul_ok (show 0 * seedBatchSize.toNat < u64Range by simp [u64Range]),
      seedBatch_overflow hover]
  · have hover : ¬ seedBatchSize.toNat ≤ eventLimit := by omega
    have hpos := Nat.div_pos hge hsize
    obtain ⟨batches, hbatches⟩ := Nat.exists_eq_add_of_lt hpos
    rw [hbatches] at hdiv
    simp only [seedPhase, bind, Except.bind, hdiv, Nat.zero_add, List.range_succ_eq_map,
      List.mapM_cons, checkedMul_ok (show 0 * seedBatchSize.toNat < u64Range by simp [u64Range]),
      seedBatch_overflow hover]

/-- The seed phases write what they are to write if and only if the batch size is not zero and
their first batch can be allocated. -/
theorem seed_writes_iff :
    (∃ batches, seedPhase seedEvents seedBatchSize = .ok batches ∧
      Cuts 0 seedEvents.toNat seedBatchSize.toNat batches) ↔
      seedBatchSize ≠ 0 ∧ min seedBatchSize.toNat seedEvents.toNat ≤ eventLimit := by
  constructor
  · rintro ⟨batches, hphase, -⟩
    have hsize : seedBatchSize ≠ 0 := by
      rintro rfl
      rw [seedPhase_zero] at hphase
      cases hphase
    refine ⟨hsize, ?_⟩
    by_contra hlimit
    rw [seedPhase_overflow (Nat.pos_of_ne_zero (HotTail.toNat_ne_zero hsize)) hlimit] at hphase
    cases hphase
  · rintro ⟨hsize, hlimit⟩
    have hpos := Nat.pos_of_ne_zero (HotTail.toNat_ne_zero hsize)
    exact ⟨_, seedPhase_ok hpos hlimit, cuts_divided hpos⟩

/-- The batches of the seed phases are the events of these numbers. -/
lemma seedBatches_eq (config : HotTail.Config) (now : UInt64 → DateTime)
    (hsize : config.seedBatchSize ≠ 0) :
    config.seedBatches now
      = some ((divided config.seedEvents.toNat config.seedBatchSize.toNat).map fun batch =>
        batch.map fun i => HotTail.newEvent (.ofNat i) 0 (now (.ofNat i))) := by
  have hbatch : ∀ base n : ℕ,
      (List.range n).map (fun i => HotTail.newEvent (.ofNat base + .ofNat i) 0
          (now (.ofNat base + .ofNat i)))
        = (List.range' base n).map fun i => HotTail.newEvent (.ofNat i) 0 (now (.ofNat i)) := by
    intro base n
    rw [List.range'_eq_map_range, List.map_map]
    refine List.map_congr_left fun i _ => ?_
    rw [Function.comp_apply, UInt64.ofNat_add]
  have hbase : ∀ b : ℕ, UInt64.ofNat b * config.seedBatchSize
      = .ofNat (b * config.seedBatchSize.toNat) := by
    intro b
    rw [UInt64.ofNat_mul, UInt64.ofNat_toNat]
  have hremainder : 0 < config.seedEvents % config.seedBatchSize ↔
      0 < config.seedEvents.toNat % config.seedBatchSize.toNat := by
    rw [UInt64.lt_iff_toNat_lt, UInt64.toNat_mod]
    rfl
  rw [HotTail.Config.seedBatches, if_neg hsize]
  simp only [divided, List.map_append, List.map_map, UInt64.toNat_div, UInt64.toNat_mod]
  congr 2
  · refine List.map_congr_left fun b _ => ?_
    rw [Function.comp_apply, hbase, hbatch]
  · simp only [hremainder]
    split_ifs with hrest
    · have hlast := hbase (config.seedEvents.toNat / config.seedBatchSize.toNat)
      rw [← UInt64.toNat_div, UInt64.ofNat_toNat] at hlast
      rw [List.map_singleton, ← hbatch, hlast, UInt64.toNat_div]
    · rfl

end Seed

/-! ### All of them -/

/-- When the write phases terminate without overflow, underflow or division by zero, and have
appended their events with consecutive numbers in batches that are neither empty nor larger than
the batch size. `limit` and `takesEmpty` are those of the store of a scale bench, the latter also
of the demos. -/
theorem write_phases_iff (limit : ℕ) (takesEmpty : Bool) :
    (∀ eventCount snapshotEvery : UInt32,
      Writes (snapshotLoop takesEmpty eventCount snapshotEvery) ⟨0, 0⟩ 0 eventCount.toNat
          snapshotEvery.toNat ↔
        if snapshotEvery = 0 then eventCount = 0 ∨ takesEmpty = false
        else roundUp eventCount.toNat snapshotEvery.toNat < u32Range) ∧
    (∀ scaleEvents batchSize : UInt64,
      Writes (scaleLoop limit takesEmpty scaleEvents batchSize) ⟨0, 0⟩ 1 scaleEvents.toNat
          batchSize.toNat ↔
        if batchSize = 0 then scaleEvents = 0 ∨ takesEmpty = false
        else min batchSize.toNat scaleEvents.toNat ≤ limit) ∧
    (∀ seedEvents seedBatchSize : UInt64,
      (∃ batches, seedPhase seedEvents seedBatchSize = .ok batches ∧
          Cuts 0 seedEvents.toNat seedBatchSize.toNat batches) ↔
        seedBatchSize ≠ 0 ∧ min seedBatchSize.toNat seedEvents.toNat ≤ eventLimit) ∧
    ∀ eventCount : UInt32,
      Writes (rehydrateLoop takesEmpty eventCount) 0 0 eventCount.toNat 500 ↔
        eventCount.toNat ≤ 4294967000 :=
  ⟨fun _ _ => snapshot_writes_iff, fun _ _ => scale_writes_iff, fun _ _ => seed_writes_iff,
    fun _ => rehydrate_writes_iff⟩

/-- Batches of no events panic or go on for ever, and a last window that ends past `u32::MAX`
overflows. -/
theorem write_phases_fail :
    ¬ Writes (snapshotLoop true 1000 0) ⟨0, 0⟩ 0 1000 0 ∧
    ¬ Writes (snapshotLoop true 4294967295 1000) ⟨0, 0⟩ 0 4294967295 1000 ∧
    ¬ Writes (scaleLoop eventLimit true 1000 0) ⟨0, 0⟩ 1 1000 0 ∧
    seedPhase 1000 0 = .error (.panicked "attempt to divide by zero") ∧
    ¬ Writes (rehydrateLoop true 4294967295) 0 0 4294967295 500 :=
  ⟨fun h => absurd (snapshot_writes_iff.mp h) (by decide),
    fun h => absurd (snapshot_writes_iff.mp h) (by decide),
    fun h => absurd (scale_writes_iff.mp h) (by decide), rfl,
    fun h => absurd (rehydrate_writes_iff.mp h) (by decide)⟩

end EventSourcing.Bench.WriteLoops
