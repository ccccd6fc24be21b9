import EventSourcing.Bench.Consumers
import EventSourcing.HotTail.Runner

/-!
# The ring buffers of the benches

`RecentEventsCache` of `hot_cache_bench` and the view of `projection_bench` evict their oldest
element when their length equals the capacity. That keeps the last `capacity` elements pushed,
except where the capacity is zero: there the length equals it before the first push only, when
there is nothing to evict, and the buffer grows with every push (`buffers_keep_last_iff`).
-/

namespace EventSourcing.HotTail

open Bench (pushToView)
open Fold Events

/-! ### The constructors -/

/-- `capacity + 1`: an overflow panics in a build with overflow checks and wraps in one
without. -/
def oneMore (overflowChecks : Bool) (capacity : UInt64) : Option UInt64 :=
  if overflowChecks = true ∧ capacity.toNat + 1 = 2 ^ 64 then none else some (capacity + 1)

/-- `VecDeque::with_capacity` for elements of the given size; a capacity of more than
`isize::MAX` bytes panics. -/
def dequeWithCapacity (E : Type) (size : ℕ) (n : UInt64) : Option (List E) :=
  if n.toNat * size < 2 ^ 63 then some [] else none

/-- `RecentEventsCache::new`, with its allocation. -/
def RecentEventsCache.allocate (overflowChecks : Bool) (capacity : UInt64) :
    Option RecentEventsCache :=
  ((oneMore overflowChecks capacity).bind (dequeWithCapacity BenchmarkEvent eventSize)).map
    fun inner => { inner := inner, capacity := capacity }

/-- `new_view` -/
def newView (overflowChecks : Bool) (capacity : UInt64) : Option (List UInt64) :=
  (oneMore overflowChecks capacity).bind (dequeWithCapacity UInt64 8)

/-- `read_view` -/
def readView (view : List UInt64) : List UInt64 := view

/-! ### What a buffer is for -/

/-- The buffer is there, and after each push it holds the last `capacity` elements pushed, in
the order of the pushes, and no more than `capacity` elements. -/
def KeepsLast {C E : Type} (start : Option C) (push : C → E → C) (contents : C → List E)
    (capacity : ℕ) (pushed : List E) : Prop :=
  ∃ buffer, start = some buffer ∧ ∀ before, before <+: pushed →
    contents (before.foldl push buffer) = before.rtake (min capacity before.length) ∧
      (contents (before.foldl push buffer)).length ≤ capacity

/-- The constructor does not panic: its allocation is within `isize::MAX` bytes, also where
`capacity + 1` has wrapped to zero. -/
def Fits (overflowChecks : Bool) (size : ℕ) (capacity : UInt64) : Prop :=
  if capacity.toNat + 1 = 2 ^ 64 then overflowChecks = false
  else (capacity.toNat + 1) * size < 2 ^ 63

variable {C E : Type} {start : Option C} {push : C → E → C} {contents : C → List E} {n : ℕ}
  {pushed : List E} {overflowChecks : Bool} {capacity : UInt64}

lemma rtake_min_length (log : List E) : log.rtake (min n log.length) = log.rtake n := by
  rw [List.rtake, List.rtake]
  congr 1
  omega

/-- A buffer that slides keeps the last elements exactly where the capacity is not zero. -/
lemma keepsLast_iff (hslide : ∀ buffer, start = some buffer → ∀ pushed : List E,
      contents (pushed.foldl push buffer) = pushed.foldl (slide n) []) :
    KeepsLast start push contents n pushed ↔ start.isSome ∧ (n ≠ 0 ∨ pushed = []) := by
  constructor
  · rintro ⟨buffer, hstart, hkeeps⟩
    refine ⟨by rw [hstart]; rfl, foldl_slide_nil_iff.mp ?_⟩
    rw [← hslide buffer hstart pushed, (hkeeps pushed List.prefix_rfl).1, rtake_min_length]
  · rintro ⟨hsome, hn⟩
    obtain ⟨buffer, hstart⟩ := Option.isSome_iff_exists.mp hsome
    refine ⟨buffer, hstart, fun before hbefore => ?_⟩
    have hn' : n ≠ 0 ∨ before = [] :=
      hn.imp_right fun hnil => List.prefix_nil.mp (by rwa [hnil] at hbefore)
    have hlast : contents (before.foldl push buffer) = before.rtake n := by
      rw [hslide buffer hstart, foldl_slide_nil_iff.mpr hn']
    rw [hlast, rtake_min_length, length_rtake]
    exact ⟨rfl, Nat.min_le_left _ _⟩

lemma oneMore_bind_isSome {size : ℕ} :
    ((oneMore overflowChecks capacity).bind (dequeWithCapacity E size)).isSome ↔
      Fits overflowChecks size capacity := by
  have hlt := capacity.toNat_lt
  have hsum : (capacity + 1).toNat = (capacity.toNat + 1) % 2 ^ 64 := by
    rw [UInt64.toNat_add]
    rfl
  rw [oneMore, Fits]
  by_cases hmax : capacity.toNat + 1 = 2 ^ 64
  · rw [if_pos hmax]
    cases overflowChecks with
    | true => simp [hmax]
    | false => simp [dequeWithCapacity, hsum, hmax]
  · rw [if_neg hmax, if_neg fun h => hmax h.2, Option.bind_some, dequeWithCapacity, hsum,
      Nat.mod_eq_of_lt (by omega)]
    split_ifs with hfits
    · simpa using hfits
    · simpa using hfits

lemma dequeWithCapacity_eq_some {size : ℕ} {m : Option UInt64} {deque : List E}
    (h : m.bind (dequeWithCapacity E size) = some deque) : deque = [] := by
  obtain ⟨n, -, hn⟩ := Option.bind_eq_some_iff.mp h
  rw [dequeWithCapacity] at hn
  split_ifs at hn
  exact (Option.some.inj hn).symm

/-! ### The cache and the view -/

lemma snapshot_foldl_push (buffer : RecentEventsCache)
    (h : RecentEventsCache.allocate overflowChecks capacity = some buffer)
    (events : List BenchmarkEvent) :
    (events.foldl RecentEventsCache.push buffer).snapshot
      = events.foldl (slide capacity.toNat) [] := by
  obtain ⟨inner, hinner, rfl⟩ := Option.map_eq_some_iff.mp h
  obtain rfl := dequeWithCapacity_eq_some hinner
  rw [foldl_push]
  rfl

lemma readView_foldl_push (view : List UInt64)
    (h : newView overflowChecks capacity = some view) (seqs : List UInt64) :
    readView (seqs.foldl (fun view seq => pushToView view seq capacity.toNat) view)
      = seqs.foldl (slide capacity.toNat) [] := by
  obtain rfl := dequeWithCapacity_eq_some h
  rfl

lemma keepsLast_cache_iff (events : List BenchmarkEvent) :
    KeepsLast (RecentEventsCache.allocate overflowChecks capacity) RecentEventsCache.push
        RecentEventsCache.snapshot capacity.toNat events ↔
      Fits overflowChecks eventSize capacity ∧ (capacity ≠ 0 ∨ events = []) := by
  rw [keepsLast_iff snapshot_foldl_push, RecentEventsCache.allocate, Option.isSome_map,
    oneMore_bind_isSome, Ne, Ne, ← UInt64.toNat_inj]
  rfl

lemma keepsLast_view_iff (seqs : List UInt64) :
    KeepsLast (newView overflowChecks capacity)
        (fun view seq => pushToView view seq capacity.toNat) readView capacity.toNat seqs ↔
      Fits overflowChecks 8 capacity ∧ (capacity ≠ 0 ∨ seqs = []) := by
  rw [keepsLast_iff readView_foldl_push, newView, oneMore_bind_isSome, Ne, Ne,
    ← UInt64.toNat_inj]
  rfl

/-- Both buffers keep the last elements pushed if and only if their allocation fits and the
capacity is not zero, or nothing is pushed. -/
theorem buffers_keep_last_iff (overflowChecks : Bool) (capacity : UInt64) :
    (∀ events : List BenchmarkEvent,
      KeepsLast (RecentEventsCache.allocate overflowChecks capacity) RecentEventsCache.push
          RecentEventsCache.snapshot capacity.toNat events ↔
        Fits overflowChecks eventSize capacity ∧ (capacity ≠ 0 ∨ events = [])) ∧
    ∀ seqs : List UInt64,
      KeepsLast (newView overflowChecks capacity)
          (fun view seq => pushToView view seq capacity.toNat) readView capacity.toNat seqs ↔
        Fits overflowChecks 8 capacity ∧ (capacity ≠ 0 ∨ seqs = []) :=
  ⟨keepsLast_cache_iff, keepsLast_view_iff⟩

/-- With capacity zero both hold what is pushed, and with the greatest capacity the constructors
panic in a build with overflow checks. -/
theorem buffers_keep_last_fails :
    (RecentEventsCache.allocate false 0).map
        (fun cache => (cache.push (newEvent 1 0 .epoch)).snapshot)
      = some [newEvent 1 0 .epoch] ∧
    ¬ KeepsLast (RecentEventsCache.allocate false 0) RecentEventsCache.push
      RecentEventsCache.snapshot 0 [newEvent 1 0 .epoch] ∧
    ¬ KeepsLast (newView false 0) (fun view seq => pushToView view seq 0) readView 0 [1] ∧
    newView true 18446744073709551615 = none := by
  refine ⟨rfl, ?_, ?_, by decide⟩
  · rintro ⟨cache, hcache, hkeeps⟩
    obtain rfl := Option.some.inj hcache
    exact absurd (hkeeps _ List.prefix_rfl).2 (by decide)
  · rintro ⟨view, hview, hkeeps⟩
    obtain rfl := Option.some.inj hview
    exact absurd (hkeeps _ List.prefix_rfl).2 (by decide)

end EventSourcing.HotTail
