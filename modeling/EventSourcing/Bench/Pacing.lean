import EventSourcing.Concurrency.Ticks

/-!
# The pacing of the dispatch loops

The loops of the write benchmarks and of the contention benches write on the ticks of an
interval whose period they compute from the target rate: the ticks of a second are rounded up,
then the microseconds of a tick are rounded down. Both roundings shorten the period, so the
offered rate is within the target only where neither rounds (`pacing_iff`).
-/

namespace EventSourcing.Bench

open Concurrency

/-! ### The period -/

/-- `tokio::time::interval`, which panics on a period of zero. -/
def interval (periodUs : ℕ) : Option ℕ := if periodUs = 0 then none else some periodUs

/-- `((target_rate as f64) / (batch_size as f64)).ceil() as u64`, without rounding to floats. -/
def ticksPerSec (targetRate batchSize : ℕ) : ℕ := (targetRate + (batchSize - 1)) / batchSize

/-- `1_000_000u64 / ticks_per_sec.max(1)` -/
def tickUs (ticksPerSec : ℕ) : ℕ := 1000000 / max ticksPerSec 1

/-- `batch_size.max(1)` events are written on a tick. -/
def batchOf (batchSize : UInt64) : ℕ := (max batchSize 1).toNat

/-- The period of the `run` functions of the three `benchmark` modules. -/
def benchmarkTickUs (targetRate batchSize : UInt64) : ℕ :=
  tickUs (ticksPerSec targetRate.toNat (batchOf batchSize))

/-- The period of both phases of the three `hot_stream_contention_bench` modules, which write
one event on a tick. -/
def contentionTickUs (targetRate : UInt64) : ℕ := tickUs targetRate.toNat

/-! ### What pacing is for -/

/-- The period is one that an interval takes, and if every tick writes `batch` events, then from
one tick to the end of a window of any length no more events are written than the target rate
gives for the window, and one batch. The target is rounded down, which a number of events does
not notice. -/
def KeepsRate (targetRate batch periodUs : ℕ) : Prop :=
  ∃ period, interval periodUs = some period ∧ 1 ≤ period ∧
    ∀ t ticks window, Ticks period (t :: ticks) →
      batch * (t :: ticks).countP (fun t' => t' ≤ t + window)
        ≤ targetRate * window / 1000000 + batch

variable {targetRate batch period : ℕ}

/-- It is enough to look at one period. -/
lemma keepsRate_iff_period :
    KeepsRate targetRate batch period ↔ 0 < period ∧ batch * 1000000 ≤ targetRate * period := by
  constructor
  · rintro ⟨_, hinterval, hperiod, hrate⟩
    rw [interval] at hinterval
    split_ifs at hinterval
    obtain rfl := Option.some.inj hinterval
    have hpair := hrate 0 [0 + period] period ticks_pair
    rw [List.countP_cons_of_pos (by simp), List.countP_cons_of_pos (by simp)] at hpair
    refine ⟨hperiod, (Nat.le_div_iff_mul_le (by decide)).mp ?_⟩
    simp only [List.countP_nil, Nat.zero_add] at hpair
    omega
  · rintro ⟨hperiod, hbatch⟩
    refine ⟨period, if_neg hperiod.ne', hperiod, fun t ticks window hticks => ?_⟩
    have hcount : (t :: ticks).countP (fun t' => t' ≤ t + window) ≤ window / period + 1 :=
      hticks.countP_le hperiod
    have hwhole : batch * (window / period) ≤ targetRate * window / 1000000 := by
      rw [Nat.le_div_iff_mul_le (by decide)]
      calc batch * (window / period) * 1000000
          = batch * 1000000 * (window / period) := Nat.mul_right_comm ..
        _ ≤ targetRate * period * (window / period) := Nat.mul_le_mul_right _ hbatch
        _ = targetRate * (period * (window / period)) := Nat.mul_assoc ..
        _ ≤ targetRate * window := Nat.mul_le_mul_left _ (Nat.mul_div_le window period)
    calc batch * (t :: ticks).countP (fun t' => t' ≤ t + window)
        ≤ batch * (window / period + 1) := Nat.mul_le_mul_left _ hcount
      _ = batch * (window / period) + batch := Nat.mul_succ ..
      _ ≤ targetRate * window / 1000000 + batch := Nat.add_le_add_right hwhole _

/-! ### The two roundings -/

/-- The ticks of a second are enough for the target. -/
lemma le_ticksPerSec_mul (hbatch : 0 < batch) :
    targetRate ≤ batch * ticksPerSec targetRate batch := by
  have hceil := Nat.lt_mul_div_succ (targetRate + (batch - 1)) hbatch
  rw [Nat.mul_succ] at hceil
  rw [ticksPerSec]
  omega

lemma ticksPerSec_mul (hbatch : 0 < batch) (n : ℕ) : ticksPerSec (batch * n) batch = n := by
  rw [ticksPerSec, Nat.mul_add_div hbatch, Nat.div_eq_of_lt (by omega), Nat.add_zero]

/-- Ticks that are enough keep the rate where they are no more than enough and divide a
second. -/
lemma keepsRate_tickUs_iff {ticks : ℕ} (hbatch : 0 < batch) (henough : targetRate ≤ batch * ticks) :
    KeepsRate targetRate batch (tickUs ticks) ↔ targetRate = batch * ticks ∧ ticks ∣ 1000000 := by
  rw [keepsRate_iff_period]
  constructor
  · rintro ⟨hperiod, hrate⟩
    have hticks : 0 < ticks := by
      rcases Nat.eq_zero_or_pos ticks with rfl | hpos
      · rw [Nat.le_zero.mp henough, Nat.zero_mul] at hrate
        omega
      · exact hpos
    rw [tickUs, Nat.max_eq_left hticks] at hperiod hrate
    generalize htick : 1000000 / ticks = tick at hperiod hrate
    have hsecond : ticks * tick ≤ 1000000 := htick ▸ Nat.mul_div_le 1000000 ticks
    -- the chain of the roundings closes, so each of them is exact
    have hlower : targetRate * tick ≤ batch * (ticks * tick) := by
      rw [← Nat.mul_assoc]
      exact Nat.mul_le_mul_right _ henough
    have hupper : batch * (ticks * tick) ≤ batch * 1000000 := Nat.mul_le_mul_left _ hsecond
    have hexact : targetRate * tick = batch * ticks * tick := by
      rw [Nat.mul_assoc]
      omega
    have hwhole : batch * (ticks * tick) = batch * 1000000 := by omega
    exact ⟨Nat.eq_of_mul_eq_mul_right hperiod hexact,
      ⟨tick, (Nat.eq_of_mul_eq_mul_left hbatch hwhole).symm⟩⟩
  · rintro ⟨rfl, tick, htick⟩
    have hticks : 0 < ticks := by
      rcases Nat.eq_zero_or_pos ticks with rfl | hpos
      · omega
      · exact hpos
    have hperiod : tickUs ticks = tick := by
      rw [tickUs, Nat.max_eq_left hticks, htick, Nat.mul_div_cancel_left _ hticks]
    rw [hperiod, htick, Nat.mul_assoc]
    refine ⟨Nat.pos_of_ne_zero ?_, le_rfl⟩
    rintro rfl
    omega

lemma batchOf_pos (batchSize : UInt64) : 0 < batchOf batchSize := by
  have hle : (1 : UInt64) ≤ max batchSize 1 := by
    show 1 ≤ if batchSize ≤ 1 then 1 else batchSize
    split_ifs with h
    · exact UInt64.le_refl 1
    · exact UInt64.le_of_lt (UInt64.not_le.mp h)
  exact UInt64.le_iff_toNat_le.mp hle

/-- The loops keep the rate, for every target and batch size, exactly where no rounding takes
place: where the batch divides the target and the quotient divides the microseconds of a
second. -/
theorem pacing_iff (targetRate batchSize : UInt64) :
    (KeepsRate targetRate.toNat (batchOf batchSize) (benchmarkTickUs targetRate batchSize) ↔
      batchOf batchSize ∣ targetRate.toNat ∧
        targetRate.toNat / batchOf batchSize ∣ 1000000) ∧
    (KeepsRate targetRate.toNat 1 (contentionTickUs targetRate) ↔ targetRate.toNat ∣ 1000000) := by
  constructor
  · have hpos := batchOf_pos batchSize
    rw [benchmarkTickUs, keepsRate_tickUs_iff hpos (le_ticksPerSec_mul hpos)]
    constructor
    · rintro ⟨hrate, hdvd⟩
      refine ⟨⟨_, hrate⟩, ?_⟩
      rwa [Nat.div_eq_of_eq_mul_right hpos hrate]
    · rintro ⟨⟨n, hn⟩, hdvd⟩
      rw [hn, Nat.mul_div_cancel_left _ hpos] at hdvd
      rw [hn, ticksPerSec_mul hpos]
      exact ⟨rfl, hdvd⟩
  · rw [contentionTickUs, keepsRate_tickUs_iff Nat.one_pos (Nat.one_mul _).ge, Nat.one_mul]
    exact and_iff_right rfl

/-- A target of two million a second gives a period of zero; fifteen a second in batches of ten
offer twenty, thirty of them from a tick to the end of a second; seven a second in the contention
benches are two within 142857 µs. -/
theorem pacing_fails :
    interval (benchmarkTickUs 2000000 1) = none ∧ interval (contentionTickUs 2000000) = none ∧
    ¬ KeepsRate 15 (batchOf 10) (benchmarkTickUs 15 10) ∧
    ¬ KeepsRate 7 1 (contentionTickUs 7) := by
  refine ⟨by decide, by decide, ?_, ?_⟩
  · rw [keepsRate_iff_period]
    decide
  · rw [keepsRate_iff_period]
    decide

end EventSourcing.Bench
