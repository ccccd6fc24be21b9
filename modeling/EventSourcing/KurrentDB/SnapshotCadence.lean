import EventSourcing.KurrentDB.SnapshotDemo
import EventSourcing.Loops.Cuts

/-!
# The cadence of the snapshots

The demo is to take a snapshot after every event whose number is a multiple of `snapshot_every`,
which leaves the events after the last multiple to the rehydration. Its loop takes one after
every window, the shorter last one included, so that no event is ever left: the cadence is kept
exactly where there is no shorter window (`on_cadence_iff`).
-/

namespace EventSourcing.KurrentDB.SnapshotDemo

open Concurrency Fold Loops

/-! ### The cadence -/

namespace State

/-- The loop of the writes is done. -/
def Finished (cfg : Config) (σ : State) : Prop := σ.phase = .window ∧ ¬ σ.seq < cfg.eventCount

/-- The number, from one on, of the last event that each snapshot covers. -/
def snapshotNumbers (σ : State) : List (Option ℕ) :=
  σ.snapshots.events.map fun e =>
    (SnapshotEnvelope.fromValue e.data).map fun envelope => envelope.atStreamRevision.toNat + 1

/-- `trailing_count`: how many events the rehydration replays on top of the last snapshot. -/
def trailingCount (cfg : Config) (σ : State) : Except String ℕ := do
  let (_, startFrom) ← σ.loadSnapshot cfg
  let trailing ← σ.main.readStreamFromRevision cfg.missing cfg.streamName startFrom
  return trailing.length

end State

/-- What the demo says of its snapshots: one after each event whose number is a multiple of
`snapshot_every`, and the events after the last multiple are replayed. -/
structure OnCadence (cfg : Config) (σ : State) : Prop where
  numbers : σ.snapshotNumbers
    = (List.range (cfg.eventCount.toNat / cfg.snapshotEvery.toNat)).map fun i =>
      some ((i + 1) * cfg.snapshotEvery.toNat)
  count : σ.snapshots.events.length = cfg.eventCount.toNat / cfg.snapshotEvery.toNat
  trailing : σ.trailingCount cfg = .ok (cfg.eventCount.toNat % cfg.snapshotEvery.toNat)

/-! ### The windows -/

variable {cfg : Config} {σ σ' : State}

/-- The end of a window whose batch is stored, and the revision of its last event. -/
def Phase.batch : Phase → Option (UInt32 × UInt64)
  | .window => none
  | .appended _ windowEnd lastRevision => some (windowEnd, lastRevision)
  | .folded windowEnd lastRevision => some (windowEnd, lastRevision)

/-- `windows` windows are done, none of them empty, and each has left its snapshot. -/
structure Windows (cfg : Config) (windows : ℕ) (σ : State) : Prop where
  seq : σ.seq.toNat = min (windows * cfg.snapshotEvery.toNat) cfg.eventCount.toNat
  started : ∀ i < windows, i * cfg.snapshotEvery.toNat < cfg.eventCount.toNat
  numbers : σ.snapshotNumbers = (List.range windows).map fun i =>
    some (min ((i + 1) * cfg.snapshotEvery.toNat) cfg.eventCount.toNat)
  batch : ∀ windowEnd lastRevision, σ.phase.batch = some (windowEnd, lastRevision) →
    windows * cfg.snapshotEvery.toNat < cfg.eventCount.toNat ∧
      windowEnd.toNat = min ((windows + 1) * cfg.snapshotEvery.toNat) cfg.eventCount.toNat ∧
      lastRevision.toNat + 1 = windowEnd.toNat

lemma windows_init (h : (system cfg).init σ) : Windows cfg 0 σ := by
  subst h
  exact ⟨by simp, by simp, rfl, by simp [Phase.batch]⟩

/-- The answer to the append of a window is the revision of its last event. -/
lemma lastRevision_of_inv (h : Inv cfg σ) {applyLog : List (String × Text.Json)}
    {windowEnd : UInt32} {lastRevision : UInt64}
    (hphase : σ.phase = .appended applyLog windowEnd lastRevision) :
    lastRevision.toNat + 1 = windowEnd.toNat := by
  have hlive := h.live
  rw [LiveCovers, hphase] at hlive
  obtain ⟨before, batch, hmain, -, hlast, hbefore, -, hend, hpos, -⟩ := hlive
  have hlength : σ.main.events.length = windowEnd.toNat := by
    rw [hmain, Stream.length_append, List.length_map, hbefore, hend]
  have hmax := windowEnd.toNat_lt
  rw [hlast, Stream.nextExpectedVersion, hlength,
    UInt64.toNat_ofNat_of_lt' (show windowEnd.toNat - 1 < 2 ^ 64 by omega)]
  omega

lemma windows_append {windows : ℕ} {draws : UInt32 → Draw} (h : Windows cfg windows σ)
    (hinv' : Inv cfg σ') (hs : σ.next cfg (.append draws) = some σ') :
    Windows cfg windows σ' := by
  obtain ⟨main, snapshots, seq, liveState, phase⟩ := σ
  cases phase with
  | appended applyLog windowEnd lastRevision => cases hs
  | folded windowEnd lastRevision => cases hs
  | window =>
    simp only [State.next] at hs
    split_ifs at hs with hcond
    obtain ⟨hlt, hadd⟩ := hcond
    cases hs
    refine ⟨h.seq, h.started, h.numbers, ?_⟩
    intro windowEnd lastRevision hbatch
    obtain ⟨rfl, rfl⟩ := Prod.mk.inj (Option.some.inj hbatch)
    have hseq := h.seq
    have hlt' : seq.toNat < cfg.eventCount.toNat := hlt
    dsimp only at hseq hadd
    refine ⟨by omega, ?_, lastRevision_of_inv hinv' rfl⟩
    rw [toNat_windowEnd hadd, Nat.succ_mul]
    omega

lemma windows_fold {windows : ℕ} (h : Windows cfg windows σ) (hs : σ.next cfg .fold = some σ') :
    Windows cfg windows σ' := by
  obtain ⟨main, snapshots, seq, liveState, phase⟩ := σ
  cases phase with
  | window => cases hs
  | folded windowEnd lastRevision => cases hs
  | appended applyLog windowEnd lastRevision =>
    cases hs
    exact ⟨h.seq, h.started, h.numbers, h.batch⟩

/-- A snapshot ends a window. -/
lemma windows_snapshot {windows : ℕ} {takenAt : String} (h : Windows cfg windows σ)
    (hs : σ.next cfg (.snapshot takenAt) = some σ') : Windows cfg (windows + 1) σ' := by
  obtain ⟨main, snapshots, seq, liveState, phase⟩ := σ
  cases phase with
  | window => cases hs
  | appended applyLog windowEnd lastRevision => cases hs
  | folded windowEnd lastRevision =>
    cases hs
    obtain ⟨hstarted, hend, hlast⟩ := h.batch windowEnd lastRevision rfl
    refine ⟨hend, ?_, ?_, by simp [Phase.batch]⟩
    · intro i hi
      rcases Nat.lt_succ_iff_lt_or_eq.mp hi with hi | rfl
      · exact h.started i hi
      · exact hstarted
    · have hnumbers := h.numbers
      rw [State.snapshotNumbers] at hnumbers ⊢
      rw [Stream.append, List.map_append, hnumbers, List.range_succ, List.map_append,
        List.map_singleton]
      simp [Stream.record, SnapshotEnvelope.fromValue_toValue, hlast, hend]

lemma windows_of_reachable (hevery : 0 < cfg.snapshotEvery) (h : (system cfg).Reachable σ) :
    ∃ windows, Windows cfg windows σ := by
  induction h with
  | init hinit => exact ⟨0, windows_init hinit⟩
  | @step σ σ' a hreach _ hs ih =>
    obtain ⟨windows, hwindows⟩ := ih
    cases a with
    | append draws =>
      have hinv' := inv_of_reachable hevery (System.Reachable.next hreach hs)
      exact ⟨windows, windows_append hwindows hinv' hs⟩
    | fold => exact ⟨windows, windows_fold hwindows hs⟩
    | snapshot takenAt => exact ⟨windows + 1, windows_snapshot hwindows hs⟩

/-! ### The end of the loop -/

/-- The rehydration starts after the events of the windows that are done. -/
lemma Windows.loadSnapshot {windows : ℕ} (h : Windows cfg windows σ)
    (hreadable : σ.snapshots.Readable cfg.missing) (hcovers : SnapshotCovers σ) :
    ∃ state, σ.loadSnapshot cfg = .ok (state, .ofNat σ.seq.toNat) := by
  rw [State.loadSnapshot, Stream.readLastEvent_eq hreadable]
  have hlast : σ.snapshotNumbers.getLast? = ((List.range windows).map fun i =>
      some (min ((i + 1) * cfg.snapshotEvery.toNat) cfg.eventCount.toNat)).getLast? := by
    rw [h.numbers]
  rw [State.snapshotNumbers, List.getLast?_map, List.getLast?_map] at hlast
  cases hevents : σ.snapshots.events.getLast? with
  | none =>
    rw [hevents] at hlast
    have hzero : windows = 0 := by simpa using hlast
    have hseq : σ.seq.toNat = 0 := by
      rw [h.seq, hzero]
      simp
    rw [hseq]
    exact ⟨.initial, rfl⟩
  | some e =>
    obtain ⟨envelope, -, hdata, -⟩ := hcovers e hevents
    rw [hevents, Option.map_some, hdata, SnapshotEnvelope.fromValue_toValue] at hlast
    cases windows with
    | zero => simp at hlast
    | succ windows =>
      rw [List.getLast?_range, if_neg (Nat.succ_ne_zero windows), Option.map_some, Option.map_some,
        Nat.add_sub_cancel, ← h.seq] at hlast
      have hrevision := Option.some.inj (Option.some.inj hlast)
      refine ⟨envelope.state, ?_⟩
      dsimp only [Option.map_some, RecordedEvent.read, bind, Except.bind]
      rw [hdata, SnapshotEnvelope.fromValue_toValue, ← hrevision, UInt64.ofNat_add,
        UInt64.ofNat_toNat]
      rfl

/-- At the end of the loop no event is left for a rehydration that can read the snapshots. -/
lemma trailingCount_finished (hevery : 0 < cfg.snapshotEvery) (h : (system cfg).Reachable σ)
    (hfinished : σ.Finished cfg) (hreadable : σ.snapshots.Readable cfg.missing) :
    σ.trailingCount cfg = .ok 0 := by
  obtain ⟨windows, hwindows⟩ := windows_of_reachable hevery h
  have hinv := inv_of_reachable hevery h
  obtain ⟨state, hload⟩ := hwindows.loadSnapshot hreadable hinv.snapshot
  have hlive := hinv.live
  rw [LiveCovers, hfinished.1] at hlive
  have hlength : σ.main.events.length = σ.seq.toNat := hlive.1
  have hmax := σ.seq.toNat_lt
  have hmain := hinv.snapshot.readable hreadable
  rw [State.trailingCount, hload]
  dsimp only [bind, Except.bind]
  rw [Stream.readStreamFromRevision_eq hmain (by omega) (by omega)]
  refine congrArg Except.ok ?_
  rw [List.length_drop, Stream.length_reads, hlength, Nat.sub_self]

/-- At the end of the loop there is a snapshot for every window, the last one included. -/
lemma windows_finished (hevery : 0 < cfg.snapshotEvery) (h : (system cfg).Reachable σ)
    (hfinished : σ.Finished cfg) :
    ∃ windows, Windows cfg windows σ ∧
      windows * cfg.snapshotEvery.toNat = roundUp cfg.eventCount.toNat cfg.snapshotEvery.toNat := by
  have hevery' : 0 < cfg.snapshotEvery.toNat := hevery
  obtain ⟨windows, hwindows⟩ := windows_of_reachable hevery h
  have hdone : ¬ σ.seq.toNat < cfg.eventCount.toNat := hfinished.2
  have hseq := hwindows.seq
  refine ⟨windows, hwindows, Nat.le_antisymm ?_ (roundUp_le hevery' (by omega))⟩
  cases windows with
  | zero => simp
  | succ windows => exact succ_mul_le_roundUp hevery' (hwindows.started windows (by omega))

/-- A pass through the loop. -/
lemma exists_pass (hphase : σ.phase = .window) (hlt : σ.seq < cfg.eventCount)
    (hadd : σ.seq.toNat + cfg.snapshotEvery.toNat < 2 ^ 32) :
    ∃ σ', (system cfg).Later σ σ' ∧ σ'.phase = .window ∧ σ'.seq = cfg.windowEnd σ.seq := by
  obtain ⟨main, snapshots, seq, liveState, phase⟩ := σ
  obtain rfl : phase = .window := hphase
  let draws : UInt32 → Draw := fun _ => ⟨1, by decide, "now"⟩
  have happend : ∃ σ₁, (system cfg).next ⟨main, snapshots, seq, liveState, .window⟩
      (.append draws) = some σ₁ ∧ σ₁.seq = seq ∧
      ∃ applyLog lastRevision, σ₁.phase = .appended applyLog (cfg.windowEnd seq) lastRevision := by
    simp only [system, State.next]
    rw [if_pos ⟨hlt, hadd⟩]
    exact ⟨_, rfl, rfl, _, _, rfl⟩
  obtain ⟨⟨main₁, snapshots₁, seq₁, liveState₁, phase₁⟩, happend, hseq, applyLog, lastRevision,
    hphase₁⟩ := happend
  dsimp only at hseq hphase₁
  subst hseq hphase₁
  have hfirst : (system cfg).Later ⟨main, snapshots, seq₁, liveState, .window⟩
      ⟨main₁, snapshots₁, seq₁, liveState₁,
        .appended applyLog (cfg.windowEnd seq₁) lastRevision⟩ :=
    .single ⟨.append draws, happend⟩
  exact ⟨_, (hfirst.tail ⟨.fold, rfl⟩).tail ⟨.snapshot "now", rfl⟩, rfl, rfl⟩

/-- The windows that start within the events are reached. -/
lemma exists_window (hevery : 0 < cfg.snapshotEvery.toNat)
    (hfits : roundUp cfg.eventCount.toNat cfg.snapshotEvery.toNat < 2 ^ 32) {windows : ℕ}
    (hstarted : ∀ i < windows, i * cfg.snapshotEvery.toNat < cfg.eventCount.toNat) :
    ∃ σ, (system cfg).Reachable σ ∧ σ.phase = .window ∧
      σ.seq.toNat = min (windows * cfg.snapshotEvery.toNat) cfg.eventCount.toNat := by
  induction windows with
  | zero => exact ⟨⟨.empty, .empty, 0, .initial, .window⟩, .init rfl, rfl, by simp⟩
  | succ windows ih =>
    obtain ⟨σ, hreach, hphase, hseq⟩ := ih fun i hi => hstarted i (by omega)
    have hstart := hstarted windows (by omega)
    have hnext := succ_mul_le_roundUp hevery hstart
    rw [Nat.succ_mul] at hnext ⊢
    have hlt : σ.seq.toNat < cfg.eventCount.toNat := by omega
    have hadd : σ.seq.toNat + cfg.snapshotEvery.toNat < 2 ^ 32 := by omega
    obtain ⟨σ', hlater, hphase', hseq'⟩ := exists_pass hphase hlt hadd
    refine ⟨σ', hreach.later hlater, hphase', ?_⟩
    rw [hseq', toNat_windowEnd hadd]
    omega

/-- The loop gets to its end. -/
lemma exists_finished (hevery : 0 < cfg.snapshotEvery)
    (hfits : roundUp cfg.eventCount.toNat cfg.snapshotEvery.toNat < 2 ^ 32) :
    ∃ σ, (system cfg).Reachable σ ∧ σ.Finished cfg := by
  have hevery' : 0 < cfg.snapshotEvery.toNat := hevery
  have hstarted : ∀ i < roundUp cfg.eventCount.toNat cfg.snapshotEvery.toNat
      / cfg.snapshotEvery.toNat, i * cfg.snapshotEvery.toNat < cfg.eventCount.toNat := by
    intro i hi
    rw [roundUp, Nat.mul_div_cancel _ hevery', Nat.lt_iff_add_one_le,
      Nat.le_div_iff_mul_le hevery', Nat.succ_mul] at hi
    omega
  obtain ⟨σ, hreach, hphase, hseq⟩ := exists_window hevery' hfits hstarted
  refine ⟨σ, hreach, hphase, ?_⟩
  have hround : cfg.eventCount.toNat ≤ roundUp cfg.eventCount.toNat cfg.snapshotEvery.toNat :=
    le_roundUp hevery'
  show ¬ σ.seq.toNat < cfg.eventCount.toNat
  rw [hseq, roundUp, Nat.mul_div_cancel _ hevery']
  rw [roundUp] at hround
  omega

/-! ### The cadence is kept -/

/-- The loop has left a snapshot unless there was no event. -/
lemma snapshots_finished (hevery : 0 < cfg.snapshotEvery) (h : (system cfg).Reachable σ)
    (hfinished : σ.Finished cfg) : σ.snapshots.events ≠ [] ↔ 1 ≤ cfg.eventCount := by
  have hevery' : 0 < cfg.snapshotEvery.toNat := hevery
  obtain ⟨windows, hwindows, hround⟩ := windows_finished hevery h hfinished
  have hlength : σ.snapshots.events.length = windows := by
    simpa [State.snapshotNumbers] using congrArg List.length hwindows.numbers
  rw [← List.length_pos_iff, hlength, UInt32.le_iff_toNat_le]
  have hcovered : cfg.eventCount.toNat ≤ windows * cfg.snapshotEvery.toNat :=
    hround ▸ le_roundUp hevery'
  constructor
  · intro hpos
    have hstarted := hwindows.started 0 hpos
    rw [Nat.zero_mul] at hstarted
    exact hstarted
  · intro hone
    by_contra hnone
    rw [Nat.eq_zero_of_not_pos hnone, Nat.zero_mul] at hcovered
    exact absurd (hone.trans hcovered) (by decide)

lemma readable_finished (hevery : 0 < cfg.snapshotEvery) (h : (system cfg).Reachable σ)
    (hfinished : σ.Finished cfg) :
    σ.snapshots.Readable cfg.missing ↔ 1 ≤ cfg.eventCount ∨ cfg.missing.NotFound :=
  or_congr_left (snapshots_finished hevery h hfinished)

lemma trailingCount_error (h : ¬ σ.snapshots.Readable cfg.missing) :
    ∃ msg, σ.trailingCount cfg = .error msg := by
  obtain ⟨msg, hmsg⟩ := loadSnapshot_error h
  exact ⟨msg, by rw [State.trailingCount, hmsg]; rfl⟩

/-- The demo gets to the end of its loop, and there its snapshots are on the cadence if and only
if the number of events is a multiple of `snapshot_every`, and there are events unless the client
reports a stream that does not exist as the reads expect it. -/
theorem on_cadence_iff (hevery : 0 < cfg.snapshotEvery)
    (hfits : roundUp cfg.eventCount.toNat cfg.snapshotEvery.toNat < 2 ^ 32) :
    (∃ σ, (system cfg).Reachable σ ∧ σ.Finished cfg) ∧
    ∀ σ, (system cfg).Reachable σ → σ.Finished cfg →
      (OnCadence cfg σ ↔ cfg.snapshotEvery.toNat ∣ cfg.eventCount.toNat ∧
        (1 ≤ cfg.eventCount ∨ cfg.missing.NotFound)) := by
  have hevery' : 0 < cfg.snapshotEvery.toNat := hevery
  refine ⟨exists_finished hevery hfits, fun σ h hfinished => ?_⟩
  obtain ⟨windows, hwindows, hround⟩ := windows_finished hevery h hfinished
  rw [← readable_finished hevery h hfinished]
  constructor
  · intro hcadence
    have hreadable : σ.snapshots.Readable cfg.missing := by
      by_contra hnot
      obtain ⟨msg, hmsg⟩ := trailingCount_error hnot
      cases hmsg.symm.trans hcadence.trailing
    have htrailing := trailingCount_finished hevery h hfinished hreadable
    have hzero := Except.ok.inj (htrailing.symm.trans hcadence.trailing)
    exact ⟨Nat.dvd_of_mod_eq_zero hzero.symm, hreadable⟩
  · rintro ⟨⟨multiples, hmultiples⟩, hreadable⟩
    have htrailing := trailingCount_finished hevery h hfinished hreadable
    -- the last window is not shorter
    have hexact : roundUp cfg.eventCount.toNat cfg.snapshotEvery.toNat = cfg.eventCount.toNat := by
      refine Nat.le_antisymm ?_ (le_roundUp hevery')
      rw [hmultiples, Nat.mul_comm]
      exact roundUp_le hevery' le_rfl
    rw [hexact] at hround
    have hcount : cfg.eventCount.toNat / cfg.snapshotEvery.toNat = windows := by
      rw [← hround, Nat.mul_div_cancel _ hevery']
    have hnumbers : σ.snapshotNumbers = (List.range windows).map fun i =>
        some ((i + 1) * cfg.snapshotEvery.toNat) := by
      rw [hwindows.numbers]
      refine List.map_congr_left fun i hi => ?_
      have hle := Nat.mul_le_mul_right cfg.snapshotEvery.toNat (List.mem_range.mp hi)
      rw [Nat.min_eq_left (by rwa [hround] at hle)]
    refine ⟨by rw [hcount, hnumbers], ?_, ?_⟩
    · rw [hcount]
      simpa [State.snapshotNumbers] using congrArg List.length hnumbers
    · rw [htrailing, ← hround, Nat.mul_mod_left]

/-! ### Four events, a thousand, and none -/

def cadenceConfig (eventCount snapshotEvery : UInt32) : Config :=
  { demoConfig with eventCount := eventCount, snapshotEvery := snapshotEvery }

theorem on_cadence_of_four :
    (∃ σ, (system (cadenceConfig 4 2)).Reachable σ ∧ σ.Finished (cadenceConfig 4 2)) ∧
    ∀ σ, (system (cadenceConfig 4 2)).Reachable σ → σ.Finished (cadenceConfig 4 2) →
      OnCadence (cadenceConfig 4 2) σ := by
  obtain ⟨hend, hcadence⟩ := @on_cadence_iff (cadenceConfig 4 2) (by decide) (by decide)
  exact ⟨hend, fun σ h hfinished =>
    (hcadence σ h hfinished).mpr ⟨⟨2, rfl⟩, .inl (by decide)⟩⟩

/-- With the defaults, a thousand events and a snapshot every 55, there are nineteen snapshots
and no trailing events, not eighteen and ten; and where there is no event the rehydration fails,
for the client reports the missing stream of the snapshots by an error of `next`. -/
theorem on_cadence_fails :
    (∃ σ, (system (cadenceConfig 1000 55)).Reachable σ ∧ σ.Finished (cadenceConfig 1000 55) ∧
      σ.snapshots.events.length = 19 ∧ σ.trailingCount (cadenceConfig 1000 55) = .ok 0 ∧
      ¬ OnCadence (cadenceConfig 1000 55) σ) ∧
    ∃ σ, (system (cadenceConfig 0 55)).Reachable σ ∧ σ.Finished (cadenceConfig 0 55) ∧
      (∃ msg, σ.trailingCount (cadenceConfig 0 55) = .error msg) ∧
      ¬ OnCadence (cadenceConfig 0 55) σ := by
  constructor
  · obtain ⟨σ, hreach, hfinished⟩ : ∃ σ, (system (cadenceConfig 1000 55)).Reachable σ ∧
        σ.Finished (cadenceConfig 1000 55) := exists_finished (by decide) (by decide)
    obtain ⟨windows, hwindows, hround⟩ := windows_finished (by decide) hreach hfinished
    have hreadable := (readable_finished (by decide) hreach hfinished).mpr (.inl (by decide))
    have htrailing := trailingCount_finished (by decide) hreach hfinished hreadable
    have hcount : windows = 19 := by
      have hround : windows * 55 = 1045 := hround
      omega
    have hlength : σ.snapshots.events.length = 19 := by
      have hnumbers := congrArg List.length hwindows.numbers
      simpa [State.snapshotNumbers, hcount] using hnumbers
    refine ⟨σ, hreach, hfinished, hlength, htrailing, fun hcadence => ?_⟩
    have hcount := hlength.symm.trans hcadence.count
    exact absurd hcount (by decide)
  · refine ⟨demoStart, .init rfl, ⟨rfl, by decide⟩, ⟨_, rfl⟩, fun hcadence => ?_⟩
    have herror : ∃ msg, demoStart.trailingCount (cadenceConfig 0 55) = .error msg := ⟨_, rfl⟩
    obtain ⟨msg, hmsg⟩ := herror
    cases hmsg.symm.trans hcadence.trailing

end EventSourcing.KurrentDB.SnapshotDemo
