import EventSourcing.Concurrency.CatchUp
import EventSourcing.Concurrency.Observer

/-!
# Replays that stop and start again

A run of a consumer hands documents to a handler and stores a checkpoint after each call that
succeeds; it may stop anywhere, and the next run starts above the checkpoint that is stored
then. `History` keeps what the runs have done, next to the consumer (`Observer.recording`).

`Replay` is such a consumer over documents that do not change. `replayed_of_reachable` says what
its runs come to: each is a block of the documents above the checkpoint it starts from, no
document comes before an earlier one has succeeded, and only a run that stops makes a call that
has to be made again. `Replays` is what one has to show of a consumer to get this for it.
-/

namespace Concurrency

/-! ### What runs have done -/

structure Run (D K : Type*) where
  /-- the run starts above this checkpoint -/
  start : K
  /-- the documents passed to the handler, and whether it succeeded -/
  calls : List (D × Bool)
  /-- the checkpoints stored -/
  saves : List K

structure History (D K : Type*) where
  /-- the runs that have stopped -/
  ended : List (Run D K)
  /-- the run at work -/
  current : Option (Run D K)

namespace History

variable {D K : Type*} (h : History D K)

def empty : History D K := ⟨[], none⟩

/-- All runs, in their order. -/
def runs : List (Run D K) := h.ended ++ h.current.toList

/-- The calls of all runs, in their order. -/
def calls : List (D × Bool) := h.runs.flatMap Run.calls

def started (start : K) : History D K := { h with current := some ⟨start, [], []⟩ }

def called (d : D) (succeeded : Bool) : History D K :=
  { h with current := h.current.map fun run =>
      { run with calls := run.calls ++ [(d, succeeded)] } }

def saved (checkpoint : K) : History D K :=
  { h with current := h.current.map fun run => { run with saves := run.saves ++ [checkpoint] } }

def stopped : History D K := ⟨h.runs, none⟩

variable {h} {run : Run D K} {d : D} {succeeded : Bool} {start : K}

@[simp] lemma runs_stopped : h.stopped.runs = h.runs := List.append_nil _

@[simp] lemma calls_stopped : h.stopped.calls = h.calls := by rw [calls, runs_stopped, calls]

lemma calls_started (hcurrent : h.current = none) (start : K) :
    (h.started start).calls = h.calls := by
  simp [calls, runs, started, hcurrent]

lemma calls_called (hcurrent : h.current = some run) (d : D) (succeeded : Bool) :
    (h.called d succeeded).calls = h.calls ++ [(d, succeeded)] := by
  simp [calls, runs, called, hcurrent]

@[simp] lemma calls_saved {checkpoint : K} : (h.saved checkpoint).calls = h.calls := by
  cases hcurrent : h.current <;> simp [calls, runs, saved, hcurrent]

end History

/-! ### A consumer next to its runs -/

/-- A step of a subscriber, or a run that ends with a call of the handler. -/
inductive RecordedStep (B : Type*) where
  | step (step : B)
  /-- the handler is called, and the run ends before it has succeeded -/
  | fail
  deriving DecidableEq

/-- A subscriber and its runs so far. `record` is what a step adds to them, `pending` the document
that the handler is called with next, and `stop` ends the run. -/
def Observer.recording {S T B D K : Type*} (O : Observer S T B)
    (record : S → T → B → History D K → History D K) (pending : S → T → Option D) (stop : T → T) :
    Observer S (T × History D K) (RecordedStep B) where
  init q := O.init q.1 ∧ q.2 = .empty
  next s q
    | .step b => (O.next s q.1 b).map fun t => (t, record s q.1 b q.2)
    | .fail => (pending s q.1).map fun d => (stop q.1, (q.2.called d false).stopped)

/-! ### A replay -/

/-- How far a run has come. -/
inductive Replay.Phase (K : Type*) where
  | idle
  | ready
  /-- the handler has succeeded on the document with this key -/
  | handled (position : K)

structure Replay (D K : Type*) where
  checkpoint : K
  phase : Replay.Phase K
  history : History D K

namespace Replay

variable {D K : Type*} [LinearOrder K] (key : D → K) (docs : List D)

/-- The documents above a checkpoint, in the order of their keys. -/
def above (checkpoint : K) : List D := Cursor.remaining key docs (checkpoint : WithBot K)

inductive Step where
  | start
  | call (succeeds : Bool)
  | save
  | stop

def next (s : Replay D K) : Step → Option (Replay D K)
  | .start =>
    match s.phase with
    | .idle => some { s with phase := .ready, history := s.history.started s.checkpoint }
    | _ => none
  | .call succeeds =>
    match s.phase, above key docs s.checkpoint with
    | .ready, d :: _ =>
      let history := s.history.called d succeeds
      if succeeds then some { s with phase := .handled (key d), history := history }
      else some { s with phase := .idle, history := history.stopped }
    | _, _ => none
  | .save =>
    match s.phase with
    | .handled position =>
      some { checkpoint := position, phase := .ready, history := s.history.saved position }
    | _ => none
  | .stop => some { s with phase := .idle, history := s.history.stopped }

/-- Replays of a consumer that starts with the checkpoint `initial`. -/
def system (initial : K) : System (Replay D K) Step where
  init s := s = { checkpoint := initial, phase := .idle, history := .empty }
  next := next key docs

/-! ### What the runs come to -/

/-- Each run passes on the first documents above the checkpoint it starts from. -/
def Blocks (h : History D K) : Prop :=
  ∀ run ∈ h.runs, run.calls.map (·.1) <+: above key docs run.start

/-- No document is passed to the handler before the handler has succeeded on the earlier ones. -/
def InOrder (initial : K) (calls : List (D × Bool)) : Prop :=
  ∀ before d succeeded after, calls = before ++ (d, succeeded) :: after →
    ∀ d' ∈ above key docs initial, key d' < key d → (d', true) ∈ before

structure Replayed (initial : K) (h : History D K) : Prop where
  blocks : Blocks key docs h
  inOrder : InOrder key docs initial h.calls
  /-- a call beyond the first for each document is paid for by a run that has stopped -/
  count : h.calls.length ≤ (above key docs initial).length + h.ended.length

variable {key docs} {initial c : K} {s s' : Replay D K} {h : History D K}
  {run : Run D K} {calls : List (D × Bool)} {d : D}

lemma mem_above : d ∈ above key docs c ↔ d ∈ docs ∧ c < key d := by
  rw [above, Cursor.mem_remaining, WithBot.coe_lt_coe]

lemma above_ascending (hkeys : (docs.map key).Nodup) (c : K) :
    (above key docs c).Pairwise fun d d' => key d < key d' :=
  List.pairwise_map.mp (Cursor.remaining_ascending hkeys _)

/-- Above the first document above a checkpoint are the others. -/
lemma above_key {rest : List D} (hkeys : (docs.map key).Nodup)
    (h : above key docs c = d :: rest) : above key docs (key d) = rest := by
  have hasc : (d :: rest).Pairwise fun d d' => key d < key d' := h ▸ above_ascending hkeys c
  have hmem : ∀ d', d' ∈ docs ∧ c < key d' ↔ d' ∈ d :: rest := by
    intro d'
    rw [← h, mem_above]
  have hc : c < key d := ((hmem d).mpr List.mem_cons_self).2
  obtain ⟨hfirst, hrest⟩ := List.pairwise_cons.mp hasc
  refine (above_ascending hkeys _).eq_of_mem_iff hrest fun d' => ?_
  rw [mem_above]
  constructor
  · rintro ⟨hd', hlt⟩
    rcases List.mem_cons.mp ((hmem d').mp ⟨hd', hc.trans hlt⟩) with rfl | hd'
    · exact absurd hlt (lt_irrefl _)
    · exact hd'
  · intro hd'
    exact ⟨((hmem d').mpr (List.mem_cons_of_mem _ hd')).1, hfirst d' hd'⟩

/-- A document with nothing between it and the checkpoint is the first one above it. -/
lemma above_eq_cons (hkeys : (docs.map key).Nodup) (hd : d ∈ docs) (hc : c < key d)
    (hfirst : ∀ d' ∈ docs, c < key d' → d' = d ∨ key d < key d') :
    ∃ rest, above key docs c = d :: rest := by
  have hmem : d ∈ above key docs c := mem_above.mpr ⟨hd, hc⟩
  have hasc := above_ascending hkeys c
  cases habove : above key docs c with
  | nil => simp [habove] at hmem
  | cons d' rest =>
    rw [habove] at hasc hmem
    have hd' := mem_above.mp (habove ▸ List.mem_cons_self : d' ∈ above key docs c)
    rcases hfirst d' hd'.1 hd'.2 with rfl | hlt
    · exact ⟨rest, rfl⟩
    · rcases List.mem_cons.mp hmem with rfl | hrest
      · exact ⟨rest, rfl⟩
      · exact absurd hlt ((List.pairwise_cons.mp hasc).1 _ hrest).asymm

lemma Blocks.started (hblocks : Blocks key docs h) :
    Blocks key docs (h.started c) := by
  intro run hrun
  rcases List.mem_append.mp hrun with hrun | hrun
  · exact hblocks run (List.mem_append_left _ hrun)
  · obtain rfl := List.mem_singleton.mp hrun
    exact List.nil_prefix

lemma Blocks.called {succeeded : Bool} {rest : List D} (hblocks : Blocks key docs h)
    (hcurrent : h.current = some run)
    (hd : run.calls.map (·.1) ++ d :: rest = above key docs run.start) :
    Blocks key docs (h.called d succeeded) := by
  intro run' hrun'
  simp only [History.runs, History.called, hcurrent, Option.map_some, Option.toList_some,
    List.mem_append, List.mem_singleton] at hrun'
  rcases hrun' with hrun' | rfl
  · exact hblocks run' (List.mem_append_left _ hrun')
  · rw [List.map_append]
    exact ⟨rest, by simpa using hd⟩

lemma Blocks.saved (hblocks : Blocks key docs h) : Blocks key docs (h.saved c) := by
  intro run hrun
  rcases List.mem_append.mp hrun with hrun | hrun
  · exact hblocks run (List.mem_append_left _ hrun)
  · obtain ⟨run', hcurrent, rfl⟩ := Option.map_eq_some_iff.mp (Option.mem_toList.mp hrun)
    exact hblocks run' (List.mem_append_right _ (by simp [hcurrent]))

lemma Blocks.stopped (hblocks : Blocks key docs h) : Blocks key docs h.stopped := by
  intro run hrun
  rw [History.runs_stopped] at hrun
  exact hblocks run hrun

lemma InOrder.concat (h : InOrder key docs initial calls) {succeeded : Bool}
    (hd : ∀ d' ∈ above key docs initial, key d' < key d → (d', true) ∈ calls) :
    InOrder key docs initial (calls ++ [(d, succeeded)]) := by
  intro before e succeeded' after heq
  rcases List.eq_nil_or_concat after with rfl | ⟨rest, last, rfl⟩
  · obtain ⟨rfl, hlast⟩ := List.append_inj' heq rfl
    obtain ⟨rfl, -⟩ := Prod.mk.inj (List.singleton_injective hlast)
    exact hd
  · rw [List.concat_eq_append, ← List.cons_append, ← List.append_assoc] at heq
    exact h before e succeeded' rest (List.append_inj' heq rfl).1

/-- What the run at work has passed on, and how many calls there have been. -/
def PhaseInv (key : D → K) (docs : List D) (initial : K) (s : Replay D K) : Prop :=
  match s.phase with
  | .idle => s.history.current = none ∧ s.history.calls.length
      + (above key docs s.checkpoint).length
        ≤ (above key docs initial).length + s.history.ended.length
  | .ready => ∃ run, s.history.current = some run ∧
      run.calls.map (·.1) ++ above key docs s.checkpoint = above key docs run.start ∧
      s.history.calls.length + (above key docs s.checkpoint).length
        ≤ (above key docs initial).length + s.history.ended.length
  | .handled position => ∃ run d, s.history.current = some run ∧
      run.calls.map (·.1) ++ above key docs position = above key docs run.start ∧
      above key docs s.checkpoint = d :: above key docs position ∧ (d, true) ∈ s.history.calls ∧
      s.history.calls.length + (above key docs position).length
        ≤ (above key docs initial).length + s.history.ended.length

structure Inv (key : D → K) (docs : List D) (initial : K) (s : Replay D K) : Prop where
  blocks : Blocks key docs s.history
  inOrder : InOrder key docs initial s.history.calls
  handled : ∀ d ∈ above key docs initial,
    d ∈ above key docs s.checkpoint ∨ (d, true) ∈ s.history.calls
  phase : PhaseInv key docs initial s

lemma Inv.start (h : s.Inv key docs initial) (hs : s.next key docs .start = some s') :
    s'.Inv key docs initial := by
  have hphase := h.phase
  simp only [next] at hs
  split at hs
  · rename_i hidle
    obtain rfl := Option.some.inj hs
    simp only [PhaseInv, hidle] at hphase
    obtain ⟨hcurrent, hcount⟩ := hphase
    have hcalls := History.calls_started hcurrent s.checkpoint
    refine ⟨h.blocks.started, hcalls ▸ h.inOrder, hcalls ▸ h.handled, ?_⟩
    exact ⟨_, rfl, rfl, hcalls ▸ hcount⟩
  · cases hs

lemma Inv.call (h : s.Inv key docs initial) (hkeys : (docs.map key).Nodup)
    {succeeds : Bool} (hs : s.next key docs (.call succeeds) = some s') :
    s'.Inv key docs initial := by
  have hphase := h.phase
  simp only [next] at hs
  split at hs
  · rename_i d rest hready habove
    simp only [PhaseInv, hready] at hphase
    obtain ⟨run, hcurrent, hblock, hcount⟩ := hphase
    obtain rfl := above_key hkeys habove
    have hcalls := History.calls_called hcurrent d succeeds
    have hblocks : Blocks key docs (s.history.called d succeeds) :=
      h.blocks.called hcurrent (habove ▸ hblock)
    have hinOrder : InOrder key docs initial (s.history.called d succeeds).calls := by
      rw [hcalls]
      refine h.inOrder.concat fun d' hd' hlt => ?_
      -- the earlier documents are not above the checkpoint any more
      rcases h.handled d' hd' with hleft | hdone
      · rw [habove] at hleft
        rcases List.mem_cons.mp hleft with rfl | hleft
        · exact absurd hlt (lt_irrefl _)
        · exact absurd hlt (mem_above.mp hleft).2.asymm
      · exact hdone
    have hhandled : ∀ d' ∈ above key docs initial, d' ∈ above key docs s.checkpoint ∨
        (d', true) ∈ (s.history.called d succeeds).calls := by
      intro d' hd'
      rw [hcalls]
      exact (h.handled d' hd').imp_right (List.mem_append_left _)
    rw [habove, List.length_cons] at hcount
    split_ifs at hs with hsucceeds
    · subst hsucceeds
      obtain rfl := Option.some.inj hs
      refine ⟨hblocks, hinOrder, hhandled, _, d, congrArg (Option.map _) hcurrent, ?_, habove,
        ?_, ?_⟩
      · rw [← hblock, habove]
        simp
      · simp [hcalls]
      · rw [hcalls, List.length_append, List.length_singleton]
        show _ + 1 + _ ≤ _ + s.history.ended.length
        omega
    · obtain rfl := Option.some.inj hs
      refine ⟨hblocks.stopped, ?_, ?_, rfl, ?_⟩
      · simpa using hinOrder
      · simpa using hhandled
      · have hended : (s.history.called d succeeds).stopped.ended.length
            = s.history.ended.length + 1 := by
          simp [History.stopped, History.runs, History.called, hcurrent]
        rw [hended, History.calls_stopped, hcalls, List.length_append, List.length_singleton,
          habove, List.length_cons]
        omega
  · cases hs

lemma Inv.save (h : s.Inv key docs initial) (hs : s.next key docs .save = some s') :
    s'.Inv key docs initial := by
  have hphase := h.phase
  simp only [next] at hs
  split at hs
  · rename_i position hhandled
    obtain rfl := Option.some.inj hs
    simp only [PhaseInv, hhandled] at hphase
    obtain ⟨run, d, hcurrent, hblock, habove, hcalled, hcount⟩ := hphase
    refine ⟨h.blocks.saved, ?_, ?_, _, congrArg (Option.map _) hcurrent, hblock, ?_⟩
    · simpa using h.inOrder
    · intro d' hd'
      rw [History.calls_saved]
      rcases h.handled d' hd' with hleft | hdone
      · rw [habove] at hleft
        rcases List.mem_cons.mp hleft with rfl | hleft
        · exact .inr hcalled
        · exact .inl hleft
      · exact .inr hdone
    · rw [History.calls_saved]
      exact hcount
  · cases hs

lemma Inv.stop (h : s.Inv key docs initial) (hs : s.next key docs .stop = some s') :
    s'.Inv key docs initial := by
  have hphase := h.phase
  obtain rfl := Option.some.inj hs
  refine ⟨h.blocks.stopped, by simpa using h.inOrder, by simpa using h.handled, rfl, ?_⟩
  rw [History.calls_stopped]
  show _ ≤ _ + s.history.runs.length
  cases hp : s.phase with
  | idle =>
    simp only [PhaseInv, hp] at hphase
    simpa [History.runs, hphase.1] using hphase.2
  | ready =>
    simp only [PhaseInv, hp] at hphase
    obtain ⟨run, hcurrent, -, hcount⟩ := hphase
    simp only [History.runs, hcurrent, Option.toList_some, List.length_append,
      List.length_singleton]
    omega
  | handled position =>
    simp only [PhaseInv, hp] at hphase
    obtain ⟨run, d, hcurrent, -, habove, -, hcount⟩ := hphase
    simp only [History.runs, hcurrent, habove, Option.toList_some, List.length_append,
      List.length_cons]
    omega

lemma inv_of_reachable (hkeys : (docs.map key).Nodup)
    (h : (system key docs initial).Reachable s) : s.Inv key docs initial := by
  refine System.ReachBy.invariant (P := Inv key docs initial) ?_ ?_ h
  · rintro _ rfl
    refine ⟨fun run hrun => absurd hrun List.not_mem_nil, ?_, fun d hd => .inl hd, rfl, ?_⟩
    · intro before d succeeded after heq
      cases before <;> cases heq
    · simp [History.empty, History.calls, History.runs]
  · intro s a s' _ hinv _ hs
    cases a with
    | start => exact hinv.start hs
    | call succeeds => exact hinv.call hkeys hs
    | save => exact hinv.save hs
    | stop => exact hinv.stop hs

/-- In every state of every sequence of runs. -/
theorem replayed_of_reachable (hkeys : (docs.map key).Nodup)
    (h : (system key docs initial).Reachable s) : Replayed key docs initial s.history := by
  have hinv := inv_of_reachable hkeys h
  refine ⟨hinv.blocks, hinv.inOrder, ?_⟩
  have hphase := hinv.phase
  cases hp : s.phase with
  | idle =>
    simp only [PhaseInv, hp] at hphase
    omega
  | ready =>
    simp only [PhaseInv, hp] at hphase
    obtain ⟨run, -, -, hcount⟩ := hphase
    omega
  | handled position =>
    simp only [PhaseInv, hp] at hphase
    obtain ⟨run, d, -, -, -, -, hcount⟩ := hphase
    omega

/-- Once nothing is left above the checkpoint the handler has succeeded on every document. -/
theorem handled_of_finished (hkeys : (docs.map key).Nodup)
    (h : (system key docs initial).Reachable s) (hfinished : above key docs s.checkpoint = []) :
    ∀ d ∈ docs, initial < key d → (d, true) ∈ s.history.calls := by
  intro d hd hlt
  rcases (inv_of_reachable hkeys h).handled d (mem_above.mpr ⟨hd, hlt⟩) with hleft | hdone
  · rw [hfinished] at hleft
    cases hleft
  · exact hdone

/-! ### Consumers that replay -/

/-- What a step of a consumer does to the replay that the consumer is in. -/
inductive Effect (key : D → K) (docs : List D) (s : Replay D K) : Replay D K → Prop where
  | quiet : Effect key docs s s
  | started (h : s.phase = .idle) : Effect key docs s
      { s with phase := .ready, history := s.history.started s.checkpoint }
  | handled (d : D) (rest : List D) (h : s.phase = .ready)
      (habove : above key docs s.checkpoint = d :: rest) : Effect key docs s
      { s with phase := .handled (key d), history := s.history.called d true }
  | failed (d : D) (rest : List D) (h : s.phase = .ready)
      (habove : above key docs s.checkpoint = d :: rest) : Effect key docs s
      { s with phase := .idle, history := (s.history.called d false).stopped }
  | saved (position : K) (h : s.phase = .handled position) : Effect key docs s
      { checkpoint := position, phase := .ready, history := s.history.saved position }
  | stopped : Effect key docs s { s with phase := .idle, history := s.history.stopped }

lemma Effect.of_eq (h : s' = s) : Effect key docs s s' := h ▸ .quiet

lemma Effect.next (h : Effect key docs s s') :
    s' = s ∨ ∃ step, Replay.next key docs s step = some s' := by
  cases h with
  | quiet => exact .inl rfl
  | started hidle => exact .inr ⟨.start, by simp [Replay.next, hidle]⟩
  | handled d rest hready habove =>
    exact .inr ⟨.call true, by simp [Replay.next, hready, habove]⟩
  | failed d rest hready habove =>
    exact .inr ⟨.call false, by simp [Replay.next, hready, habove]⟩
  | saved position hhandled => exact .inr ⟨.save, by simp [Replay.next, hhandled]⟩
  | stopped => exact .inr ⟨.stop, rfl⟩

/-- In the runs of `M` whose steps meet `C` a consumer is in the replay that `view` shows; `AtWork`
is what it relies on. -/
structure Replays {T B : Type*} (M : System T B) (C : T → B → Prop) (key : D → K) (docs : List D)
    (initial : K) (AtWork : T → Prop) (view : T → Replay D K) : Prop where
  init : ∀ t, M.init t →
    AtWork t ∧ view t = { checkpoint := initial, phase := .idle, history := .empty }
  step : ∀ {t b t'}, AtWork t → C t b → M.next t b = some t' →
    AtWork t' ∧ Effect key docs (view t) (view t')

section Replays

variable {T B : Type*} {M : System T B} {C : T → B → Prop} {AtWork : T → Prop}
  {view : T → Replay D K} {t : T}

lemma Replays.atWork (h : Replays M C key docs initial AtWork view) (ht : M.ReachBy C t) :
    AtWork t := by
  refine System.ReachBy.invariant (P := AtWork) ?_ ?_ ht
  · exact fun t hinit => (h.init t hinit).1
  · exact fun t b t' _ hwork hC hs => (h.step hwork hC hs).1

lemma Replays.simulates (h : Replays M C key docs initial AtWork view) :
    System.SimulationBy M (system key docs initial) C view where
  init t hinit := (h.init t hinit).2
  next _ _ _ ht hC hs := (h.step (h.atWork ht) hC hs).2.next

/-- What the runs of the consumer come to. -/
theorem Replays.replayed (h : Replays M C key docs initial AtWork view)
    (hkeys : (docs.map key).Nodup) (ht : M.ReachBy C t) :
    Replayed key docs initial (view t).history ∧
      (above key docs (view t).checkpoint = [] →
        ∀ d ∈ docs, initial < key d → (d, true) ∈ (view t).history.calls) :=
  have hreach := h.simulates.reachable ht
  ⟨replayed_of_reachable hkeys hreach, handled_of_finished hkeys hreach⟩

end Replays

end Replay

end Concurrency
