import EventSourcing.Concurrency.Replay
import EventSourcing.Mongo.Subscription

/-!
# The runs of a consumer of the MongoDB store

A consumer calls `catch_up_subscribe` again and again; its runs share nothing but the stored
checkpoint. Within a run the positions ascend across the switch from the cursor to the change
stream: what the cursor has read was committed before the change stream was opened, and events
commit in the order of their positions.
-/

namespace EventSourcing.Mongo

open Concurrency

variable {P : Type}

/-- The runs so far, next to the state of `catch_up_subscribe`. -/
abbrev Consumer (P : Type) := Subscription P × History (EventEnvelope P) Int

abbrev ConsumerStep := RecordedStep SubscriberStep

namespace Subscription

/-- The event that the handler is called with next. -/
def pending (σ : State P) (u : Subscription P) : Option (EventEnvelope P) :=
  match u.subscriber with
  | .replaying cursor => cursor.take.map (·.1)
  | .streaming next => σ.db.events[next]?
  | _ => none

/-- What a step adds to the runs. -/
def recorded (σ : State P) (u : Subscription P) (step : SubscriberStep)
    (runs : History (EventEnvelope P) Int) : History (EventEnvelope P) Int :=
  match step with
  | .load => runs.started (u.checkpoint.getD (-1))
  | .handle => (u.pending σ).elim runs (runs.called · true)
  | .save =>
    match u.subscriber with
    | .replayed position _ => runs.saved position
    | .delivered position _ => runs.saved position
    | _ => runs
  | .stop => runs.stopped
  | _ => runs

end Subscription

variable (P) in
/-- A consumer that starts with the given checkpoint. -/
def consumer (checkpoint : Option Int) : Observer (State P) (Consumer P) ConsumerStep :=
  (subscription P checkpoint).recording Subscription.recorded Subscription.pending
    fun u => { u with subscriber := .idle }

/-! ### Ascending runs -/

/-- The positions that a run has passed to the handler. -/
def positions (run : Run (EventEnvelope P) Int) : List Int :=
  run.calls.map fun call => call.1.globalPosition

/-- The position is that of one of the events, or the one that stands for no checkpoint. -/
def Behind (events : List (EventEnvelope P)) (position : Int) : Prop :=
  position = -1 ∨ ∃ e ∈ events, e.globalPosition = position

/-- The positions of a run and its checkpoints ascend, from where it starts if the consumer is
`fresh`: if it has never had a checkpoint from elsewhere. -/
structure Ordered (fresh : Prop) (run : Run (EventEnvelope P) Int) : Prop where
  ascending : (positions run).Pairwise (· < ·)
  saves : run.saves <+: positions run
  start : fresh → ∀ g ∈ positions run, run.start < g

/-- What the run at work has passed on and stored, by how far it has come. -/
def Current (fresh : Prop) (events : List (EventEnvelope P)) (subscriber : Subscriber P)
    (run : Run (EventEnvelope P) Int) : Prop :=
  let taken := run.calls.map (·.1)
  match subscriber with
  | .idle => False
  | .loaded fromPosition =>
    run = ⟨fromPosition, [], []⟩ ∧ (fresh → Behind events run.start)
  | .replaying cursor =>
    cursor.Given (fun e : EventEnvelope P => e.globalPosition) run.start events taken ∧
      run.saves = positions run ∧ (fresh → Behind events run.start)
  | .replayed position cursor =>
    cursor.Given (fun e : EventEnvelope P => e.globalPosition) run.start events taken ∧
      run.saves ++ [position] = positions run ∧ (fresh → Behind events run.start)
  | .streaming next =>
    Received (fun e : EventEnvelope P => e.globalPosition) events taken next ∧
      run.saves = positions run ∧
      (fresh → Behind (events.take next) run.start ∧ ∀ g ∈ positions run, run.start < g)
  | .delivered position next =>
    Received (fun e : EventEnvelope P => e.globalPosition) events taken next ∧
      run.saves ++ [position] = positions run ∧
      (fresh → Behind (events.take next) run.start ∧ ∀ g ∈ positions run, run.start < g)

structure Consumer.Inv (fresh : Prop) (events : List (EventEnvelope P)) (q : Consumer P) :
    Prop where
  ended : ∀ run ∈ q.2.ended, Ordered fresh run
  current : q.1.subscriber = .idle ∧ q.2.current = none ∨
    ∃ run, q.2.current = some run ∧ Current fresh events q.1.subscriber run
  checkpoint : fresh → Behind events (q.1.checkpoint.getD (-1))

variable {fresh : Prop} {events new : List (EventEnvelope P)} {subscriber : Subscriber P}
  {run : Run (EventEnvelope P) Int} {position : Int} {σ σ' : State P} {q q' : Consumer P}

lemma map_globalPosition (run : Run (EventEnvelope P) Int) :
    (run.calls.map (·.1)).map (fun e : EventEnvelope P => e.globalPosition) = positions run := by
  rw [List.map_map]
  rfl

lemma Behind.append (h : Behind events position) : Behind (events ++ new) position :=
  h.imp_right fun ⟨e, he, heq⟩ => ⟨e, List.mem_append_left _ he, heq⟩

/-- The event that the change stream delivers next is above the positions behind it. -/
lemma Behind.lt {n : ℕ} {e : EventEnvelope P} (h : Behind (events.take n) position)
    (hasc : (events.map (·.globalPosition)).Pairwise (· < ·)) (hnonneg : 0 ≤ e.globalPosition)
    (he : events[n]? = some e) : position < e.globalPosition := by
  rcases h with rfl | ⟨d, hd, rfl⟩
  · omega
  · have htake : events.take (n + 1) = events.take n ++ [e] := by simp [List.take_add_one, he]
    have hsplit := hasc.sublist ((List.take_sublist (n + 1) events).map _)
    rw [htake, List.map_append, List.pairwise_append] at hsplit
    exact hsplit.2.2 _ (List.mem_map_of_mem hd) _ (by simp)

lemma Current.ordered (h : Current fresh events subscriber run) : Ordered fresh run := by
  have hcursor : ∀ c : Cursor (EventEnvelope P) Int,
      c.Given (fun e : EventEnvelope P => e.globalPosition) run.start events
        (run.calls.map (·.1)) →
      (positions run).Pairwise (· < ·) ∧ ∀ g ∈ positions run, run.start < g := by
    intro c hgiven
    constructor
    · rw [← map_globalPosition]
      exact hgiven.ascending.sublist ((List.sublist_append_left _ _).map _)
    · intro g hg
      obtain ⟨call, hcall, rfl⟩ := List.mem_map.mp hg
      have hmem : call.1 ∈ run.calls.map (·.1) := List.mem_map_of_mem hcall
      exact WithBot.coe_lt_coe.mp (hgiven.read _ (List.mem_append_left _ hmem)).2.1
  cases subscriber with
  | idle => exact h.elim
  | loaded fromPosition =>
    obtain ⟨rfl, -⟩ := h
    exact ⟨.nil, List.nil_prefix, fun _ g hg => absurd hg List.not_mem_nil⟩
  | replaying cursor =>
    obtain ⟨hgiven, hsaves, -⟩ := h
    obtain ⟨hasc, hstart⟩ := hcursor cursor hgiven
    exact ⟨hasc, hsaves ▸ List.prefix_rfl, fun _ => hstart⟩
  | replayed position cursor =>
    obtain ⟨hgiven, hsaves, -⟩ := h
    obtain ⟨hasc, hstart⟩ := hcursor cursor hgiven
    exact ⟨hasc, ⟨_, hsaves⟩, fun _ => hstart⟩
  | streaming next =>
    obtain ⟨hreceived, hsaves, hstart⟩ := h
    have hasc := hreceived.ascending
    rw [map_globalPosition] at hasc
    exact ⟨hasc, hsaves ▸ List.prefix_rfl, fun hfresh => (hstart hfresh).2⟩
  | delivered position next =>
    obtain ⟨hreceived, hsaves, hstart⟩ := h
    have hasc := hreceived.ascending
    rw [map_globalPosition] at hasc
    exact ⟨hasc, ⟨_, hsaves⟩, fun hfresh => (hstart hfresh).2⟩

/-- A commit changes nothing for the run at work. -/
lemma Current.store (h : Current fresh events subscriber run) :
    Current fresh (events ++ new) subscriber run := by
  cases subscriber with
  | idle => exact h
  | loaded fromPosition => exact ⟨h.1, fun hfresh => (h.2 hfresh).append⟩
  | replaying cursor => exact ⟨h.1.append, h.2.1, fun hfresh => (h.2.2 hfresh).append⟩
  | replayed position cursor => exact ⟨h.1.append, h.2.1, fun hfresh => (h.2.2 hfresh).append⟩
  | streaming next =>
    have htake : (events ++ new).take next = events.take next :=
      List.take_append_of_le_length h.1.le
    exact ⟨h.1.append, h.2.1, htake ▸ h.2.2⟩
  | delivered position next =>
    have htake : (events ++ new).take next = events.take next :=
      List.take_append_of_le_length h.1.le
    exact ⟨h.1.append, h.2.1, htake ▸ h.2.2⟩

lemma Consumer.Inv.store (h : q.Inv fresh events) : q.Inv fresh (events ++ new) where
  ended := h.ended
  current := h.current.imp_right fun ⟨run, hcurrent, hrun⟩ => ⟨run, hcurrent, hrun.store⟩
  checkpoint hfresh := (h.checkpoint hfresh).append

/-! ### Steps of the consumer -/

lemma position_nonneg (h : σ.Inv) {e : EventEnvelope P} (he : e ∈ σ.db.events) :
    0 ≤ e.globalPosition := (Numbered.bounds h.db.positions he).1

lemma pending_of_handle {u : Subscription P} (hs : q.1.next σ .handle = some u) :
    ∃ envelope, q.1.pending σ = some envelope := by
  simp only [Subscription.next] at hs
  split at hs
  · rename_i cursor hu
    obtain ⟨⟨envelope, cursor'⟩, htake, -⟩ := Option.map_eq_some_iff.mp hs
    exact ⟨envelope, by simp [Subscription.pending, hu, htake]⟩
  · rename_i next hu
    obtain ⟨envelope, he, -⟩ := Option.map_eq_some_iff.mp hs
    exact ⟨envelope, by simp [Subscription.pending, hu, he]⟩
  · cases hs

/-- A call of the handler goes on in the order of the positions. -/
lemma Current.call (hσ : σ.Inv) (h : Current fresh σ.db.events q.1.subscriber run)
    {envelope : EventEnvelope P} (hpending : q.1.pending σ = some envelope) (succeeded : Bool) :
    ∃ u, q.1.next σ .handle = some u ∧ u.checkpoint = q.1.checkpoint ∧
      Current fresh σ.db.events u.subscriber
        { run with calls := run.calls ++ [(envelope, succeeded)] } := by
  have htaken : (run.calls ++ [(envelope, succeeded)]).map (·.1)
      = run.calls.map (·.1) ++ [envelope] := by simp
  have hpositions : positions { run with calls := run.calls ++ [(envelope, succeeded)] }
      = positions run ++ [envelope.globalPosition] := by simp [positions]
  simp only [Subscription.pending] at hpending
  split at hpending
  · rename_i cursor hu
    obtain ⟨⟨e, cursor'⟩, htake, rfl⟩ := Option.map_eq_some_iff.mp hpending
    simp only [Current, hu] at h
    obtain ⟨hgiven, hsaves, hstart⟩ := h
    refine ⟨{ q.1 with
      subscriber := .replayed e.globalPosition cursor', handled := q.1.handled ++ [e] },
      by simp [Subscription.next, hu, htake], rfl, ?_, ?_, hstart⟩
    · rw [htaken]
      exact hgiven.take htake
    · rw [hpositions, hsaves]
  · rename_i next hu
    simp only [Current, hu] at h
    obtain ⟨hreceived, hsaves, hstart⟩ := h
    have hasc := positions_ascending hσ
    refine ⟨{ q.1 with
      subscriber := .delivered envelope.globalPosition (next + 1)
      handled := q.1.handled ++ [envelope] },
      by simp [Subscription.next, hu, hpending], rfl, ?_, ?_, ?_⟩
    · rw [htaken]
      exact hreceived.receive hasc hpending
    · rw [hpositions, hsaves]
    · intro hfresh
      obtain ⟨hbehind, habove⟩ := hstart hfresh
      have hmem := List.mem_of_getElem? hpending
      refine ⟨?_, ?_⟩
      · rw [List.take_add_one, hpending]
        exact hbehind.append
      · intro g hg
        rw [hpositions] at hg
        rcases List.mem_append.mp hg with hg | hg
        · exact habove g hg
        · obtain rfl := List.mem_singleton.mp hg
          exact hbehind.lt hasc (position_nonneg hσ hmem) hpending
  · cases hpending

/-- The run at work has stopped. -/
lemma Consumer.Inv.ended_stopped (h : q.Inv fresh events) :
    ∀ run ∈ q.2.runs, Ordered fresh run := by
  intro run hrun
  rcases List.mem_append.mp hrun with hrun | hrun
  · exact h.ended run hrun
  · rcases h.current with ⟨-, hnone⟩ | ⟨run', hcurrent, hrun'⟩
    · simp [hnone] at hrun
    · obtain rfl : run = run' := by simpa [hcurrent] using hrun
      exact hrun'.ordered

/-- A step that keeps the run at work. -/
lemma Consumer.Inv.keep {u : Subscription P} (h : q.Inv fresh events)
    (hne : q.1.subscriber ≠ .idle) (hcheckpoint : u.checkpoint = q.1.checkpoint)
    (hrun : ∀ run, Current fresh events q.1.subscriber run →
      Current fresh events u.subscriber run) : Consumer.Inv fresh events (u, q.2) where
  ended := h.ended
  current := by
    rcases h.current with ⟨hidle, -⟩ | ⟨run, hcurrent, hcur⟩
    · exact absurd hidle hne
    · exact .inr ⟨run, hcurrent, hrun run hcur⟩
  checkpoint := by
    rw [hcheckpoint]
    exact h.checkpoint

/-- The stored checkpoint is the position of the last call. -/
lemma behind_of_mem {run : Run (EventEnvelope P) Int}
    (hread : ∀ e ∈ run.calls.map (·.1), e ∈ events)
    (hsaves : run.saves ++ [position] = positions run) :
    Behind events position := by
  have hmem : position ∈ positions run := hsaves ▸ List.mem_append_right _ List.mem_cons_self
  obtain ⟨call, hcall, rfl⟩ := List.mem_map.mp hmem
  exact .inr ⟨call.1, hread _ (List.mem_map_of_mem hcall), rfl⟩

/-- The run at work stores the position of its last call. -/
lemma Consumer.Inv.save (h : q.Inv fresh events) (hne : q.1.subscriber ≠ .idle)
    (hrun : ∀ run, Current fresh events q.1.subscriber run →
      run.saves ++ [position] = positions run ∧ (∀ e ∈ run.calls.map (·.1), e ∈ events) ∧
        Current fresh events subscriber { run with saves := run.saves ++ [position] }) :
    Consumer.Inv fresh events
      ({ q.1 with checkpoint := some position, subscriber := subscriber },
        q.2.saved position) := by
  rcases h.current with ⟨hidle, -⟩ | ⟨run, hcurrent, hcur⟩
  · exact absurd hidle hne
  · obtain ⟨hsaves, hread, hcur'⟩ := hrun run hcur
    refine ⟨h.ended, .inr ⟨_, congrArg (Option.map _) hcurrent, hcur'⟩, ?_⟩
    exact fun _ => behind_of_mem hread hsaves

lemma Consumer.Inv.step (hσ : σ.Inv) (h : q.Inv fresh σ.db.events) {step : SubscriberStep}
    {u : Subscription P} (hs : q.1.next σ step = some u) :
    Consumer.Inv fresh σ.db.events (u, q.1.recorded σ step q.2) := by
  have hkeys : (σ.db.events.map (·.globalPosition)).Nodup :=
    (positions_ascending hσ).imp ne_of_lt
  cases step with
  | load =>
    simp only [Subscription.next] at hs
    split at hs
    · obtain rfl := Option.some.inj hs
      refine ⟨h.ended, .inr ⟨_, rfl, rfl, h.checkpoint⟩, h.checkpoint⟩
    · cases hs
  | find =>
    simp only [Subscription.next] at hs
    split at hs
    · rename_i fromPosition hu
      obtain rfl := Option.some.inj hs
      refine h.keep (by simp [hu]) rfl ?_
      intro run hrun
      simp only [Current, hu] at hrun
      obtain ⟨rfl, hstart⟩ := hrun
      exact ⟨Cursor.given_opened, rfl, hstart⟩
    · cases hs
  | fetch n =>
    simp only [Subscription.next] at hs
    split at hs
    · rename_i cursor hu
      obtain ⟨cursor', hc, rfl⟩ := Option.map_eq_some_iff.mp hs
      refine h.keep (by simp [hu]) rfl ?_
      intro run hrun
      simp only [Current, hu] at hrun
      exact ⟨hrun.1.fetch hkeys hc, hrun.2⟩
    · cases hs
  | handle =>
    obtain ⟨envelope, hpending⟩ := pending_of_handle hs
    simp only [Subscription.recorded, hpending, Option.elim_some]
    rcases h.current with ⟨hidle, -⟩ | ⟨run, hcurrent, hcur⟩
    · simp [Subscription.pending, hidle] at hpending
    · obtain ⟨u', hs', hcheckpoint, hcall⟩ := hcur.call hσ hpending true
      obtain rfl := Option.some.inj (hs.symm.trans hs')
      exact ⟨h.ended, .inr ⟨_, congrArg (Option.map _) hcurrent, hcall⟩,
        hcheckpoint ▸ h.checkpoint⟩
  | save =>
    simp only [Subscription.next] at hs
    split at hs
    · rename_i position cursor hu
      obtain rfl := Option.some.inj hs
      simp only [Subscription.recorded, hu]
      refine h.save (by simp [hu]) ?_
      intro run hrun
      simp only [Current, hu] at hrun
      obtain ⟨hgiven, hsaves, hstart⟩ := hrun
      refine ⟨hsaves, fun e he => ?_, hgiven, hsaves, hstart⟩
      exact (hgiven.read e (List.mem_append_left _ he)).1
    · rename_i position next hu
      obtain rfl := Option.some.inj hs
      simp only [Subscription.recorded, hu]
      refine h.save (by simp [hu]) ?_
      intro run hrun
      simp only [Current, hu] at hrun
      obtain ⟨hreceived, hsaves, hstart⟩ := hrun
      refine ⟨hsaves, fun e he => ?_, hreceived, hsaves, hstart⟩
      exact List.mem_of_mem_take (hreceived.read e he)
    · cases hs
  | watch =>
    simp only [Subscription.next] at hs
    split at hs
    · rename_i cursor hu
      split_ifs at hs
      obtain rfl := Option.some.inj hs
      refine h.keep (by simp [hu]) rfl ?_
      intro run hrun
      have hordered := hrun.ordered
      simp only [Current, hu] at hrun
      obtain ⟨hgiven, hsaves, hstart⟩ := hrun
      refine ⟨hgiven.watch, hsaves, fun hfresh => ⟨?_, hordered.start hfresh⟩⟩
      rw [List.take_length]
      exact hstart hfresh
    · cases hs
  | stop =>
    obtain rfl := Option.some.inj hs
    exact ⟨h.ended_stopped, .inl ⟨rfl, rfl⟩, h.checkpoint⟩

lemma Consumer.Inv.next {checkpoint : Option Int} (hσ : σ.Inv) (h : q.Inv fresh σ.db.events)
    {step : ConsumerStep} (hs : (consumer P checkpoint).next σ q step = some q') :
    q'.Inv fresh σ.db.events := by
  cases step with
  | step step =>
    obtain ⟨u, hu, rfl⟩ := Option.map_eq_some_iff.mp hs
    exact h.step hσ hu
  | fail =>
    obtain ⟨envelope, hpending, rfl⟩ := Option.map_eq_some_iff.mp hs
    refine ⟨?_, .inl ⟨rfl, rfl⟩, h.checkpoint⟩
    rcases h.current with ⟨hidle, -⟩ | ⟨run, hcurrent, hcur⟩
    · simp [Subscription.pending, hidle] at hpending
    · obtain ⟨u, -, -, hcall⟩ := hcur.call hσ hpending false
      intro run' hrun'
      simp only [History.stopped, History.runs, History.called, hcurrent, Option.map_some,
        Option.toList_some, List.mem_append, List.mem_singleton] at hrun'
      rcases hrun' with hrun' | rfl
      · exact h.ended run' hrun'
      · exact hcall.ordered

/-! ### Every run -/

lemma consumer_inv {checkpoint : Option Int} {p : State P × Consumer P}
    (h : ((system P).observe (consumer P checkpoint)).Reachable p) :
    p.2.Inv (checkpoint = none) p.1.db.events := by
  refine System.ReachBy.observed
    (P := fun p : State P × Consumer P => p.2.Inv (checkpoint = none) p.1.db.events) ?_ ?_ ?_ h
  · rintro σ ⟨u, history⟩ - ⟨rfl, rfl⟩
    refine ⟨fun run hrun => absurd hrun List.not_mem_nil, .inl ⟨rfl, rfl⟩, ?_⟩
    rintro rfl
    exact .inl rfl
  · intro σ q a σ' hreach hinv _ hs
    rw [events_next (inv_of_reachable hreach.system) hs]
    exact hinv.store
  · intro σ q step q' hreach hinv _ hs
    exact hinv.next (inv_of_reachable hreach.system) hs

/-- In every run of a consumer the handler is given ascending positions over both phases, so no
event twice, and the checkpoints that the run stores ascend; they ascend from the one it has
loaded, if the consumer has never had a checkpoint but those of its runs. -/
theorem consumer_ascends (checkpoint : Option Int) (p : State P × Consumer P)
    (h : ((system P).observe (consumer P checkpoint)).Reachable p) :
    ∀ run ∈ p.2.2.runs,
      (run.calls.map (·.1.globalPosition)).Pairwise (· < ·) ∧ (run.calls.map (·.1)).Nodup ∧
        run.saves.Pairwise (· < ·) ∧ (checkpoint = none → ∀ c ∈ run.saves, run.start < c) := by
  intro run hrun
  have hordered := (consumer_inv h).ended_stopped run hrun
  refine ⟨hordered.ascending, ?_, hordered.ascending.sublist hordered.saves.sublist, ?_⟩
  · refine .of_map (fun e : EventEnvelope P => e.globalPosition) ?_
    rw [map_globalPosition]
    exact hordered.ascending.imp ne_of_lt
  · intro hfresh c hc
    exact hordered.start hfresh c (hordered.saves.subset hc)

/-- One event is replayed, and one is delivered by the change stream. -/
def bothPhasesRun : List (Action ℕ ⊕ ConsumerStep) :=
  (appendSteps 0).map .inl ++
    [.inr (.step .load), .inr (.step .find), .inr (.step (.fetch 2)), .inr (.step .handle),
      .inr (.step .save), .inr (.step .watch)] ++
    (appendSteps 1).map .inl ++ [.inr (.step .handle), .inr (.step .save)]

def consumerStart : State ℕ × Consumer ℕ := (.initial, ⟨none, .idle, []⟩, .empty)

theorem consumer_ascends_both_phases :
    let p := ((system ℕ).observe (consumer ℕ none)).after bothPhasesRun consumerStart
    p.2.2.runs.map (·.saves) = [[0, 1]] ∧
      ∀ run ∈ p.2.2.runs,
        (run.calls.map (·.1.globalPosition)).Pairwise (· < ·) ∧ (run.calls.map (·.1)).Nodup ∧
          run.saves.Pairwise (· < ·) ∧
          ((none : Option Int) = none → ∀ c ∈ run.saves, run.start < c) := by
  have hreach := System.reachable_after (M := (system ℕ).observe (consumer ℕ none)) bothPhasesRun
    (s := consumerStart) ⟨rfl, ⟨rfl, rfl⟩⟩ (by decide)
  exact ⟨by decide, consumer_ascends none _ hreach⟩

end EventSourcing.Mongo
