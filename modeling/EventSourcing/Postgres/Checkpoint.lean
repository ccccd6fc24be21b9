import EventSourcing.Concurrency.CatchUp
import EventSourcing.Postgres.Subscription

/-!
# Checkpoints over positions that commit out of order

A consumer that runs the historical phase again and again resumes above its checkpoint. A
position is drawn before its transaction commits, so an event may commit below a checkpoint
that is already stored, or is about to be stored from rows read before it: `skippedEventRun`
skips an event for good. Where neither happens (`PositionsInOrder`) the checkpoint is the
border of what is handled, now and later (`checkpoint_resumes`).
-/

namespace EventSourcing.Postgres

open Concurrency

variable {P : Type} {σ σ' : State P} {u u' : Subscription P}

/-- The consumer only runs the historical phase. -/
def Historical (a : Action P ⊕ SubscriberStep) : Prop :=
  match a with
  | .inl _ => True
  | .inr step => step ≠ .connect

instance (a : Action P ⊕ SubscriberStep) : Decidable (Historical a) :=
  match a with
  | .inl _ => isTrue trivial
  | .inr step => inferInstanceAs (Decidable (step ≠ .connect))

/-- What is about to be stored lies below every event that has committed since the `SELECT`. -/
def SavesInOrder (σ : State P) : Subscriber P → Prop
  | .replayed seen e _ => ∀ e' ∈ σ.db.events.drop seen, e.globalPosition < e'.globalPosition
  | _ => True

instance (σ : State P) (subscriber : Subscriber P) : Decidable (SavesInOrder σ subscriber) :=
  match subscriber with
  | .replayed seen e _ => inferInstanceAs
      (Decidable (∀ e' ∈ σ.db.events.drop seen, e.globalPosition < e'.globalPosition))
  | .idle | .loaded _ | .replaying _ _ | .connected | .listening _ | .notified _ _
  | .fetched _ _ _ | .delivered _ _ => isTrue trivial

/-- An event commits above the stored checkpoint, and a checkpoint is stored below every event
that has committed since the `SELECT` of its row. -/
def PositionsInOrder (p : State P × Subscription P) : Action P ⊕ SubscriberStep → Prop
  | .inl a => ∀ e ∈ p.1.committing a, ∀ c ∈ p.2.checkpoint, c < e.globalPosition
  | .inr step => step = .save → SavesInOrder p.1 p.2.subscriber

instance (p : State P × Subscription P) (a : Action P ⊕ SubscriberStep) :
    Decidable (PositionsInOrder p a) :=
  match a with
  | .inl a => inferInstanceAs
      (Decidable (∀ e ∈ p.1.committing a, ∀ c ∈ p.2.checkpoint, c < e.globalPosition))
  | .inr step => inferInstanceAs (Decidable (step = .save → SavesInOrder p.1 p.2.subscriber))

/-- The position above which the consumer resumes. -/
def Subscription.resumesAfter (u : Subscription P) : Int := u.checkpoint.getD (-1)

/-- The rows of a pass ascend above the checkpoint `c` and leave out nothing that was committed
at its `SELECT`. -/
structure Pass (σ : State P) (c : Int) (seen : ℕ) (rows : List (EventEnvelope P)) : Prop where
  ascending : rows.Pairwise fun e e' => e.globalPosition < e'.globalPosition
  above : ∀ e ∈ rows, c < e.globalPosition
  complete : ∀ e ∈ σ.db.events.take seen, c < e.globalPosition → e ∈ rows
  seen_le : seen ≤ σ.db.events.length

/-- What a pass relies on, by how far it has come. -/
def PassInv (σ : State P) (u : Subscription P) : Prop :=
  match u.subscriber with
  | .idle => True
  | .loaded fromPosition => fromPosition = u.resumesAfter
  | .replaying seen rows => Pass σ u.resumesAfter seen rows
  | .replayed seen e rows => Pass σ u.resumesAfter seen (e :: rows) ∧ e ∈ u.handled
  | _ => False

/-- Everything up to the checkpoint is handled. -/
structure Resumable (p : State P × Subscription P) : Prop where
  handled : ∀ e ∈ p.1.db.events, e.globalPosition ≤ p.2.resumesAfter → e ∈ p.2.handled
  pass : PassInv p.1 p.2

/-! ### Steps of the store -/

lemma Pass.store {c : Int} {seen : ℕ} {rows new : List (EventEnvelope P)}
    (h : Pass σ c seen rows) (hevents : σ'.db.events = σ.db.events ++ new) :
    Pass σ' c seen rows where
  ascending := h.ascending
  above := h.above
  complete := by
    rw [hevents, List.take_append_of_le_length h.seen_le]
    exact h.complete
  seen_le := by
    simp only [hevents, List.length_append]
    exact h.seen_le.trans (Nat.le_add_right _ _)

lemma PassInv.store {new : List (EventEnvelope P)} (h : PassInv σ u)
    (hevents : σ'.db.events = σ.db.events ++ new) : PassInv σ' u := by
  cases hu : u.subscriber with
  | idle => simp only [PassInv, hu]
  | loaded fromPosition => simpa only [PassInv, hu] using h
  | replaying seen rows =>
    simp only [PassInv, hu] at h ⊢
    exact h.store hevents
  | replayed seen e rows =>
    simp only [PassInv, hu] at h ⊢
    exact ⟨h.1.store hevents, h.2⟩
  | _ => simp [PassInv, hu] at h

/-- An event that commits above the checkpoint does not lie behind the consumer. -/
lemma resumesAfter_lt {a : Action P} (hσ : (system P).Reachable σ) (hs : σ.next a = some σ')
    (hC : PositionsInOrder (σ, u) (.inl a)) {e : EventEnvelope P} (he : e ∈ σ.committing a) :
    u.resumesAfter < e.globalPosition := by
  have hmem : e ∈ σ'.db.events := by
    rw [events_next (inv_of_reachable hσ) hs]
    exact List.mem_append_right _ (Option.mem_toList.mpr he)
  have hnext : (system P).next σ a = some σ' := hs
  have hpos := position_pos (hσ.next hnext) hmem
  cases hc : u.checkpoint with
  | none =>
    simp only [Subscription.resumesAfter, hc, Option.getD_none]
    omega
  | some c =>
    simp only [Subscription.resumesAfter, hc, Option.getD_some]
    exact hC e he c (by simp [hc])

lemma Resumable.store {a : Action P} (hσ : (system P).Reachable σ) (h : Resumable (σ, u))
    (hC : PositionsInOrder (σ, u) (.inl a)) (hs : σ.next a = some σ') : Resumable (σ', u) where
  handled e he hle := by
    rw [events_next (inv_of_reachable hσ) hs] at he
    rcases List.mem_append.mp he with he | he
    · exact h.handled e he hle
    · have hlt := resumesAfter_lt hσ hs hC (Option.mem_toList.mp he)
      exact absurd hle (not_le.mpr hlt)
  pass := h.pass.store (events_next (inv_of_reachable hσ) hs)

/-! ### Steps of the consumer -/

/-- The rows of a `SELECT` ascend. -/
lemma eventsAfter_ascending (hσ : (system P).Reachable σ) (f : Int) :
    (σ.db.eventsAfter f).Pairwise fun e e' => e.globalPosition < e'.globalPosition := by
  have hnodup : ((σ.db.events.filter fun e => f < e.globalPosition).map
      (·.globalPosition)).Nodup := (positions_nodup hσ).sublist (List.filter_sublist.map _)
  exact List.pairwise_map.mp (Cursor.insertionSort_ascending hnodup)

lemma Pass.select (hσ : (system P).Reachable σ) (c : Int) :
    Pass σ c σ.db.events.length (σ.db.eventsAfter c) where
  ascending := eventsAfter_ascending hσ c
  above _ he := (mem_eventsAfter.mp he).2
  complete e he hlt := mem_eventsAfter.mpr ⟨by simpa using he, hlt⟩
  seen_le := le_refl _

/-- Storing the position of the first row leaves the pass with the others. -/
lemma Pass.save {c : Int} {seen : ℕ} {e : EventEnvelope P} {rows : List (EventEnvelope P)}
    (h : Pass σ c seen (e :: rows)) : Pass σ e.globalPosition seen rows where
  ascending := (List.pairwise_cons.mp h.ascending).2
  above e' he' := (List.pairwise_cons.mp h.ascending).1 e' he'
  complete e' he' hlt := by
    have habove := (h.above e List.mem_cons_self).trans hlt
    rcases List.mem_cons.mp (h.complete e' he' habove) with rfl | hmem
    · exact absurd hlt (lt_irrefl _)
    · exact hmem
  seen_le := h.seen_le

/-- When the first row is stored, everything up to it is handled. -/
lemma Resumable.save {seen : ℕ} {e : EventEnvelope P} {rows : List (EventEnvelope P)}
    (h : Resumable (σ, u)) (hu : u.subscriber = .replayed seen e rows)
    (hC : PositionsInOrder (σ, u) (.inr .save)) :
    Resumable (σ, { u with
      checkpoint := some e.globalPosition, subscriber := .replaying seen rows }) := by
  have hpass := h.pass
  simp only [PassInv, hu] at hpass
  refine ⟨?_, hpass.1.save⟩
  intro e' he' hle
  have hle : e'.globalPosition ≤ e.globalPosition := hle
  rcases le_or_gt e'.globalPosition u.resumesAfter with hbelow | habove
  · exact h.handled e' he' hbelow
  · rw [← List.take_append_drop seen σ.db.events] at he'
    rcases List.mem_append.mp he' with hseen | hlater
    · rcases List.mem_cons.mp (hpass.1.complete e' hseen habove) with rfl | hmem
      · exact hpass.2
      · have hlt := (List.pairwise_cons.mp hpass.1.ascending).1 e' hmem
        exact absurd hle (not_le.mpr hlt)
    · -- it has committed since the `SELECT`, so it lies above what is stored
      have hsave := hC rfl
      simp only [SavesInOrder, hu] at hsave
      exact absurd hle (not_le.mpr (hsave e' hlater))

lemma Resumable.step (hσ : (system P).Reachable σ) (h : Resumable (σ, u))
    {step : SubscriberStep} (hhist : step ≠ .connect)
    (hC : PositionsInOrder (σ, u) (.inr step)) (hs : u.next σ step = some u') :
    Resumable (σ, u') ∧ u.resumesAfter ≤ u'.resumesAfter ∧ u.handled ⊆ u'.handled := by
  have hpass := h.pass
  cases hu : u.subscriber with
  | idle =>
    cases step with
    | load =>
      simp only [Subscription.next, hu] at hs
      obtain rfl := Option.some.inj hs
      exact ⟨⟨h.handled, rfl⟩, le_refl _, List.Subset.refl _⟩
    | stop =>
      obtain rfl := Option.some.inj hs
      exact ⟨⟨h.handled, trivial⟩, le_refl _, List.Subset.refl _⟩
    | _ => simp [Subscription.next, hu] at hs
  | loaded fromPosition =>
    simp only [PassInv, hu] at hpass
    cases step with
    | select =>
      simp only [Subscription.next, hu] at hs
      obtain rfl := Option.some.inj hs
      subst hpass
      exact ⟨⟨h.handled, Pass.select hσ _⟩, le_refl _, List.Subset.refl _⟩
    | stop =>
      obtain rfl := Option.some.inj hs
      exact ⟨⟨h.handled, trivial⟩, le_refl _, List.Subset.refl _⟩
    | _ => simp [Subscription.next, hu] at hs
  | replaying seen rows =>
    simp only [PassInv, hu] at hpass
    cases step with
    | handle =>
      cases rows with
      | nil => simp [Subscription.next, hu] at hs
      | cons e rows =>
        simp only [Subscription.next, hu] at hs
        obtain rfl := Option.some.inj hs
        refine ⟨⟨?_, ?_⟩, le_refl _, List.subset_append_left _ _⟩
        · intro e' he' hle
          exact List.mem_append_left _ (h.handled e' he' hle)
        · exact ⟨⟨hpass.ascending, hpass.above, hpass.complete, hpass.seen_le⟩, by simp⟩
    | connect => exact absurd rfl hhist
    | stop =>
      obtain rfl := Option.some.inj hs
      exact ⟨⟨h.handled, trivial⟩, le_refl _, List.Subset.refl _⟩
    | _ => simp [Subscription.next, hu] at hs
  | replayed seen e rows =>
    simp only [PassInv, hu] at hpass
    cases step with
    | save =>
      simp only [Subscription.next, hu] at hs
      obtain rfl := Option.some.inj hs
      exact ⟨h.save hu hC, (hpass.1.above e List.mem_cons_self).le, List.Subset.refl _⟩
    | stop =>
      obtain rfl := Option.some.inj hs
      exact ⟨⟨h.handled, trivial⟩, le_refl _, List.Subset.refl _⟩
    | _ => simp [Subscription.next, hu] at hs
  | _ => simp [PassInv, hu] at hpass

/-! ### Every run -/

/-- The condition of the runs. -/
abbrev InOrder (p : State P × Subscription P) (a : Action P ⊕ SubscriberStep) : Prop :=
  Historical a ∧ PositionsInOrder p a

lemma resumable_of_reachable {p : State P × Subscription P}
    (h : ((system P).observe (subscription P none)).ReachBy InOrder p) : Resumable p := by
  refine System.ReachBy.observed (P := Resumable) ?_ ?_ ?_ h
  · rintro σ u rfl rfl
    exact ⟨fun e he => (List.not_mem_nil he).elim, trivial⟩
  · intro σ u a σ' hreach hres hC hs
    exact hres.store hreach.system hC.2 hs
  · intro σ u step u' hreach hres hC hs
    exact (hres.step hreach.system hC.1 hC.2 hs).1

/-- In every run of the historical phase in which positions become visible in order around the
consumer: whenever the stored checkpoint is `c`, every event that is or will be committed with
a position up to `c` has been handled. -/
theorem checkpoint_resumes {p p' : State P × Subscription P}
    (h : ((system P).observe (subscription P none)).ReachBy InOrder p)
    (hl : ((system P).observe (subscription P none)).LaterBy InOrder p p') {c : Int}
    (hc : p.2.checkpoint = some c) :
    ∀ e ∈ p'.1.db.events, e.globalPosition ≤ c → e ∈ p.2.handled := by
  have hresumes : p.2.resumesAfter = c := by simp [Subscription.resumesAfter, hc]
  refine (hl.invariant h (P := fun q => c ≤ q.2.resumesAfter ∧
    ∀ e ∈ q.1.db.events, e.globalPosition ≤ c → e ∈ p.2.handled) ⟨hresumes.ge, ?_⟩ ?_).2
  · exact fun e he hle => (resumable_of_reachable h).handled e he (hresumes ▸ hle)
  · rintro ⟨σ, u⟩ a q' hreach ⟨hle, hall⟩ hC hs
    cases a with
    | inl a =>
      obtain ⟨σ', hnext, rfl⟩ := System.observe_inl.mp hs
      refine ⟨hle, ?_⟩
      intro e he hec
      have he : e ∈ σ'.db.events := he
      rw [events_next (inv_of_reachable hreach.system) hnext] at he
      rcases List.mem_append.mp he with he | he
      · exact hall e he hec
      · have hlt := resumesAfter_lt hreach.system hnext hC.2 (Option.mem_toList.mp he)
        exact absurd (hec.trans hle) (not_le.mpr hlt)
    | inr step =>
      obtain ⟨u', hnext, rfl⟩ := System.observe_inr.mp hs
      have hstep := (resumable_of_reachable hreach).step hreach.system hC.1 hC.2 hnext
      exact ⟨hle.trans hstep.2.1, hall⟩

/-- Positions `1` and `2` are drawn on two streams and `2` commits first; the consumer stores
`2`, then `1` commits. -/
def skippedEventRun : List (Action ℕ ⊕ SubscriberStep) :=
  [.call 0 (.invoke ⟨.append, "order-1", "OrderPlaced", 1, some 0⟩),
    .call 1 (.invoke ⟨.append, "order-2", "OrderPlaced", 1, some 0⟩), .call 0 .advanceVersion,
    .call 1 .advanceVersion, .call 0 (.drawPosition 1), .call 1 (.drawPosition 2),
    .call 0 (.insertEvent "e0" "t0"), .call 1 (.insertEvent "e1" "t1"),
    .call 1 (.commit true)].map .inl ++
  [.inr .load, .inr .select, .inr .handle, .inr .save, .inl (.call 0 (.commit true))]

/-- Without the condition an event below the stored checkpoint is skipped. -/
theorem checkpoint_resumes_fails :
    ¬ ∀ p p' : State ℕ × Subscription ℕ,
      ((system ℕ).observe (subscription ℕ none)).ReachBy (fun _ a => Historical a) p →
      ((system ℕ).observe (subscription ℕ none)).LaterBy (fun _ a => Historical a) p p' →
      ∀ c, p.2.checkpoint = some c →
        ∀ e ∈ p'.1.db.events, e.globalPosition ≤ c → e ∈ p.2.handled := by
  intro hclaim
  have hreach := System.reachBy_after (M := (system ℕ).observe (subscription ℕ none))
    (C := fun _ a => Historical a) skippedEventRun (s := (.initial, ⟨none, .idle, []⟩))
    ⟨rfl, rfl⟩ (by decide) (by decide)
  have hall := hclaim _ _ hreach .refl 2 (by decide)
  exact absurd hall (by decide)

/-- Two events, each committed before the pass that reads it; the second pass stops between the
handler and the checkpoint. -/
def resumedRun : List (Action ℕ ⊕ SubscriberStep) :=
  (appendSteps 0 1).map .inl ++ [.inr .load, .inr .select, .inr .handle, .inr .save, .inr .stop] ++
    (appendSteps 1 2).map .inl ++ [.inr .load, .inr .select, .inr .handle, .inr .stop]

theorem checkpoint_resumes_stopped :
    let p := ((system ℕ).observe (subscription ℕ none)).after resumedRun
      (.initial, ⟨none, .idle, []⟩)
    p.2.checkpoint = some 1 ∧ p.2.handled.map (·.globalPosition) = [1, 2] ∧
      ∀ e ∈ p.1.db.events, e.globalPosition ≤ 1 → e ∈ p.2.handled := by
  have hreach := System.reachBy_after (M := (system ℕ).observe (subscription ℕ none))
    (C := InOrder) resumedRun (s := (.initial, ⟨none, .idle, []⟩)) ⟨rfl, rfl⟩
    (by decide) (by decide)
  exact ⟨by decide, by decide, checkpoint_resumes hreach .refl (by decide)⟩

end EventSourcing.Postgres
