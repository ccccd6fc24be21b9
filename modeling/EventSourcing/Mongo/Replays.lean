import EventSourcing.Mongo.Consumer

/-!
# The historical phase of the MongoDB store as a replay

Over a fixed collection the runs of a consumer that do not come beyond the cursor are a `Replay`
of the events in the order of their positions: the cursor gives first what lies just above the
stored checkpoint.
-/

namespace EventSourcing.Mongo

open Concurrency

variable {P : Type}

/-- The run does not come beyond the historical phase. -/
def StaysHistorical (_ : Consumer P) (step : ConsumerStep) : Prop := step ≠ .step .watch

instance (q : Consumer P) (step : ConsumerStep) : Decidable (StaysHistorical q step) :=
  inferInstanceAs (Decidable (step ≠ .step .watch))

/-- The run at work has finished the historical phase. -/
def Finished (q : Consumer P) : Prop :=
  match q.1.subscriber with
  | .replaying cursor => cursor.Drained
  | _ => False

instance (q : Consumer P) : Decidable (Finished q) :=
  match h : q.1.subscriber with
  | .replaying cursor => decidable_of_iff cursor.Drained (by simp [Finished, h])
  | .idle => isFalse (by simp [Finished, h])
  | .loaded _ => isFalse (by simp [Finished, h])
  | .replayed _ _ => isFalse (by simp [Finished, h])
  | .streaming _ => isFalse (by simp [Finished, h])
  | .delivered _ _ => isFalse (by simp [Finished, h])

/-- The replay that a consumer is in. -/
def replay (q : Consumer P) : Replay (EventEnvelope P) Int where
  checkpoint := q.1.checkpoint.getD (-1)
  phase :=
    match q.1.subscriber with
    | .loaded _ => .ready
    | .replaying _ => .ready
    | .replayed position _ => .handled position
    | _ => .idle
  history := q.2

/-- The cursor stands at the position `reached` of the last event that was taken from it. -/
def ReadsUpTo (events : List (EventEnvelope P)) (cursor : Cursor (EventEnvelope P) Int)
    (reached : Int) : Prop :=
  ∃ (start : WithBot Int) (taken : List (EventEnvelope P)),
    cursor.Reads (fun e : EventEnvelope P => e.globalPosition) start events taken ∧
      Cursor.reached (fun e : EventEnvelope P => e.globalPosition) taken start = reached

/-- What the run at work relies on, by how far it has come. -/
def AtWork (events : List (EventEnvelope P)) (u : Subscription P) : Prop :=
  match u.subscriber with
  | .idle => True
  | .loaded fromPosition => fromPosition = u.checkpoint.getD (-1)
  | .replaying cursor => ReadsUpTo events cursor (u.checkpoint.getD (-1))
  | .replayed position cursor => ReadsUpTo events cursor position
  | _ => False

variable {events : List (EventEnvelope P)} {cursor cursor' : Cursor (EventEnvelope P) Int}
  {reached : Int} {σ : State P} {q q' : Consumer P} {e : EventEnvelope P}

/-- What is left to read lies above what has been reached. -/
lemma ReadsUpTo.unread (h : ReadsUpTo events cursor reached) {e' : EventEnvelope P}
    (he' : e' ∈ events) (hlt : reached < e'.globalPosition) :
    e' ∈ cursor.fetched ∨ cursor.Ahead (fun e : EventEnvelope P => e.globalPosition) e' := by
  obtain ⟨start, taken, hreads, hreached⟩ := h
  have htaken := hreads.ascending.sublist ((List.sublist_append_left taken _).map _)
  have hle : start ≤ (reached : WithBot Int) := by
    rcases Cursor.reached_cases (fun e : EventEnvelope P => e.globalPosition) taken start with
      ⟨-, heq⟩ | ⟨d, hd, heq⟩
    · exact (heq.symm.trans hreached).le
    · exact (hreads.read d (List.mem_append_left _ hd)).2.1.le.trans (heq.symm.trans hreached).le
  rcases hreads.unread e' he' (hle.trans_lt (WithBot.coe_lt_coe.mpr hlt)) with hread | hahead
  · rcases List.mem_append.mp hread with hmem | hmem
    · have hle := Cursor.le_reached htaken start hmem
      rw [hreached, WithBot.coe_le_coe] at hle
      exact absurd hlt (not_lt.mpr hle)
    · exact .inl hmem
  · exact .inr hahead

/-- The next event is the first one above what has been reached. -/
lemma ReadsUpTo.take (h : ReadsUpTo events cursor reached) (hs : cursor.take = some (e, cursor')) :
    ReadsUpTo events cursor' e.globalPosition ∧ e ∈ events ∧ reached < e.globalPosition ∧
      ∀ e' ∈ events, reached < e'.globalPosition →
        e' = e ∨ e.globalPosition < e'.globalPosition := by
  obtain ⟨hfetched, -, -⟩ := Cursor.take_eq_some hs
  have hunread : ∀ e' ∈ events, reached < e'.globalPosition → _ :=
    fun _ he' hlt => h.unread he' hlt
  obtain ⟨start, taken, hreads, hreached⟩ := h
  have hasc := hreads.ascending
  rw [hfetched, List.map_append, List.pairwise_append] at hasc
  have hmem : e ∈ taken ++ cursor.fetched := by simp [hfetched]
  obtain ⟨hevents, hstart, hlast⟩ := hreads.read e hmem
  refine ⟨⟨start, taken ++ [e], hreads.take hs, by simp [Cursor.reached]⟩, hevents, ?_, ?_⟩
  · rw [← WithBot.coe_lt_coe, ← hreached]
    rcases Cursor.reached_cases (fun e : EventEnvelope P => e.globalPosition) taken start with
      ⟨-, heq⟩ | ⟨d, hd, heq⟩
    · exact heq.trans_lt hstart
    · rw [heq, WithBot.coe_lt_coe]
      exact hasc.2.2 _ (List.mem_map_of_mem hd) _ (by simp)
  · intro e' he' hlt
    rcases hunread e' he' hlt with hleft | hahead
    · rw [hfetched] at hleft
      rcases List.mem_cons.mp hleft with rfl | hleft
      · exact .inl rfl
      · exact .inr ((List.pairwise_cons.mp hasc.2.1).1 _ (List.mem_map_of_mem hleft))
    · exact .inr (WithBot.coe_lt_coe.mp (hlast.trans_lt hahead.2))

/-- A drained cursor leaves nothing above what has been reached. -/
lemma ReadsUpTo.drained (h : ReadsUpTo events cursor reached) (hdrained : cursor.Drained) :
    ∀ e' ∈ events, e'.globalPosition ≤ reached := by
  intro e' he'
  by_contra hlt
  rcases h.unread he' (not_le.mp hlt) with hleft | hahead
  · rw [hdrained.2] at hleft
    cases hleft
  · exact absurd (hdrained.1.symm.trans hahead.1) (by simp)

/-! ### Steps of the historical phase -/

/-- The event that the handler is called with next is taken from the cursor. -/
lemma cursor_of_pending (h : AtWork events q.1) (hpending : q.1.pending σ = some e) :
    ∃ cursor cursor', q.1.subscriber = .replaying cursor ∧ cursor.take = some (e, cursor') := by
  simp only [Subscription.pending] at hpending
  split at hpending
  · rename_i cursor hsub
    obtain ⟨⟨e', cursor'⟩, hc, rfl⟩ := Option.map_eq_some_iff.mp hpending
    exact ⟨cursor, cursor', hsub, hc⟩
  · rename_i next hsub
    simp [AtWork, hsub] at h
  · cases hpending

/-- The first event above the checkpoint is the one that the cursor gives next. -/
lemma above_of_take (hσ : σ.Inv) (h : AtWork σ.db.events q.1)
    (hsub : q.1.subscriber = .replaying cursor) (hc : cursor.take = some (e, cursor')) :
    (replay q).phase = .ready ∧ ∃ rest, Replay.above (fun e : EventEnvelope P => e.globalPosition)
      σ.db.events (replay q).checkpoint = e :: rest := by
  have hkeys : (σ.db.events.map (·.globalPosition)).Nodup :=
    (positions_ascending hσ).imp ne_of_lt
  simp only [AtWork, hsub] at h
  obtain ⟨-, hmem, hlt, hfirst⟩ := h.take hc
  exact ⟨by simp [replay, hsub], Replay.above_eq_cons hkeys hmem hlt hfirst⟩

/-- A step of a run that stays in the historical phase. -/
lemma effect_of_next (hσ : σ.Inv) (h : AtWork σ.db.events q.1) {step : SubscriberStep}
    (hstep : step ≠ .watch) {u : Subscription P} (hs : q.1.next σ step = some u) :
    AtWork σ.db.events u ∧ Replay.Effect (fun e : EventEnvelope P => e.globalPosition)
      σ.db.events (replay q) (replay (u, q.1.recorded σ step q.2)) := by
  have hkeys : (σ.db.events.map (·.globalPosition)).Nodup :=
    (positions_ascending hσ).imp ne_of_lt
  cases step with
  | load =>
    simp only [Subscription.next] at hs
    split at hs
    · rename_i hsub
      obtain rfl := Option.some.inj hs
      exact ⟨rfl, .started (by simp [replay, hsub])⟩
    · cases hs
  | find =>
    simp only [Subscription.next] at hs
    split at hs
    · rename_i fromPosition hsub
      obtain rfl := Option.some.inj hs
      simp only [AtWork, hsub] at h
      refine ⟨⟨fromPosition, [], Cursor.reads_opened, ?_⟩, .of_eq ?_⟩
      · exact congrArg (fun k : Int => (k : WithBot Int)) h
      · simp [replay, Subscription.recorded, hsub]
    · cases hs
  | fetch n =>
    simp only [Subscription.next] at hs
    split at hs
    · rename_i cursor hsub
      obtain ⟨cursor', hc, rfl⟩ := Option.map_eq_some_iff.mp hs
      simp only [AtWork, hsub] at h
      obtain ⟨start, taken, hreads, hreached⟩ := h
      refine ⟨⟨start, taken, hreads.fetch hkeys hc, hreached⟩, .of_eq ?_⟩
      simp [replay, Subscription.recorded, hsub]
    · cases hs
  | handle =>
    obtain ⟨e, hpending⟩ := pending_of_handle hs
    obtain ⟨cursor, cursor', hsub, hc⟩ := cursor_of_pending h hpending
    obtain ⟨hready, rest, habove⟩ := above_of_take hσ h hsub hc
    simp only [Subscription.next, hsub, hc, Option.map_some, Option.some.injEq] at hs
    subst hs
    simp only [Subscription.recorded, hpending, Option.elim_some]
    simp only [AtWork, hsub] at h
    exact ⟨(h.take hc).1, .handled e rest hready habove⟩
  | save =>
    simp only [Subscription.next] at hs
    split at hs
    · rename_i position cursor hsub
      obtain rfl := Option.some.inj hs
      simp only [Subscription.recorded, hsub]
      simp only [AtWork, hsub] at h
      exact ⟨h, .saved position (by simp [replay, hsub])⟩
    · rename_i hsub
      simp [AtWork, hsub] at h
    · cases hs
  | watch => exact absurd rfl hstep
  | stop =>
    obtain rfl := Option.some.inj hs
    exact ⟨trivial, .stopped⟩

/-- Over fixed events the runs that stay in the historical phase are a replay. -/
lemma replays (hσ : σ.Inv) (checkpoint : Option Int) :
    Replay.Replays ((consumer P checkpoint).alone σ) StaysHistorical
      (fun e : EventEnvelope P => e.globalPosition) σ.db.events (checkpoint.getD (-1))
      (fun q => AtWork σ.db.events q.1) replay where
  init := by
    rintro ⟨u, history⟩ ⟨rfl, rfl⟩
    exact ⟨trivial, rfl⟩
  step := by
    intro q step q' h hstep hs
    cases step with
    | fail =>
      obtain ⟨e, hpending, rfl⟩ := Option.map_eq_some_iff.mp hs
      obtain ⟨cursor, cursor', hsub, hc⟩ := cursor_of_pending h hpending
      obtain ⟨hready, rest, habove⟩ := above_of_take hσ h hsub hc
      exact ⟨trivial, .failed e rest hready habove⟩
    | step step =>
      obtain ⟨u, hu, rfl⟩ := Option.map_eq_some_iff.mp hs
      exact effect_of_next hσ h (fun heq => hstep (congrArg RecordedStep.step heq)) hu

/-- A run that has finished has left nothing above the checkpoint. -/
lemma above_of_finished (h : AtWork events q.1) (hfinished : Finished q) :
    Replay.above (fun e : EventEnvelope P => e.globalPosition) events (replay q).checkpoint
      = [] := by
  cases hsub : q.1.subscriber with
  | replaying cursor =>
    simp only [AtWork, Finished, hsub] at h hfinished
    rw [List.eq_nil_iff_forall_not_mem]
    intro e he
    obtain ⟨hmem, hlt⟩ := Replay.mem_above.mp he
    exact absurd hlt (not_lt.mpr (h.drained hfinished e hmem))
  | _ => simp [Finished, hsub] at hfinished

end EventSourcing.Mongo
