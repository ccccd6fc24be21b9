import EventSourcing.Mongo.Append
import EventSourcing.Postgres.Append

/-!
# The transactional outbox of both stores

`append_with_outbox` writes the event and its entry in one transaction, and the relay changes
nothing but the dispatch of entries. So in every committed state the outbox is the list of the
events committed by `append_with_outbox`.
-/

namespace EventSourcing

variable {V P : Type}

/-- The outbox holds exactly one entry for each commit of `append_with_outbox`, in agreement
with its event, and nothing else. -/
structure OutboxMatchesEvents (commits : List (Commit V P)) (events : List (EventEnvelope V P))
    (outbox : List (OutboxEntry P)) : Prop where
  events_eq : events = commits.map Commit.envelope
  ids : (events.map EventEnvelope.eventId).Nodup
  one_entry : ∀ commit ∈ commits, commit.kind = .appendWithOutbox →
    ∃ o, outbox.filter (·.eventId = commit.envelope.eventId) = [o] ∧
      o.streamId = commit.envelope.streamId ∧
      o.globalPosition = commit.envelope.globalPosition ∧
      o.eventType = commit.envelope.eventType ∧ o.payload = commit.envelope.payload
  no_entry : ∀ commit ∈ commits, commit.kind = .append →
    outbox.filter (·.eventId = commit.envelope.eventId) = []
  own_event : ∀ o ∈ outbox, ∃ commit ∈ commits, commit.kind = .appendWithOutbox ∧
    commit.envelope ∈ events ∧ o.eventId = commit.envelope.eventId

lemma Mirrors.outboxMatchesEvents {commits : List (Commit V P)}
    {events : List (EventEnvelope V P)} {outbox : List (OutboxEntry P)}
    (h : Mirrors commits events outbox) : OutboxMatchesEvents commits events outbox where
  events_eq := h.events_eq
  ids := h.ids
  one_entry commit hc hk := by
    obtain ⟨o, ho, hcontent⟩ := h.entry_of_commit hc hk
    simp only [OutboxEntry.content, OutboxEntry.ofEnvelope, Prod.mk.injEq] at hcontent
    exact ⟨o, ho, hcontent.2⟩
  no_entry commit hc hk := h.no_entry_of_append hc hk
  own_event o ho := by
    obtain ⟨commit, hc, hk, hcontent⟩ := h.commit_of_entry ho
    simp only [OutboxEntry.content, OutboxEntry.ofEnvelope, Prod.mk.injEq] at hcontent
    exact ⟨commit, hc, hk, h.events_eq ▸ List.mem_map_of_mem hc, hcontent.1⟩

/-- Only the dispatch of entries differs. -/
def SameContent (outbox outbox' : List (OutboxEntry P)) : Prop :=
  outbox'.map OutboxEntry.content = outbox.map OutboxEntry.content

lemma sameContent_setDispatched (outbox : List (OutboxEntry P)) (eventId now : String) :
    SameContent outbox (outbox.map (OutboxEntry.setDispatched eventId now)) := by
  rw [SameContent, List.map_map]
  exact List.map_congr_left fun o _ => OutboxEntry.content_setDispatched eventId now o

lemma Mongo.relay_sameContent {σ σ' : Mongo.State P} {r : ℕ} {step : Mongo.RelayStep}
    (h : σ.Inv) (hs : σ.relayNext r step = some σ') :
    σ'.db = { σ.db with outbox := σ'.db.outbox } ∧ SameContent σ.db.outbox σ'.db.outbox := by
  rcases (Mongo.relayEffect_of_next hs).db_cases h with hdb | ⟨o, now, -, hdb⟩
  · rw [hdb]
    exact ⟨rfl, rfl⟩
  · rw [hdb]
    exact ⟨rfl, sameContent_setDispatched _ _ _⟩

lemma Postgres.relay_sameContent {σ σ' : Postgres.State P} {r : ℕ} {step : Postgres.RelayStep}
    (h : σ.Inv) (hs : σ.relayNext r step = some σ') :
    σ'.db = { σ.db with outbox := σ'.db.outbox } ∧ SameContent σ.db.outbox σ'.db.outbox := by
  rcases (Postgres.relayEffect_of_next hs).db_cases (h.relays r) with hdb | ⟨o, now, -, hdb⟩
  · rw [hdb]
    exact ⟨rfl, rfl⟩
  · rw [hdb]
    exact ⟨rfl, sameContent_setDispatched _ _ _⟩

/-- In both stores and in every state of every run the outbox matches the events, and a step of
the relay changes nothing but the dispatch of entries. -/
theorem outbox_matches_events :
    (∀ σ, (Mongo.system P).Reachable σ →
      OutboxMatchesEvents σ.commits σ.db.events σ.db.outbox ∧
      ∀ r step σ', σ.relayNext r step = some σ' →
        σ'.db = { σ.db with outbox := σ'.db.outbox } ∧ SameContent σ.db.outbox σ'.db.outbox) ∧
    (∀ σ, (Postgres.system P).Reachable σ →
      OutboxMatchesEvents σ.commits σ.db.events σ.db.outbox ∧
      ∀ r step σ', σ.relayNext r step = some σ' →
        σ'.db = { σ.db with outbox := σ'.db.outbox } ∧ SameContent σ.db.outbox σ'.db.outbox) := by
  constructor
  · intro σ h
    refine ⟨(Mongo.mirrors_of_reachable h).outboxMatchesEvents, ?_⟩
    intro r step σ' hs
    exact Mongo.relay_sameContent (Mongo.inv_of_reachable h) hs
  · intro σ h
    refine ⟨(Postgres.mirrors_of_reachable h).outboxMatchesEvents, ?_⟩
    intro r step σ' hs
    exact Postgres.relay_sameContent (Postgres.inv_of_reachable h) hs

open Concurrency in
theorem outbox_matches_events_runs :
    let σ := (Mongo.system ℕ).after Mongo.contendedRun .initial
    let τ := (Postgres.system ℕ).after Postgres.interleavedRun .initial
    (σ.db.outbox.length = 1 ∧ OutboxMatchesEvents σ.commits σ.db.events σ.db.outbox) ∧
      OutboxMatchesEvents τ.commits τ.db.events τ.db.outbox := by
  have hmongo := (outbox_matches_events (P := ℕ)).1 _
    (System.reachable_after Mongo.contendedRun Mongo.init_initial (by decide))
  have hpostgres := (outbox_matches_events (P := ℕ)).2 _
    (System.reachable_after Postgres.interleavedRun Postgres.init_initial (by decide))
  exact ⟨⟨by decide, hmongo.1⟩, hpostgres.1⟩

end EventSourcing
