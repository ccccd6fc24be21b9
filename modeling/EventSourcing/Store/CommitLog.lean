import EventSourcing.Store.EventLog
import EventSourcing.Store.Outbox

/-!
# The log of the commits

What the append calls and the relays of a store have done, without databases and transactions: a
commit joins with an event of a new id under the next version of its stream and with its outbox
entry, and a relay changes the dispatch of an entry. Both stores are shown to simulate this
system, so that their events and their outbox mirror the commits (`mirrors_of_reachable`), and
its events are an event log (`simulates_eventLog`).
-/

namespace EventSourcing

open Concurrency EventLog

variable {V P : Type}

@[ext]
structure CommitLog (V P : Type) where
  commits : List (Commit V P)
  events : List (EventEnvelope V P)
  outbox : List (OutboxEntry P)

namespace CommitLog

inductive Step (V P : Type) where
  | commit (commit : Commit V P)
  /-- a relay has marked the entry of an event -/
  | dispatch (eventId now : String)

variable (V P) in
def system : System (CommitLog V P) (Step V P) where
  init log := log = ⟨[], [], []⟩
  next log
    | .commit commit =>
      let e := commit.envelope
      if e.streamVersion = streamLength log.events e.streamId ∧
          log.events.filter (·.eventId = e.eventId) = [] then
        some ⟨log.commits ++ [commit], log.events ++ [e], log.outbox ++ commit.entries⟩
      else none
    | .dispatch eventId now =>
      some { log with outbox := log.outbox.map (OutboxEntry.setDispatched eventId now) }

variable {log log' : CommitLog V P} {commit : Commit V P}

lemma next_commit : (system V P).next log (.commit commit) = some log' ↔
    (commit.envelope.streamVersion = streamLength log.events commit.envelope.streamId ∧
      log.events.filter (·.eventId = commit.envelope.eventId) = []) ∧
    ⟨log.commits ++ [commit], log.events ++ [commit.envelope], log.outbox ++ commit.entries⟩
      = log' := by
  simp only [system]
  split_ifs with h
  · simp only [Option.some.injEq, h, true_and]
  · exact iff_of_false (by simp) fun hs => h hs.1

/-- Events and outbox mirror the commits. -/
theorem mirrors_of_reachable (h : (system V P).Reachable log) :
    Mirrors log.commits log.events log.outbox := by
  refine System.ReachBy.invariant
    (P := fun log : CommitLog V P => Mirrors log.commits log.events log.outbox) ?_ ?_ h
  · rintro _ rfl
    exact mirrors_nil
  · intro log step log' _ hm _ hs
    cases step with
    | commit commit =>
      obtain ⟨⟨-, hnew⟩, rfl⟩ := next_commit.mp hs
      exact hm.commit hnew
    | dispatch eventId now =>
      obtain rfl := Option.some.inj hs
      exact hm.setDispatched eventId now

/-- Its events are an event log. -/
theorem simulates_eventLog :
    System.Simulation (system V P) (EventLog.system V P) CommitLog.events where
  init := by
    rintro _ rfl
    rfl
  next log step log' _ _ hs := by
    cases step with
    | commit commit =>
      obtain ⟨⟨hversion, -⟩, rfl⟩ := next_commit.mp hs
      exact .inr ⟨commit.envelope, EventLog.next_eq_some.mpr ⟨hversion, rfl⟩⟩
    | dispatch eventId now =>
      obtain rfl := Option.some.inj hs
      exact .inl rfl

/-- Commits are never taken back. -/
lemma prefix_of_later (h : (system V P).Later log log') : log.commits <+: log'.commits := by
  induction h with
  | refl => exact List.prefix_refl _
  | tail _ hs ih =>
    obtain ⟨step, hs⟩ := hs
    cases step with
    | commit commit =>
      obtain ⟨-, rfl⟩ := next_commit.mp hs
      exact ih.trans (List.prefix_append _ _)
    | dispatch eventId now =>
      obtain rfl := Option.some.inj hs
      exact ih

end CommitLog

end EventSourcing
