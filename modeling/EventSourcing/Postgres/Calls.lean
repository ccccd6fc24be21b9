import EventSourcing.Postgres.Append
import EventSourcing.Store.Sequential

/-!
# The PostgreSQL store seen from its append calls

The stations of a call are those of `Call.Moves` (`CallEffect.moves`). The identity value of a
call is drawn above all values drawn before, so it is above the positions of the events that are
committed when it is drawn (`position_of_draw`).
-/

namespace EventSourcing.Postgres

open Concurrency EventLog

variable {P : Type} {σ σ' : State P} {c : ℕ} {step : CallStep P}

/-- The arguments of the call a step starts. -/
def CallStep.request? : CallStep P → Option (AppendRequest P)
  | .invoke req => some req
  | _ => none

def CallStep.isCommit : CallStep P → Bool
  | .commit _ => true
  | _ => false

/-- The store as one sees it from its append calls. -/
def callView (P : Type) : CallView (State P) (Action P) Int32 P where
  events σ := σ.db.events
  committing := State.committing
  calls := State.calls
  callOf
    | .call c _ => some c
    | .relay _ _ => none
  request?
    | .call _ step => step.request?
    | .relay _ _ => none

variable (P) in
/-- The store as its append calls meet it, from empty tables on. -/
def appendStore : AppendStore (State P) (CallStep P) Int32 P where
  init σ := σ = .initial
  call := State.callNext
  invoke := .invoke
  isCommit := CallStep.isCommit
  events σ := σ.db.events
  outbox σ := σ.db.outbox

/-- A step that fails starts no call and commits nothing. -/
lemma Failure.silent (h : Failure σ c step) :
    step.request? = none ∧ σ.committing (.call c step) = none := by
  cases h <;> exact ⟨rfl, rfl⟩

/-- How a step moves its call on. -/
lemma CallEffect.moves (he : CallEffect σ c step σ') :
    (σ.calls c).Moves step.request? (σ'.calls c) (σ.committing (.call c step)) := by
  cases he with
  | started req hc =>
    rw [State.putCall_calls_self]
    exact .started req hc
  | versioned req v engine hc =>
    rw [State.putCall_calls_self]
    exact .versioned req v hc
  | positioned req v g hc =>
    show (σ.calls c).Moves none ((σ.putCall c σ.engine _).calls c) none
    rw [State.putCall_calls_self]
    exact .positioned req v g hc
  | inserted req e engine hc hgives =>
    show (σ.calls c).Moves none ((σ.putCall c engine _).calls c) none
    rw [State.putCall_calls_self]
    exact .inserted req e hc hgives
  | outboxWritten e engine hc =>
    rw [State.putCall_calls_self]
    exact .outboxWritten e hc
  | committed kind e acknowledged hc =>
    have hcommitting : σ.committing (.call c (.commit acknowledged)) = some e := by
      simp [State.committing, Call.ready_of_readyToCommit hc]
    rw [hcommitting]
    show (σ.calls c).Moves none ((σ.putCall c (σ.engine.commit (.call c)) _).calls c) (some e)
    rw [State.putCall_calls_self]
    refine .committed kind e _ hc fun e' hok => ?_
    cases acknowledged with
    | true => exact (Except.ok.inj hok).symm
    | false => cases hok
  | conflict req e hc =>
    rw [State.failCall, State.putCall_calls_self]
    exact .failed _ (by simp [hc])
  | failed _ context hc hf =>
    rw [hf.silent.1, hf.silent.2, State.failCall, State.putCall_calls_self]
    exact .failed _ hc
  | aborted contexts hc =>
    rw [State.putCall_calls_self]
    exact .aborted contexts hc
  | ended result hc =>
    rw [State.putCall_calls_self]
    exact .ended result hc

/-- The identity value that a call draws is above the committed positions. -/
lemma position_of_draw {req : AppendRequest P} {v g : Int} (h : (system P).Reachable σ)
    (hs : σ.callNext c step = some σ') (hc : σ'.calls c = .positioned req v g) :
    ∀ e ∈ σ.db.events, e.globalPosition < g := by
  cases callEffect_of_next hs with
  | positioned req' v' g' _ hg =>
    obtain ⟨-, -, rfl⟩ : req' = req ∧ v' = v ∧ g' = g := by simpa using hc
    intro e he
    have hle : e.globalPosition ≤ σ.identity :=
      (Sequence.ordered_of_reachable (simulates_sequence.reachable h)).logLe _
        (List.mem_map_of_mem (f := fun e : EventEnvelope P => (e.streamId, e.globalPosition)) he)
    exact hle.trans_lt hg
  | ended result hreturned => simp at hc
  | _ => simp [State.failCall, State.commit] at hc

/-- The store keeps the laws of append calls between the steps of others. -/
lemma callView_laws : (callView P).Laws (system P) where
  commits hσ hs := events_next (inv_of_reachable hσ) hs
  other := by
    intro σ a σ' c hs hother
    cases a with
    | call c' step =>
      have hne : c ≠ c' := fun h => hother (congrArg some h.symm)
      exact (callEffect_of_next hs).calls_ne hne
    | relay r step => exact congrFun (relayEffect_of_next hs).calls_eq c
  own := by
    intro σ a σ' c hs hown
    cases a with
    | call c' step =>
      obtain rfl : c' = c := Option.some.inj hown
      exact (callEffect_of_next hs).moves
    | relay r step => cases hown

/-- The store keeps the laws of append calls one after another. -/
theorem appendStore_laws : (appendStore P).Laws (system P).Reachable State.calls where
  init := by
    rintro _ rfl
    exact ⟨.init init_initial, rfl, rfl⟩
  next := fun {_ c step _} hσ hs => hσ.next (a := .call c step) hs
  invoke := by
    intro σ c req σ' _ hs
    simp only [appendStore, State.callNext] at hs
    split at hs
    · obtain rfl := Option.some.inj hs
      exact ⟨State.putCall_calls_self .., rfl, rfl⟩
    · cases hs
  moves hs := ⟨_, _, (callEffect_of_next hs).moves⟩
  draws hσ hs _ hc := position_of_draw hσ hs hc
  writes := by
    intro σ c step σ' hσ hs
    have he := callEffect_of_next hs
    rcases he.db_cases (inv_of_reachable hσ) with
      ⟨hdb, hcommits⟩ | ⟨acknowledged, commit, rfl, hc⟩
    · refine .inl ⟨?_, congrArg (·.events) hdb, congrArg (·.outbox) hdb⟩
      cases step with
      | commit acknowledged =>
        obtain ⟨kind, e, -, rfl⟩ := he.of_commit
        simp [State.commit] at hcommits
      | _ => rfl
    · exact .inr ⟨rfl, hc.returned, commit, hc.ready, congrArg (·.events) hc.db,
        congrArg (·.outbox) hc.db⟩

end EventSourcing.Postgres
