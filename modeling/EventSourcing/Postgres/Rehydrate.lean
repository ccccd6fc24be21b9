import EventSourcing.Postgres.Calls
import EventSourcing.Store.Rehydrate

/-!
# Clients of the PostgreSQL store

`rehydrate` reads all events of a stream in one `SELECT`. A client whose `rehydrate` has
returned may call `append` or `append_with_outbox` on the stream.
-/

namespace EventSourcing.Postgres

open Concurrency EventLog

variable {P A : Type}

abbrev Client (P A : Type) := EventSourcing.Client Int32 P A

/-- `SELECT … FROM events WHERE stream_id = $1 ORDER BY stream_version` -/
def Database.stream (db : Database P) (s : String) : List (EventEnvelope P) :=
  (streamEvents db.events s).insertionSort fun e e' => e.streamVersion ≤ e'.streamVersion

/-- The clients, which rehydrate by `apply` from `default`; a label is the stream of a client
that joins. -/
def clients (apply : A → EventEnvelope P → A) (default : A) :
    Observer (State P) (List (Client P A)) String where
  init clients := clients = []
  next σ clients s :=
    let (state, lastVersion) := rehydrate apply default (σ.db.stream s)
    some (clients ++ [.rehydrated s state lastVersion])

/-! ### Runs of clients -/

/-- Call `k` is made by client `k`, on the stream it has rehydrated. -/
def Rehydrated (p : State P × List (Client P A)) : Action P ⊕ String → Prop
  | .inl (.call k step) =>
    ∀ req ∈ step.request?, p.2[k]?.bind Client.stream? = some req.streamId
  | _ => True

/-- The step ends append call `c` in an I/O error, or aborts its transaction. -/
def State.fails (σ : State P) (c : ℕ) : CallStep P → Bool
  | .drawPosition _ =>
    match σ.calls c with
    | .versioned req _ => req.payload.isNone
    | _ => false
  | .commit acknowledged => !acknowledged
  | .fail _ => true
  | .abort => !(σ.calls c).isReturned
  | _ => false

/-- No step of append call `k` fails. -/
def NoFailure (k : ℕ) (p : State P × List (Client P A)) : Action P ⊕ String → Prop
  | .inl (.call c step) => c = k → p.1.fails c step = false
  | _ => True

/-- Nobody else commits to the stream that client `k` relies on. -/
def NoOtherCommit (k : ℕ) (p : State P × List (Client P A)) : Action P ⊕ String → Prop
  | .inl (.call c step) => c ≠ k → ∀ e ∈ p.1.committing (.call c step), ∀ client ∈ p.2[k]?,
      ¬ client.Relies e.streamId (p.1.calls k)
  | _ => True

section Decidable

variable (k : ℕ) (p : State P × List (Client P A))

instance : (a : Action P ⊕ String) → Decidable (Rehydrated p a)
  | .inl (.call _ step) => inferInstanceAs (Decidable (∀ req ∈ step.request?, _))
  | .inl (.relay _ _) => isTrue trivial
  | .inr _ => isTrue trivial

instance : (a : Action P ⊕ String) → Decidable (NoFailure k p a)
  | .inl (.call c _) => inferInstanceAs (Decidable (c = k → _))
  | .inl (.relay _ _) => isTrue trivial
  | .inr _ => isTrue trivial

instance : (a : Action P ⊕ String) → Decidable (NoOtherCommit k p a)
  | .inl (.call c step) =>
    inferInstanceAs (Decidable (c ≠ k → ∀ e ∈ p.1.committing (.call c step), ∀ client ∈ p.2[k]?, _))
  | .inl (.relay _ _) => isTrue trivial
  | .inr _ => isTrue trivial

end Decidable

section Advance

variable {σ σ' : State P} {c : ℕ} {step : CallStep P}

/-- A step that fails without a conflict of versions ends the call in an I/O error. -/
lemma fails_of_failure (h : (system P).Reachable σ) (hf : Failure σ c step) :
    σ.fails c step = true := by
  cases hf with
  | reported => rfl
  | unserialised req v g hc hp => simp [State.fails, hc, hp]
  | duplicateEntry e hc ho =>
    obtain ⟨o, ho, hid⟩ := ho
    obtain ⟨e', he', hid'⟩ := (mirrors_of_reachable h).event_of_entry ho
    have hcall := (inv_of_reachable h).calls c
    simp only [State.CallInv, hc] at hcall
    have hnew := List.filter_eq_nil_iff.mp hcall.1.idNew e' he'
    simp [hid', hid] at hnew

/-- A call whose step does not fail goes on, or it is over. -/
lemma going_of_next (h : (system P).Reachable σ) (hs : σ.callNext c step = some σ')
    (hfails : σ.fails c step = false) : (σ'.calls c).Going ∨ σ'.calls c = σ.calls c := by
  cases callEffect_of_next hs with
  | committed kind e acknowledged hc =>
    obtain rfl : acknowledged = true := by simpa [State.fails] using hfails
    exact .inl (by simp [State.commit, Call.Going])
  | conflict req e hc hstream hid hdup =>
    exact absurd hdup (not_hasDuplicate (inv_of_reachable h) hc hstream hid)
  | failed _ context hc hf =>
    rw [fails_of_failure h hf] at hfails
    cases hfails
  | aborted contexts hc =>
    cases hcall : σ.calls c with
    | returned result => exact absurd hcall (hc result)
    | _ => simp [State.fails, hcall, Call.isReturned] at hfails
  | ended result hc => exact .inr (by rw [State.putCall_calls_self, hc])
  | _ => exact .inl (by simp [Call.Going])

end Advance

/-! ### Every run -/

variable {apply : A → EventEnvelope P → A} {default : A} {p : State P × List (Client P A)}
  {k : ℕ}

/-- In every run of clients in which no step of call `k` fails and nobody else commits to the
stream that client `k` relies on, the client relies on what `ClientInv` says. -/
lemma clientAt_of_reachBy (h : ((system P).observe (clients apply default)).ReachBy
    (fun p a => Rehydrated p a ∧ NoFailure k p a ∧ NoOtherCommit k p a) p) :
    ClientAt apply default k (p.1.calls k) p.1.db.events p.2 := by
  refine System.ReachBy.observed (P := fun p : State P × List (Client P A) =>
    ClientAt apply default k (p.1.calls k) p.1.db.events p.2) ?_ ?_ ?_ h
  · rintro _ _ rfl rfl
    exact ⟨by simp, fun _ => rfl⟩
  · rintro σ clients a σ' hreach hclient ⟨hrehydrated, hfailure, hother⟩ hs
    have hstreams := streamsNumbered_of_reachable
      (simulates_eventLog.reachable (hreach.system.next hs))
    refine hclient.next callView_laws hreach.system hs hstreams ?_ ?_ ?_
    · intro hown
      cases a with
      | call c step =>
        obtain rfl : c = k := Option.some.inj hown
        exact hrehydrated
      | relay r step => cases hown
    · intro hown
      cases a with
      | call c step =>
        obtain rfl : c = k := Option.some.inj hown
        exact going_of_next hreach.system hs (hfailure rfl)
      | relay r step => cases hown
    · intro hne
      cases a with
      | call c step => exact hother fun hc => hne (congrArg some hc)
      | relay r step => simp [callView, State.committing]
  · intro σ clients s clients' hreach hclient _ hs
    obtain rfl := Option.some.inj hs
    have hstreams := streamsNumbered_of_reachable (simulates_eventLog.reachable hreach.system)
    exact hclient.join (clientInv_selected hstreams rfl)

end EventSourcing.Postgres
