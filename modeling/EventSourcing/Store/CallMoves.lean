import EventSourcing.Concurrency.Observer
import EventSourcing.Store.Calls

/-!
# How append calls move on

Both stores take a call from station to station in the same way (`Call.Moves`), whatever the
stations do to the database. What a call works on and what it returns follows from that alone:
a call serves one request to its end (`Moves.serves`), commits what that request asks for
(`IsFor.gives`), and returns `Ok` by a commit only (`Moves.of_returned_ok`).

`CallView` is a store as one sees it from its calls, `CallView.Laws` what both stores do for them.
-/

namespace EventSourcing

open Concurrency

variable {V P : Type}

/-- The commit is the one the request asks for. -/
def AppendRequest.Commits (req : AppendRequest V P) (commit : Commit V P) : Prop :=
  commit.kind = req.kind ∧ req.Gives commit.envelope

namespace Call

/-- The stream of a call that is at work. -/
def stream? : Call V P → Option String
  | .started req => some req.streamId
  | .versioned req _ => some req.streamId
  | .positioned req _ _ => some req.streamId
  | .inserted _ e => some e.streamId
  | .outboxWritten e => some e.streamId
  | _ => none

/-- The position a call has drawn and not committed yet, with its stream. -/
def draft : Call V P → Option (String × Int)
  | .positioned req _ g => some (req.streamId, g)
  | .inserted _ e => some (e.streamId, e.globalPosition)
  | .outboxWritten e => some (e.streamId, e.globalPosition)
  | _ => none

def isReturned : Call V P → Bool
  | .returned _ => true
  | _ => false

/-- The call has not stopped with an error. -/
def Going : Call V P → Prop
  | .aborted _ => False
  | .returned (.error _) => False
  | _ => True

/-- The call is at work on the request, or it is over. -/
def Serves (req : AppendRequest V P) : Call V P → Prop
  | .idle => False
  | .started r => r = req
  | .versioned r _ => r = req
  | .positioned r _ _ => r = req
  | .inserted kind e => kind = req.kind ∧ req.Gives e
  | .outboxWritten e => req.kind = .appendWithOutbox ∧ req.Gives e
  | .aborted _ => True
  | .returned _ => True

/-- The call has not begun, or it serves the request. -/
def IsFor (req : AppendRequest V P) (call : Call V P) : Prop :=
  call = .idle ∨ call.Serves req

/-- What a step makes of its call: the step is called with `request` if it starts a call, and
commits the event, if any. -/
inductive Moves (call : Call V P) :
    Option (AppendRequest V P) → Call V P → Option (EventEnvelope V P) → Prop where
  | started (req : AppendRequest V P) (h : call = .idle) :
      Moves call (some req) (.started req) none
  | versioned (req : AppendRequest V P) (v : Int) (h : call = .started req) :
      Moves call none (.versioned req v) none
  | positioned (req : AppendRequest V P) (v g : Int) (h : call = .versioned req v) :
      Moves call none (.positioned req v g) none
  | inserted (req : AppendRequest V P) (e : EventEnvelope V P)
      (h : call = .positioned req e.streamVersion e.globalPosition) (hgives : req.Gives e) :
      Moves call none (.inserted req.kind e) none
  | outboxWritten (e : EventEnvelope V P) (h : call = .inserted .appendWithOutbox e) :
      Moves call none (.outboxWritten e) none
  | committed (kind : AppendKind) (e : EventEnvelope V P)
      (result : Except EventStoreError (EventEnvelope V P)) (h : call.ReadyToCommit kind e)
      (hresult : ∀ e', result = .ok e' → e' = e) : Moves call none (.returned result) (some e)
  | failed (error : EventStoreError) (h : ∀ result, call ≠ .returned result) :
      Moves call none (.returned (.error error)) none
  | aborted (contexts : List String) (h : ∀ result, call ≠ .returned result) :
      Moves call none (.aborted contexts) none
  | ended (result : Except EventStoreError (EventEnvelope V P)) (h : call = .returned result) :
      Moves call none (.returned result) none

variable {req : AppendRequest V P} {request : Option (AppendRequest V P)} {call call' : Call V P}
  {kind : AppendKind} {committing : Option (EventEnvelope V P)} {e : EventEnvelope V P}
  {commit : Commit V P} {result : Except EventStoreError (EventEnvelope V P)}

/-! ### A call that is ready to commit -/

/-- What a call is about to commit is what its request asks for. -/
lemma Serves.commits (h : call.Serves req)
    (hready : call.ReadyToCommit commit.kind commit.envelope) : req.Commits commit := by
  rcases hready with ⟨rfl, hkind⟩ | ⟨rfl, hkind⟩
  · exact ⟨hkind.trans h.1, h.2⟩
  · exact ⟨hkind.trans h.1.symm, h.2⟩

lemma IsFor.gives (h : call.IsFor req) (hready : call.ReadyToCommit kind e) : req.Gives e := by
  rcases h with rfl | h
  · rcases hready with ⟨hcall, -⟩ | ⟨hcall, -⟩
    · cases hcall
    · cases hcall
  · have hcommits : req.Commits ⟨0, kind, e⟩ := h.commits hready
    exact hcommits.2

lemma ReadyToCommit.ne_returned (h : call.ReadyToCommit kind e)
    (result : Except EventStoreError (EventEnvelope V P)) : call ≠ .returned result := by
  rintro rfl
  rcases h with ⟨hcall, -⟩ | ⟨hcall, -⟩
  · cases hcall
  · cases hcall

lemma ReadyToCommit.stream? (h : call.ReadyToCommit kind e) : call.stream? = some e.streamId := by
  rcases h with ⟨rfl, -⟩ | ⟨rfl, -⟩
  · rfl
  · rfl

lemma ReadyToCommit.draft (h : call.ReadyToCommit kind e) :
    call.draft = some (e.streamId, e.globalPosition) := by
  rcases h with ⟨rfl, -⟩ | ⟨rfl, -⟩
  · rfl
  · rfl

/-! ### What follows from the moves -/

/-- A call stays at work on its request. -/
lemma Moves.serves (h : call.Moves request call' committing) (hserves : call.Serves req) :
    call'.Serves req := by
  cases h with
  | started req' hc => exact (hc ▸ hserves).elim
  | versioned req' v hc => exact (hc ▸ hserves : Serves req (.started req'))
  | positioned req' v g hc => exact (hc ▸ hserves : Serves req (.versioned req' v))
  | inserted req' e hc hgives =>
    obtain rfl : req' = req := (hc ▸ hserves : Serves req (.positioned req' _ _))
    exact ⟨rfl, hgives⟩
  | outboxWritten e hc =>
    have hinserted : Serves req (.inserted .appendWithOutbox e) := hc ▸ hserves
    exact ⟨hinserted.1.symm, hinserted.2⟩
  | committed | failed | aborted | ended => trivial

/-- A call that has not begun begins with the request of the step, or is over. -/
lemma Moves.isFor (h : call.Moves request call' committing) (hrequest : ∀ r ∈ request, r = req)
    (hfor : call.IsFor req) : call'.IsFor req := by
  rcases hfor with hidle | hserves
  · cases h with
    | started req' => exact .inr (hrequest req' rfl)
    | failed | aborted | ended | committed => exact .inr trivial
    | versioned _ _ hc | positioned _ _ _ hc | inserted _ _ hc | outboxWritten _ hc =>
      exact absurd (hidle.symm.trans hc) (by simp)
  · exact .inr (h.serves hserves)

/-- What a call has returned stays. -/
lemma Moves.of_returned (h : call.Moves request call' committing)
    (hreturned : call = .returned result) : call' = .returned result ∧ committing = none := by
  cases h with
  | ended result' hc => exact ⟨hc.symm.trans hreturned, rfl⟩
  | committed kind e _ hready hresult => exact absurd hreturned (hready.ne_returned _)
  | failed _ hopen | aborted _ hopen => exact absurd hreturned (hopen _)
  | started _ hc | versioned _ _ hc | positioned _ _ _ hc | inserted _ _ hc
  | outboxWritten _ hc => exact absurd (hreturned.symm.trans hc) (by simp)

/-- Only a commit returns `Ok`. -/
lemma Moves.of_returned_ok (h : call.Moves request call' none)
    (hok : call' = .returned (.ok e)) : call = .returned (.ok e) := by
  cases h with
  | ended result hc => exact hc.trans hok
  | _ => simp at hok

/-- A call commits what it is ready to commit, and returns. -/
lemma Moves.of_committing (h : call.Moves request call' (some e)) :
    (∃ kind, call.ReadyToCommit kind e) ∧ ∃ result, call' = .returned result := by
  cases h with
  | committed kind _ result hready => exact ⟨⟨kind, hready⟩, result, rfl⟩

/-- Only the step that is called with a request begins it. -/
lemma Moves.request_of_started (h : call.Moves request call' committing) (hidle : call = .idle)
    (hstarted : call' = .started req) : request = some req := by
  cases h with
  | started req' =>
    obtain rfl : req' = req := by simpa using hstarted
    rfl
  | ended result hc => exact absurd (hidle.symm.trans hc) (by simp)
  | _ => simp at hstarted

/-- A draft is kept, given up or drawn. -/
lemma Moves.draft_cases (h : call.Moves request call' committing) :
    call'.draft = call.draft ∨ call'.draft = none ∨
      ∃ req v g, call = .versioned req v ∧ call' = .positioned req v g := by
  cases h with
  | positioned req v g hc => exact .inr (.inr ⟨req, v, g, hc, rfl⟩)
  | inserted req e hc hgives => exact .inl (by rw [hc]; simp [draft, hgives.streamId])
  | outboxWritten e hc => exact .inl (by rw [hc]; rfl)
  | _ => exact .inr (.inl rfl)

end Call

/-! ### A store seen from its calls -/

variable {S B T C : Type}

/-- A store as one sees it from its append calls. -/
structure CallView (S B V P : Type) where
  events : S → List (EventEnvelope V P)
  /-- the event that a step would commit -/
  committing : S → B → Option (EventEnvelope V P)
  calls : S → ℕ → Call V P
  /-- the call that a step belongs to -/
  callOf : B → Option ℕ
  /-- the request of a step that starts a call -/
  request? : B → Option (AppendRequest V P)

namespace CallView

variable (view : CallView S B V P)

/-- What a store does for its calls. -/
structure Laws (M : System S B) : Prop where
  commits : ∀ {σ b σ'}, M.Reachable σ → M.next σ b = some σ' →
    view.events σ' = view.events σ ++ (view.committing σ b).toList
  other : ∀ {σ b σ' c}, M.next σ b = some σ' → view.callOf b ≠ some c →
    view.calls σ' c = view.calls σ c
  own : ∀ {σ b σ' c}, M.next σ b = some σ' → view.callOf b = some c →
    (view.calls σ c).Moves (view.request? b) (view.calls σ' c) (view.committing σ b)

/-- The view next to an observer of the store. -/
def observed (T C : Type) : CallView (S × T) (B ⊕ C) V P where
  events p := view.events p.1
  committing p
    | .inl b => view.committing p.1 b
    | .inr _ => none
  calls p := view.calls p.1
  callOf
    | .inl b => view.callOf b
    | .inr _ => none
  request?
    | .inl b => view.request? b
    | .inr _ => none

variable {view} {M : System S B}

/-- An observer does nothing for the calls. -/
lemma Laws.observed (h : view.Laws M) (O : Observer S T C) :
    (view.observed T C).Laws (M.observe O) where
  commits := by
    intro p a p' hp hs
    cases a with
    | inl b =>
      obtain ⟨σ', hs', rfl⟩ := System.observe_inl.mp hs
      exact h.commits hp.system hs'
    | inr step =>
      obtain ⟨t, -, rfl⟩ := System.observe_inr.mp hs
      exact (List.append_nil _).symm
  other := by
    intro p a p' c hs hother
    cases a with
    | inl b =>
      obtain ⟨σ', hs', rfl⟩ := System.observe_inl.mp hs
      exact h.other hs' hother
    | inr step =>
      obtain ⟨t, -, rfl⟩ := System.observe_inr.mp hs
      rfl
  own := by
    intro p a p' c hs hown
    cases a with
    | inl b =>
      obtain ⟨σ', hs', rfl⟩ := System.observe_inl.mp hs
      exact h.own hs' hown
    | inr step => cases hown

end CallView

end EventSourcing
