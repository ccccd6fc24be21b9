import EventSourcing.Store.ConsistentRead
import Mathlib.Data.List.Forall2

/-!
# Append calls between the steps of others

A caller appends to a stream that nobody else writes to, one call after the other; the calls of
others, on other streams, run between the steps of its own. When all of its calls have returned
`Ok`, its stream holds what they asked for, in their order (`CallView.Appended.gives`).
-/

namespace EventSourcing

open Concurrency

variable {S B V P T C : Type}

namespace CallView

variable (view : CallView S B V P)

/-- The step belongs to call `c`, which is made for the request, or commits elsewhere. -/
def Alone (s : String) (c : ℕ) (req : AppendRequest V P) (σ : S) (b : B) : Prop :=
  (view.callOf b = some c ∧ ∀ r ∈ view.request? b, r = req) ∨
    (view.callOf b ≠ some c ∧ ∀ e ∈ view.committing σ b, e.streamId ≠ s)

/-- The states in which requests on a new stream have been served, one after the other and each
with `Ok`, while others wrote to other streams. -/
inductive Appended (M : System S B) (s : String) : List (AppendRequest V P) → S → Prop where
  | fresh {σ : S} (h : M.Reachable σ) (hnew : streamEvents (view.events σ) s = []) :
      Appended M s [] σ
  | append {requests : List (AppendRequest V P)} {σ σ' : S} (h : Appended M s requests σ) (c : ℕ)
      (req : AppendRequest V P) (hstream : req.streamId = s) (hidle : view.calls σ c = .idle)
      (hl : M.LaterBy (view.Alone s c req) σ σ') (e : EventEnvelope V P)
      (hok : view.calls σ' c = .returned (.ok e)) : Appended M s (requests ++ [req]) σ'

variable {view} {M : System S B} {O : Observer S T C} {s : String} {c : ℕ} {σ σ' : S} {b : B}
  {req : AppendRequest V P} {before : List (EventEnvelope V P)}

/-- How far the call has come, and what it has added to its stream. -/
def Progress (view : CallView S B V P) (s : String) (c : ℕ) (req : AppendRequest V P)
    (before : List (EventEnvelope V P)) (σ : S) : Prop :=
  (streamEvents (view.events σ) s = before ∧
    (view.calls σ c).IsFor req ∧ ∀ e, view.calls σ c ≠ .returned (.ok e)) ∨
  ∃ e result, view.calls σ c = .returned result ∧ req.Gives e ∧
    streamEvents (view.events σ) s = before ++ [e]

lemma streamEvents_append (events new : List (EventEnvelope V P)) (s : String) :
    streamEvents (events ++ new) s = streamEvents events s ++ streamEvents new s :=
  List.filter_append ..

lemma Laws.progress (h : view.Laws M) (hstream : req.streamId = s) (hσ : M.Reachable σ)
    (hprogress : view.Progress s c req before σ) (halone : view.Alone s c req σ b)
    (hs : M.next σ b = some σ') : view.Progress s c req before σ' := by
  have hevents := h.commits hσ hs
  rcases halone with ⟨hown, hrequest⟩ | ⟨hother, helse⟩
  · have hmoves := h.own hs hown
    cases hcommit : view.committing σ b with
    | none =>
      rw [hcommit] at hmoves
      rw [hcommit, Option.toList_none, List.append_nil] at hevents
      rcases hprogress with ⟨hsame, hfor, hopen⟩ | ⟨e, result, hreturned, hgives, hsame⟩
      · refine .inl ⟨hevents ▸ hsame, hmoves.isFor hrequest hfor, ?_⟩
        exact fun e hok => hopen e (hmoves.of_returned_ok hok)
      · exact .inr ⟨e, result, (hmoves.of_returned hreturned).1, hgives, hevents ▸ hsame⟩
    | some e =>
      rw [hcommit] at hmoves
      obtain ⟨⟨kind, hready⟩, result, hreturned⟩ := hmoves.of_committing
      rcases hprogress with ⟨hsame, hfor, -⟩ | ⟨e', result', hreturned', -⟩
      · have hgives := hfor.gives hready
        refine .inr ⟨e, result, hreturned, hgives, ?_⟩
        rw [hevents, hcommit, streamEvents_append, hsame]
        simp [streamEvents, hgives.streamId, hstream]
      · exact absurd hreturned' (hready.ne_returned _)
  · have hcall := h.other hs hother
    have hsame : streamEvents (view.events σ') s = streamEvents (view.events σ) s := by
      rw [hevents]
      exact streamEvents_append_elsewhere helse
    rw [Progress, hcall, hsame]
    exact hprogress

/-- A call that has returned `Ok` has added the event that it was asked for. -/
lemma Laws.gives (h : view.Laws M) (hstream : req.streamId = s) (hσ : M.Reachable σ)
    (hidle : view.calls σ c = .idle) (hl : M.LaterBy (view.Alone s c req) σ σ')
    {e : EventEnvelope V P} (hok : view.calls σ' c = .returned (.ok e)) :
    ∃ e', req.Gives e' ∧
      streamEvents (view.events σ') s = streamEvents (view.events σ) s ++ [e'] := by
  have hprogress : view.Progress s c req (streamEvents (view.events σ) s) σ' := by
    clear hok
    induction hl with
    | refl =>
      refine .inl ⟨rfl, .inl hidle, ?_⟩
      simp [hidle]
    | tail hl hs ih =>
      obtain ⟨b, halone, hs⟩ := hs
      exact h.progress hstream (hσ.later (System.LaterBy.later hl)) ih halone hs
  rcases hprogress with ⟨-, -, hopen⟩ | ⟨e', result, -, hgives, hevents⟩
  · exact absurd hok (hopen e)
  · exact ⟨e', hgives, hevents⟩

/-- The stream holds what the requests asked for, in their order. -/
lemma Appended.gives (h : view.Laws M) {requests : List (AppendRequest V P)}
    (happended : view.Appended M s requests σ) :
    M.Reachable σ ∧
      List.Forall₂ AppendRequest.Gives requests (streamEvents (view.events σ) s) := by
  induction happended with
  | fresh hσ hnew =>
    rw [hnew]
    exact ⟨hσ, .nil⟩
  | append _ c req hstream hidle hl e hok ih =>
    obtain ⟨hσ, hgives⟩ := ih
    obtain ⟨e', hreq, hevents⟩ := h.gives hstream hσ hidle hl hok
    rw [hevents]
    exact ⟨hσ.later (System.LaterBy.later hl), List.rel_append hgives (.cons hreq .nil)⟩

/-- Calls that have been served before the observer came. -/
lemma Appended.observed {requests : List (AppendRequest V P)} {t : T}
    (h : view.Appended M s requests σ) (ht : O.init t) :
    (view.observed T C).Appended (M.observe O) s requests (σ, t) := by
  induction h with
  | fresh hσ hnew => exact .fresh (System.Reachable.observe hσ ht) hnew
  | append _ c req hstream hidle hl e hok ih =>
    exact ih.append c req hstream hidle (System.LaterBy.observe (fun _ _ h => h) hl) e hok

end CallView

end EventSourcing
