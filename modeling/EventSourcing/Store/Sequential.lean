import EventSourcing.Store.CallMoves
import EventSourcing.Store.Outbox
import Mathlib.Data.List.Forall2

/-!
# Append calls one after another

Calls of `append` and `append_with_outbox` are made on an empty store, the next one when the one
before it has come to its end, which may be anywhere (`AppendStore.Sequential`). What the store
holds then is what the calls that have committed asked for, under ascending positions
(`AppendStore.Laws.records`).
-/

namespace EventSourcing

open Concurrency

variable {S C V P : Type}

/-! ### Calls one after another -/

/-- A store as its append calls meet it: `C` is a step of a call, and calls are numbered. -/
structure AppendStore (S C V P : Type) where
  init : S → Prop
  call : S → ℕ → C → Option S
  invoke : AppendRequest V P → C
  /-- the step commits the transaction of its call -/
  isCommit : C → Bool
  events : S → List (EventEnvelope V P)
  outbox : S → List (OutboxEntry P)

namespace AppendStore

variable (store : AppendStore S C V P)

/-- The steps of one call. -/
def one (c : ℕ) : System S C where
  init := store.init
  next σ step := store.call σ c step

/-- The states after calls that were made one after another, with whether each has committed. -/
inductive Sequential : List (AppendRequest V P × Bool) → S → Prop where
  | nil {σ : S} (h : store.init σ) : Sequential [] σ
  | call {calls : List (AppendRequest V P × Bool)} {σ σ' : S} (h : Sequential calls σ)
      (req : AppendRequest V P) (steps : List C)
      (hs : (store.one calls.length).run (store.invoke req :: steps) σ = some σ') :
      Sequential (calls ++ [(req, steps.any store.isCommit)]) σ'

/-- The requests of the calls that have committed. -/
def committed (calls : List (AppendRequest V P × Bool)) : List (AppendRequest V P) :=
  (calls.filter (·.2)).map (·.1)

/-- The events and the entries are those of the commits the requests ask for, and the positions
ascend. -/
structure Records (requests : List (AppendRequest V P)) (commits : List (Commit V P))
    (events : List (EventEnvelope V P)) (outbox : List (OutboxEntry P)) : Prop where
  requests : List.Forall₂ AppendRequest.Commits requests commits
  events_eq : events = commits.map Commit.envelope
  outbox_eq : outbox = (outboxCommits commits).map fun commit => .ofEnvelope commit.envelope
  ascending : (events.map EventEnvelope.globalPosition).Pairwise (· < ·)

/-- The step has left the events and the entries as they were. -/
def Quiet (σ σ' : S) : Prop :=
  store.events σ' = store.events σ ∧ store.outbox σ' = store.outbox σ

/-- The commit has joined the events and the entries. -/
structure Stores (commit : Commit V P) (σ σ' : S) : Prop where
  events : store.events σ' = store.events σ ++ [commit.envelope]
  outbox : store.outbox σ' = store.outbox σ ++ commit.entries

/-- The commit has joined them under a position above all others. -/
structure Joins (commit : Commit V P) (σ σ' : S) : Prop extends store.Stores commit σ σ' where
  above : ∀ e ∈ store.events σ, e.globalPosition < commit.envelope.globalPosition

/-- What a store does for its calls, which stand where `calls` says, in the states of `Inv`. -/
structure Laws (Inv : S → Prop) (calls : S → ℕ → Call V P) : Prop where
  init : ∀ {σ}, store.init σ → Inv σ ∧ store.events σ = [] ∧ store.outbox σ = []
  next : ∀ {σ c step σ'}, Inv σ → store.call σ c step = some σ' → Inv σ'
  invoke : ∀ {σ c req σ'}, Inv σ → store.call σ c (store.invoke req) = some σ' →
    calls σ' c = .started req ∧ store.Quiet σ σ'
  moves : ∀ {σ c step σ'}, store.call σ c step = some σ' →
    ∃ request committing, (calls σ c).Moves request (calls σ' c) committing
  /-- a position is drawn above the committed ones -/
  draws : ∀ {σ c step σ' req v g}, Inv σ → store.call σ c step = some σ' →
    calls σ c = .versioned req v → calls σ' c = .positioned req v g →
      ∀ e ∈ store.events σ, e.globalPosition < g
  writes : ∀ {σ c step σ'}, Inv σ → store.call σ c step = some σ' →
    (store.isCommit step = false ∧ store.Quiet σ σ') ∨
      (store.isCommit step = true ∧ (∃ result, calls σ' c = .returned result) ∧
        ∃ commit, (calls σ c).ReadyToCommit commit.kind commit.envelope ∧
          store.Stores commit σ σ')

/-- The call is at work on the request, and the position it has drawn is above the committed
ones. -/
structure Works (calls : S → ℕ → Call V P) (req : AppendRequest V P) (c : ℕ) (σ : S) : Prop where
  serves : (calls σ c).Serves req
  above : ∀ d, (calls σ c).draft = some d → ∀ e ∈ store.events σ, e.globalPosition < d.2

variable {store} {σ σ' σ'' : S} {commit : Commit V P}

lemma Quiet.trans (h : store.Quiet σ σ') (h' : store.Quiet σ' σ'') : store.Quiet σ σ'' :=
  ⟨h'.1.trans h.1, h'.2.trans h.2⟩

lemma Quiet.joins (h : store.Quiet σ σ') (h' : store.Joins commit σ' σ'') :
    store.Joins commit σ σ'' := by
  obtain ⟨hevents, houtbox⟩ := h
  exact ⟨⟨by rw [h'.events, hevents], by rw [h'.outbox, houtbox]⟩, hevents ▸ h'.above⟩

lemma Joins.quiet (h : store.Joins commit σ σ') (h' : store.Quiet σ' σ'') :
    store.Joins commit σ σ'' := by
  obtain ⟨hevents, houtbox⟩ := h'
  exact ⟨⟨hevents.trans h.events, houtbox.trans h.outbox⟩, h.above⟩

lemma records_nil : Records ([] : List (AppendRequest V P)) [] [] [] :=
  ⟨.nil, rfl, rfl, .nil⟩

/-- A commit joins what its request asked for. -/
lemma Records.snoc {requests : List (AppendRequest V P)} {commits : List (Commit V P)}
    {req : AppendRequest V P}
    (h : Records requests commits (store.events σ) (store.outbox σ)) (hreq : req.Commits commit)
    (hjoins : store.Joins commit σ σ') :
    Records (requests ++ [req]) (commits ++ [commit]) (store.events σ') (store.outbox σ') where
  requests := List.rel_append h.requests (.cons hreq .nil)
  events_eq := by rw [hjoins.events, h.events_eq, List.map_append, List.map_singleton]
  outbox_eq := by
    rw [hjoins.outbox, h.outbox_eq]
    simp only [outboxCommits, List.filter_append, List.map_append]
    cases hk : commit.kind
    · simp [Commit.entries, hk]
    · simp [Commit.entries, hk]
  ascending := by
    rw [hjoins.events, List.map_append, List.pairwise_append]
    refine ⟨h.ascending, List.pairwise_singleton _ _, ?_⟩
    simpa using hjoins.above

/-- The positions of the entries ascend as well. -/
lemma Records.outbox_ascending {requests : List (AppendRequest V P)} {commits : List (Commit V P)}
    {events : List (EventEnvelope V P)} {outbox : List (OutboxEntry P)}
    (h : Records requests commits events outbox) :
    (outbox.map OutboxEntry.globalPosition).Pairwise (· < ·) := by
  have hall := h.ascending
  rw [h.events_eq, List.map_map] at hall
  rw [h.outbox_eq, List.map_map]
  exact hall.sublist (List.filter_sublist.map _)

/-! ### What a run leaves -/

namespace Laws

variable {Inv : S → Prop} {calls : S → ℕ → Call V P} {req : AppendRequest V P} {c : ℕ} {step : C}
  {steps : List C} {result : Except EventStoreError (EventEnvelope V P)}

/-- The step that begins a call. -/
lemma begins (h : store.Laws Inv calls) (hinv : Inv σ)
    (hs : store.call σ c (store.invoke req) = some σ') :
    store.Works calls req c σ' ∧ store.Quiet σ σ' := by
  obtain ⟨hcall, hquiet⟩ := h.invoke hinv hs
  exact ⟨⟨by simp [hcall, Call.Serves], by simp [hcall, Call.draft]⟩, hquiet⟩

/-- A step of a call that has returned. -/
lemma done (h : store.Laws Inv calls) (hinv : Inv σ) (hdone : calls σ c = .returned result)
    (hs : store.call σ c step = some σ') :
    store.isCommit step = false ∧ calls σ' c = .returned result ∧ store.Quiet σ σ' := by
  obtain ⟨request, committing, hmoves⟩ := h.moves hs
  rcases h.writes hinv hs with ⟨hcommit, hquiet⟩ | ⟨-, -, commit, hready, -⟩
  · exact ⟨hcommit, (hmoves.of_returned hdone).1, hquiet⟩
  · exact absurd hdone (hready.ne_returned _)

/-- A draft is kept, given up or drawn above all committed positions. -/
lemma above (h : store.Laws Inv calls) (hinv : Inv σ) (hworks : store.Works calls req c σ)
    (hs : store.call σ c step = some σ') {d : String × Int} (hd : (calls σ' c).draft = some d) :
    ∀ e ∈ store.events σ, e.globalPosition < d.2 := by
  obtain ⟨request, committing, hmoves⟩ := h.moves hs
  rcases hmoves.draft_cases with hkept | hnone | ⟨r, v, g, hversioned, hpositioned⟩
  · exact hworks.above d (hkept ▸ hd)
  · rw [hnone] at hd
    cases hd
  · obtain rfl : (r.streamId, g) = d := by simpa [hpositioned, Call.draft] using hd
    exact h.draws hinv hs hversioned hpositioned

/-- A step of a call that is at work. -/
lemma works (h : store.Laws Inv calls) (hinv : Inv σ) (hworks : store.Works calls req c σ)
    (hs : store.call σ c step = some σ') :
    (store.isCommit step = false ∧ store.Works calls req c σ' ∧ store.Quiet σ σ') ∨
      (store.isCommit step = true ∧ (∃ result, calls σ' c = .returned result) ∧
        ∃ commit, req.Commits commit ∧ store.Joins commit σ σ') := by
  obtain ⟨request, committing, hmoves⟩ := h.moves hs
  rcases h.writes hinv hs with ⟨hcommit, hquiet⟩ | ⟨hcommit, hdone, commit, hready, hstores⟩
  · refine .inl ⟨hcommit, ⟨hmoves.serves hworks.serves, fun d hd => ?_⟩, hquiet⟩
    rw [hquiet.1]
    exact h.above hinv hworks hs hd
  · exact .inr ⟨hcommit, hdone, commit, hworks.serves.commits hready, hstores,
      hworks.above _ hready.draft⟩

/-- A call that has returned leaves nothing more. -/
lemma run_done (h : store.Laws Inv calls) (hinv : Inv σ) (hdone : calls σ c = .returned result)
    (hs : (store.one c).run steps σ = some σ') :
    steps.any store.isCommit = false ∧ Inv σ' ∧ store.Quiet σ σ' := by
  induction steps generalizing σ with
  | nil =>
    obtain rfl := Option.some.inj hs
    exact ⟨rfl, hinv, rfl, rfl⟩
  | cons step steps ih =>
    obtain ⟨σ₁, hstep, hs⟩ := System.run_cons.mp hs
    obtain ⟨hcommit, hdone', hquiet⟩ := h.done hinv hdone hstep
    obtain ⟨hany, hinv', hquiet'⟩ := ih (h.next hinv hstep) hdone' hs
    exact ⟨by rw [List.any_cons, hcommit, hany, Bool.or_false], hinv', hquiet.trans hquiet'⟩

/-- A call that is at work commits once, or leaves nothing. -/
lemma run_works (h : store.Laws Inv calls) (hinv : Inv σ) (hworks : store.Works calls req c σ)
    (hs : (store.one c).run steps σ = some σ') : Inv σ' ∧
      ((steps.any store.isCommit = false ∧ store.Quiet σ σ') ∨
        (steps.any store.isCommit = true ∧ ∃ commit, req.Commits commit ∧
          store.Joins commit σ σ')) := by
  induction steps generalizing σ with
  | nil =>
    obtain rfl := Option.some.inj hs
    exact ⟨hinv, .inl ⟨rfl, rfl, rfl⟩⟩
  | cons step steps ih =>
    obtain ⟨σ₁, hstep, hs⟩ := System.run_cons.mp hs
    have hinv₁ := h.next hinv hstep
    rw [List.any_cons]
    rcases h.works hinv hworks hstep with
      ⟨hcommit, hworks', hquiet⟩ | ⟨hcommit, ⟨result, hdone⟩, commit, hreq, hjoins⟩
    · rw [hcommit, Bool.false_or]
      obtain ⟨hinv', ⟨hany, hquiet'⟩ | ⟨hany, commit, hreq, hjoins⟩⟩ := ih hinv₁ hworks' hs
      · exact ⟨hinv', .inl ⟨hany, hquiet.trans hquiet'⟩⟩
      · exact ⟨hinv', .inr ⟨hany, commit, hreq, hquiet.joins hjoins⟩⟩
    · obtain ⟨-, hinv', hquiet⟩ := h.run_done hinv₁ hdone hs
      exact ⟨hinv', .inr ⟨by rw [hcommit, Bool.true_or], commit, hreq, hjoins.quiet hquiet⟩⟩

/-- After any calls the store holds what those that have committed asked for. -/
theorem records (h : store.Laws Inv calls) {calls : List (AppendRequest V P × Bool)}
    (hcalls : store.Sequential calls σ) : Inv σ ∧
      ∃ commits, Records (committed calls) commits (store.events σ) (store.outbox σ) := by
  induction hcalls with
  | nil hinit =>
    obtain ⟨hinv, hevents, houtbox⟩ := h.init hinit
    refine ⟨hinv, [], ?_⟩
    rw [hevents, houtbox]
    exact records_nil
  | @call calls σ σ' _ req steps hs ih =>
    obtain ⟨hinv, commits, hrecords⟩ := ih
    obtain ⟨σ₁, hinvoke, hs⟩ := System.run_cons.mp hs
    obtain ⟨hworks, hquiet⟩ := h.begins hinv hinvoke
    obtain ⟨hinv', hrun⟩ := h.run_works (h.next hinv hinvoke) hworks hs
    refine ⟨hinv', ?_⟩
    rcases hrun with ⟨hany, hquiet'⟩ | ⟨hany, commit, hreq, hjoins⟩
    · obtain ⟨hevents, houtbox⟩ := hquiet.trans hquiet'
      refine ⟨commits, ?_⟩
      rw [hevents, houtbox, hany]
      simpa [committed] using hrecords
    · refine ⟨commits ++ [commit], ?_⟩
      rw [hany]
      simpa [committed] using hrecords.snoc hreq (hquiet.joins hjoins)

end Laws

end AppendStore

end EventSourcing
