import EventSourcing.Postgres.Relay
import EventSourcing.Store.PublishOrder

/-!
# The order in which one relay worker publishes

The calls of a single worker follow each other (`SingleWorker`). A `SELECT` skips the rows that
other transactions have locked. An append call has no visible entry locked and a later call has
locked nothing, so only a transaction of an earlier call can hide an entry. If each of these
has published what it still locks (`RolledBack`), the entry taken is the first of its stream
that is left, and the entries of a stream are first published in the order of their versions.
-/

namespace EventSourcing.Postgres

open Concurrency

variable {P : Type} {σ σ' : State P}

/-! ### The calls of one worker -/

def Relay.begun : Relay P → Bool
  | .idle => false
  | _ => true

def Relay.ended : Relay P → Bool
  | .crashed => true
  | .returned _ => true
  | _ => false

/-- Relay `r` is the `r`-th call of the worker: it begins when the calls before it have ended. -/
def SingleWorker (σ : State P) : Action P → Prop
  | .relay r _ => (σ.relays r).begun ∨ ∀ r' < r, (σ.relays r').ended
  | .call _ _ => True

instance (σ : State P) : DecidablePred (SingleWorker σ)
  | .relay r _ => inferInstanceAs (Decidable ((σ.relays r).begun ∨ ∀ r' < r, (σ.relays r').ended))
  | .call _ _ => isTrue trivial

/-- When a call runs its `SELECT`, the transactions of earlier calls lock no row of an entry
that has not been published. -/
def RolledBack (σ : State P) : Action P → Prop
  | .relay r .select => ∀ r' < r, ∀ o ∈ σ.db.outbox,
    σ.engine.holder (.outbox o.eventId) = some (.relay r') → o.eventId ∈ σ.published
  | _ => True

instance (σ : State P) : DecidablePred (RolledBack σ)
  | .relay r .select => inferInstanceAs (Decidable (∀ r' < r, ∀ o ∈ σ.db.outbox, _ → _))
  | .relay _ .start => isTrue trivial
  | .relay _ (.publish _) => isTrue trivial
  | .relay _ (.mark _) => isTrue trivial
  | .relay _ (.commit _) => isTrue trivial
  | .relay _ (.fail _) => isTrue trivial
  | .relay _ .crash => isTrue trivial
  | .relay _ .rollback => isTrue trivial
  | .call _ _ => isTrue trivial

/-- Every publish is that of a committed event, and the entries of its stream with a smaller
`stream_version` have been published before. -/
def State.PublishedByVersion (σ : State P) : Prop :=
  ∀ earlier id later, σ.published = earlier ++ id :: later →
    ∃ e' ∈ σ.db.events, e'.eventId = id ∧
      ∀ e ∈ σ.db.events, (∃ o ∈ σ.db.outbox, o.eventId = e.eventId) →
        e.streamId = e'.streamId → e.streamVersion < e'.streamVersion → e.eventId ∈ earlier

/-! ### What a step does to the calls of the worker -/

lemma RelayEffect.begun {r : ℕ} {step : RelayStep} (he : RelayEffect σ r step σ') :
    (σ'.relays r).begun := by
  cases he with
  | failed => simp [State.stopRelay, State.putRelay, Relay.begun]
  | crashed => simp [State.stopRelay, State.putRelay, Relay.begun]
  | ended h =>
    rcases h with h | ⟨result, h⟩
    · simp [h, Relay.begun]
    · simp [h, Relay.begun]
  | published => simp [State.putRelay, Relay.begun]
  | _ => simp [Relay.begun]

lemma RelayEffect.ended_of_ended {r : ℕ} {step : RelayStep} (he : RelayEffect σ r step σ')
    (h : (σ.relays r).ended) : (σ'.relays r).ended := by
  cases he with
  | failed context hcontext =>
    cases hrelay : σ.relays r with
    | crashed => simp [hrelay, relayErrors] at hcontext
    | returned result => simp [hrelay, relayErrors] at hcontext
    | _ => simp [hrelay, Relay.ended] at h
  | crashed hr hr' =>
    cases hrelay : σ.relays r with
    | crashed => exact absurd hrelay hr'
    | returned result => exact absurd hrelay (hr result)
    | _ => simp [hrelay, Relay.ended] at h
  | ended => simpa using h
  | started hr => simp [hr, Relay.ended] at h
  | drained hr => simp [hr, Relay.ended] at h
  | selected _ _ hr => simp [hr, Relay.ended] at h
  | published _ hr => simp [hr, Relay.ended] at h
  | refused _ hr => simp [hr, Relay.ended] at h
  | marked _ _ _ hr => simp [hr, Relay.ended] at h
  | committed _ _ hr => simp [hr, Relay.ended] at h

/-- While a call of the worker goes on, no later call has begun. -/
def State.InTurn (σ : State P) : Prop :=
  ∀ r r', r < r' → (σ.relays r).ended ∨ (σ.relays r').begun = false

lemma State.InTurn.next {a : Action P} (h : σ.InTurn) (hC : SingleWorker σ a)
    (hs : σ.next a = some σ') : σ'.InTurn := by
  cases a with
  | call c step =>
    intro r r' hr
    rw [(callEffect_of_next hs).relays_eq]
    exact h r r' hr
  | relay q step =>
    have he := relayEffect_of_next hs
    exact Delivery.InTurn.step h hC he.ended_of_ended fun r hr => he.relays_ne hr

/-! ### Who has locked an entry -/

/-- An append call locks the id of an entry only while no such entry is visible, and a relay
call that has not begun locks nothing. -/
structure State.LocksOutbox (σ : State P) : Prop where
  calls : ∀ c id, σ.engine.holder (.outbox id) = some (.call c) →
    ∀ o ∈ σ.db.outbox, o.eventId ≠ id
  relays : ∀ r k, (σ.relays r).begun = false → σ.engine.holder k ≠ some (.relay r)

/-- A call that commits an entry holds its id until then. -/
lemma holder_of_entry {c : ℕ} {commit : Commit Int32 P} (h : σ.Inv)
    (hc : (σ.calls c).ReadyToCommit commit.kind commit.envelope) {o : OutboxEntry P}
    (ho : o ∈ commit.entries) : σ.engine.holder (.outbox o.eventId) = some (.call c) := by
  have hwrites := (writes_of_ready (h.calls c) hc).2
  obtain ⟨hk, rfl⟩ := commit.eq_of_entry ho
  refine h.engine (.call c) (.insertOutbox (.ofEnvelope commit.envelope)) ?_ _ ?_
  · simp [hwrites, hk, callWrites]
  · exact List.mem_singleton_self _

/-- The ids of the outbox an append call holds after its step: those it held, and that of the
entry it has just written. -/
lemma CallEffect.holds_outbox {c : ℕ} {step : CallStep P} (he : CallEffect σ c step σ')
    {id : String} (hk : σ'.engine.holder (.outbox id) = some (.call c)) :
    (σ'.db = σ.db ∧ σ.engine.holder (.outbox id) = some (.call c)) ∨
      ∃ e, σ.calls c = .inserted .appendWithOutbox e ∧ σ'.db = σ.db ∧ id = e.eventId := by
  cases he with
  | versioned req v engine hc hv hw =>
    rcases Txns.holder_of_write hw hk with hmem | hk
    · simp [Items.targets, Write.targets] at hmem
    · exact .inl ⟨(Txns.wrote_of_write hw).db, hk⟩
  | inserted req e engine hc hs hid hw =>
    rcases Txns.holder_of_write hw hk with hmem | hk
    · simp [Items.targets, Write.targets] at hmem
    · exact .inl ⟨(Txns.wrote_of_write hw).db, hk⟩
  | outboxWritten e engine hc hw =>
    have hdb : engine.db = σ.db := (Txns.wrote_of_write hw).db
    rcases Txns.holder_of_write hw hk with hmem | hk
    · have hid : id = e.eventId := by
        simpa [Items.targets, Write.targets, OutboxEntry.ofEnvelope] using hmem
      exact .inr ⟨e, hc, hdb, hid⟩
    · exact .inl ⟨hdb, hk⟩
  | committed => exact absurd hk (Txns.holder_commit_ne _)
  | aborted => exact absurd hk (Txns.holder_rollback_ne _)
  | ended => exact absurd hk (Txns.holder_rollback_ne _)
  | _ => exact .inl ⟨rfl, hk⟩

lemma CallEffect.locksOutbox {c : ℕ} {step : CallStep P} (he : CallEffect σ c step σ')
    (h : σ.LocksOutbox) (hinv : σ.Inv) (hm : Mirrors σ.commits σ.db.events σ.db.outbox) :
    σ'.LocksOutbox where
  calls c' id hk o ho := by
    by_cases hc : c' = c
    · subst hc
      rcases he.holds_outbox hk with ⟨hdb, hk⟩ | ⟨e, hcall, hdb, rfl⟩
      · exact h.calls c' id hk o (hdb ▸ ho)
      · -- the id is new
        intro hid
        obtain ⟨e', he', hid'⟩ := hm.event_of_entry (hdb ▸ ho)
        have hinvc := hinv.calls c'
        simp only [State.CallInv, hcall] at hinvc
        have hnew := hinvc.1.idNew
        simp only [List.filter_eq_nil_iff, decide_eq_true_eq] at hnew
        exact hnew e' he' (hid'.trans hid)
    · have hk := he.takesNone (t := .call c') (by simpa using hc) _ hk
      rcases he.db_cases hinv with ⟨hdb, -⟩ | ⟨-, commit, -, hcom⟩
      · exact h.calls c' id hk o (hdb ▸ ho)
      · rw [hcom.db] at ho
        rcases List.mem_append.mp ho with ho | ho
        · exact h.calls c' id hk o ho
        · rintro rfl
          rw [holder_of_entry hinv hcom.ready ho] at hk
          exact hc (by simpa [eq_comm] using hk)
  relays r k hr := by
    rw [he.relays_eq] at hr
    exact fun hk => h.relays r k hr (he.takesNone (t := .relay r) (by simp) k hk)

lemma RelayEffect.locksOutbox {r : ℕ} {step : RelayStep} (he : RelayEffect σ r step σ')
    (h : σ.LocksOutbox) (hinv : σ.Inv) : σ'.LocksOutbox where
  calls c id hk o ho := by
    have hk := he.takesNone (t := .call c) (by simp) _ hk
    rcases he.db_cases (hinv.relays r) with hdb | ⟨o₁, now, -, hdb⟩
    · exact h.calls c id hk o (hdb ▸ ho)
    · rw [hdb] at ho
      obtain ⟨o', ho', rfl⟩ := List.mem_map.mp ho
      rw [OutboxEntry.eventId_setDispatched]
      exact h.calls c id hk o' ho'
  relays r' k hr' := by
    have hne : r' ≠ r := by
      rintro rfl
      simp [he.begun] at hr'
    rw [he.relays_ne hne] at hr'
    exact fun hk => h.relays r' k hr' (he.takesNone (t := .relay r') (by simpa using hne) k hk)

lemma locksOutbox_of_reachable (h : (system P).Reachable σ) : σ.LocksOutbox := by
  refine System.ReachBy.invariant (P := State.LocksOutbox) ?_ ?_ h
  · rintro _ rfl
    constructor
    · intro c id _ o ho
      cases ho
    · intro r k _ hk
      cases hk
  · intro σ a σ' hσ hlocks _ hs
    have hinv := inv_of_reachable hσ
    cases a with
    | call c step => exact (callEffect_of_next hs).locksOutbox hlocks hinv (mirrors_of_reachable hσ)
    | relay r step => exact (relayEffect_of_next hs).locksOutbox hlocks hinv

/-! ### The entry a call takes -/

/-- The entry a `SELECT` takes is the first of those that are pending and not locked. -/
lemma nextPending_le {r : ℕ} {o o' : OutboxEntry P} (hn : σ.nextPending r = some o)
    (ho' : o' ∈ σ.db.outbox) (hpending : o'.dispatched = false)
    (hfree : σ.engine.FreeFor (.relay r) (.outbox o'.eventId)) :
    o.globalPosition ≤ o'.globalPosition := by
  obtain ⟨rest, hrows⟩ := List.head?_eq_some_iff.mp hn
  have hsorted := List.pairwise_insertionSort
    (fun o o' : OutboxEntry P => o.globalPosition ≤ o'.globalPosition)
    (σ.db.outbox.filter fun o =>
      !o.dispatched && decide (σ.engine.FreeFor (.relay r) (.outbox o.eventId)))
  rw [hrows, List.pairwise_cons] at hsorted
  have hmem : o' ∈ o :: rest := by
    rw [← hrows, List.mem_insertionSort, List.mem_filter]
    exact ⟨ho', by simp [hpending, hfree]⟩
  rcases List.mem_cons.mp hmem with rfl | hmem
  · exact le_rfl
  · exact hsorted.1 o' hmem

/-- When call `r` takes an entry, whatever has a smaller position has been published. -/
lemma published_of_lt {r : ℕ} {o o' : OutboxEntry P} (h : (system P).Reachable σ)
    (hturn : σ.InTurn) (hC : RolledBack σ (.relay r .select)) (hr : σ.relays r = .started)
    (hn : σ.nextPending r = some o) (ho' : o' ∈ σ.db.outbox)
    (hlt : o'.globalPosition < o.globalPosition) : o'.eventId ∈ σ.published := by
  by_contra hnot
  have hpending : o'.dispatched = false := by
    by_contra hdispatched
    exact hnot (published_of_dispatched h ho' (by simpa using hdispatched))
  have hlocks := locksOutbox_of_reachable h
  have hfree : σ.engine.FreeFor (.relay r) (.outbox o'.eventId) := by
    cases hholder : σ.engine.holder (.outbox o'.eventId) with
    | none => exact .inl hholder
    | some t =>
      cases t with
      | call c => exact absurd rfl (hlocks.calls c _ hholder o' ho')
      | relay r' =>
        rcases lt_trichotomy r' r with hlt' | rfl | hlt'
        · exact absurd (hC r' hlt' o' ho' hholder) hnot
        · exact .inr hholder
        · -- a later call has not begun
          rcases hturn r r' hlt' with hended | hidle
          · simp [hr, Relay.ended] at hended
          · exact absurd hholder (hlocks.relays r' _ hidle)
  exact absurd (nextPending_le hn ho' hpending hfree) (not_le.mpr hlt)

/-! ### The entries of a stream -/

/-- A commit comes after the entries of its stream. -/
lemma position_lt_of_commit {commit : Commit Int32 P} (h : (system P).Reachable σ)
    (h' : (system P).Reachable σ') (hevents : σ'.db.events = σ.db.events ++ [commit.envelope])
    {o : OutboxEntry P} (ho : o ∈ σ.db.outbox) (hs : o.streamId = commit.envelope.streamId) :
    o.globalPosition < commit.envelope.globalPosition := by
  obtain ⟨e, hmem, -, hstream, hposition⟩ := (mirrors_of_reachable h).envelope_of_entry ho
  have hfollow := positions_follow h'
  rw [hevents, List.pairwise_append] at hfollow
  have hlast := hfollow.2.2 _ hmem _ (List.mem_singleton_self _)
  rw [← hposition]
  exact hlast.2 (hstream.trans hs)

/-- What a step makes of the outbox: entries keep their content, and a commit adds its own. -/
lemma outbox_next {a : Action P} (h : (system P).Reachable σ) (hs : σ.next a = some σ') :
    OutboxStep Int32 σ.db.outbox σ'.db.outbox := by
  have hinv := inv_of_reachable h
  have h' : (system P).Reachable σ' := h.next hs
  cases a with
  | call c step =>
    have he := callEffect_of_next hs
    rcases he.db_cases hinv with ⟨hdb, -⟩ | ⟨-, commit, -, hc⟩
    · rw [hdb]
      exact .refl
    · have hevents : σ'.db.events = σ.db.events ++ [commit.envelope] := by
        rw [hc.db]
        rfl
      have houtbox : σ'.db.outbox = σ.db.outbox ++ commit.entries := by
        rw [hc.db]
        rfl
      rw [houtbox]
      exact .commit commit fun o ho hs => position_lt_of_commit h h' hevents ho hs
  | relay r step =>
    rcases (relayEffect_of_next hs).db_cases (hinv.relays r) with hdb | ⟨o, now, -, hdb⟩
    · rw [hdb]
      exact .refl
    · rw [hdb]
      exact .setDispatched o.eventId now

/-! ### The publishes of a run -/

/-- A step publishes the entry of a call that has selected it, or nothing. -/
lemma published_next {a : Action P} (hs : σ.next a = some σ') :
    σ'.published = σ.published ∨
      ∃ r o, σ.relays r = .selected o ∧ σ'.published = σ.published ++ [o.eventId] := by
  cases a with
  | call c step =>
    cases callEffect_of_next hs <;> exact .inl rfl
  | relay r step =>
    cases relayEffect_of_next hs with
    | published o hr => exact .inr ⟨r, o, hr, rfl⟩
    | _ => exact .inl rfl

/-- Everything published is an entry of the outbox. -/
lemma entry_of_published (h : (system P).Reachable σ) :
    ∀ id ∈ σ.published, ∃ o ∈ σ.db.outbox, o.eventId = id := by
  refine System.ReachBy.invariant
    (P := fun σ : State P => ∀ id ∈ σ.published, ∃ o ∈ σ.db.outbox, o.eventId = id) ?_ ?_ h
  · rintro _ rfl id hid
    cases hid
  · intro σ a σ' hσ hentries _ hs id hid
    have hold : ∃ o ∈ σ.db.outbox, o.eventId = id := by
      rcases published_next hs with heq | ⟨r, o, hr, heq⟩
      · exact hentries id (heq ▸ hid)
      · rw [heq, List.mem_append] at hid
        rcases hid with hid | hid
        · exact hentries id hid
        · obtain rfl := List.mem_singleton.mp hid
          have hhold := relaysHold_of_reachable hσ r o (by simp [hr, Relay.entry])
          exact ⟨o, hhold.mem, rfl⟩
    obtain ⟨o, ho, rfl⟩ := hold
    exact (outbox_next hσ hs).entry ho

/-- A call that has an entry had it before the step or takes it by its `SELECT`. -/
lemma selected_next {r : ℕ} {a : Action P} {o : OutboxEntry P} (hs : σ.next a = some σ')
    (hr : σ'.relays r = .selected o) : σ.relays r = .selected o ∨
      (a = .relay r .select ∧ σ.relays r = .started ∧ σ.nextPending r = some o) := by
  cases a with
  | call c step => exact .inl (by rw [← hr, (callEffect_of_next hs).relays_eq])
  | relay q step =>
    by_cases hq : r = q
    · subst hq
      cases relayEffect_of_next hs with
      | selected o' engine hstarted hn =>
        obtain rfl : o' = o := by simpa using hr
        exact .inr ⟨rfl, hstarted, hn⟩
      | ended => exact .inl (by simpa using hr)
      | published => simp [State.putRelay] at hr
      | failed => simp [State.stopRelay, State.putRelay] at hr
      | crashed => simp [State.stopRelay, State.putRelay] at hr
      | _ => simp at hr
    · exact .inl (by rw [← hr, (relayEffect_of_next hs).relays_ne hq])

/-- What a single worker keeps: its calls follow each other, and whatever stands before the
entry it has taken, or before one it has published, has been published. -/
structure State.InStreamOrder (σ : State P) : Prop where
  turns : σ.InTurn
  ordered : StreamOrdered σ.db.outbox (fun r o => σ.relays r = .selected o) σ.published

lemma State.InStreamOrder.next {a : Action P} (h : σ.InStreamOrder)
    (hσ : (system P).Reachable σ) (hC : SingleWorker σ a) (hC' : RolledBack σ a)
    (hs : σ.next a = some σ') : σ'.InStreamOrder := by
  refine ⟨h.turns.next hC hs, h.ordered.next (outbox_next hσ hs)
    (mirrors_of_reachable (hσ.next hs)).outbox_ids (entry_of_published hσ) ?_ ?_
    (published_next hs)⟩
  · exact fun r o hr => (relaysHold_of_reachable hσ r o (by simp [hr, Relay.entry])).mem
  · intro r o hr
    rcases selected_next hs hr with hold | ⟨rfl, hr, hn⟩
    · exact .inl hold
    · have hmem : o ∈ σ.db.outbox := by
        have hmem := (List.mem_insertionSort _).mp (List.mem_of_mem_head? hn)
        exact (List.mem_filter.mp hmem).1
      refine .inr ⟨hmem, ?_⟩
      rintro id ⟨o₁, ho₁, o₂, ho₂, rfl, hid₂, -, hlt⟩
      have hsame := List.inj_on_of_nodup_map (mirrors_of_reachable hσ).outbox_ids ho₂ hmem hid₂
      exact published_of_lt hσ h.turns hC' hr hn ho₁ (hsame ▸ hlt)

/-- The invariant holds in every state of every run of a single worker. -/
theorem inStreamOrder_of_reachBy
    (h : (system P).ReachBy (fun σ a => SingleWorker σ a ∧ RolledBack σ a) σ) :
    σ.InStreamOrder := by
  refine System.ReachBy.invariant (P := State.InStreamOrder) ?_ ?_ h
  · rintro _ rfl
    refine ⟨fun r r' _ => .inr rfl, fun r o hr => ?_, Delivery.inOrder_nil⟩
    cases hr
  · exact fun σ a σ' hσ hinv hC hs => hinv.next hσ.reachable hC.1 hC.2 hs

/-! ### Every run -/

/-- In every run of a single worker that never runs its `SELECT` while the transaction of an
earlier call still locks an entry that is not published, the entries of each stream are first
published in the order of their versions, and none is skipped. -/
theorem published_by_version
    (h : (system P).ReachBy (fun σ a => SingleWorker σ a ∧ RolledBack σ a) σ) :
    σ.PublishedByVersion := by
  intro earlier id later heq
  have hσ := h.reachable
  exact (inStreamOrder_of_reachBy h).ordered.by_version (mirrors_of_reachable hσ)
    (fun _ he _ he' hs hv => position_lt_of_version_lt hσ he he' hs hv) (entry_of_published hσ) heq

/-- Two events of `order-1` and one of `order-2` whose position commits before a smaller one. -/
def appendsRun : List (Action ℕ) :=
  let req (s : String) : AppendRequest ℕ := ⟨.appendWithOutbox, s, "OrderPlaced", 1, some 0⟩
  [.call 0 (.invoke (req "order-1")), .call 0 .advanceVersion, .call 0 (.drawPosition 1),
    .call 1 (.invoke (req "order-2")), .call 1 .advanceVersion, .call 1 (.drawPosition 2),
    .call 1 (.insertEvent "e1" "t"), .call 1 .insertOutbox, .call 1 (.commit true),
    .call 0 (.insertEvent "e0" "t"), .call 0 .insertOutbox, .call 0 (.commit true),
    .call 2 (.invoke (req "order-1")), .call 2 .advanceVersion, .call 2 (.drawPosition 3),
    .call 2 (.insertEvent "e2" "t"), .call 2 .insertOutbox, .call 2 (.commit true)]

/-- A call of the worker that publishes the entry it takes. -/
def relayCall (r : ℕ) : List (Action ℕ) :=
  [.relay r .start, .relay r .select, .relay r (.publish true), .relay r (.mark "t"),
    .relay r (.commit true)]

/-- The publish of the first entry of `order-1` fails, and its transaction is rolled back
before the next call runs its `SELECT`. -/
def retriedRun : List (Action ℕ) :=
  appendsRun ++ [.relay 0 .start, .relay 0 .select, .relay 0 (.publish false),
    .relay 0 .rollback] ++ relayCall 1 ++ relayCall 2 ++ relayCall 3

/-- The next calls run while the transaction of the failed publish is still open. -/
def skippedRun : List (Action ℕ) :=
  appendsRun ++ [.relay 0 .start, .relay 0 .select, .relay 0 (.publish false)] ++
    relayCall 1 ++ relayCall 2

theorem published_by_version_retried :
    let σ := (system ℕ).after retriedRun .initial
    σ.published = ["e0", "e1", "e2"] ∧ σ.PublishedByVersion := by
  have h := published_by_version (P := ℕ)
    (System.reachBy_after retriedRun init_initial (by decide) (by decide))
  exact ⟨by decide, h⟩

/-- The lock of a failed call hides the entry it did not publish, and the next entry of the
stream is published first. -/
theorem published_by_version_fails :
    ¬ ∀ σ : State ℕ, (system ℕ).ReachBy SingleWorker σ → σ.PublishedByVersion := by
  intro hclaim
  have hreach := System.reachBy_after (C := SingleWorker) skippedRun init_initial
    (by decide) (by decide)
  have hpublished : ((system ℕ).after skippedRun .initial).published = ["e1", "e2"] := by decide
  obtain ⟨e', he', hid, hbefore⟩ := hclaim _ hreach ["e1"] "e2" [] hpublished
  have hskipped : ∀ e' ∈ ((system ℕ).after skippedRun .initial).db.events, e'.eventId = "e2" →
      ∃ e ∈ ((system ℕ).after skippedRun .initial).db.events,
        (∃ o ∈ ((system ℕ).after skippedRun .initial).db.outbox, o.eventId = e.eventId) ∧
        e.streamId = e'.streamId ∧ e.streamVersion < e'.streamVersion ∧
        e.eventId ∉ ["e1"] := by decide
  obtain ⟨e, he, ho, hs, hv, hnot⟩ := hskipped e' he' hid
  exact hnot (hbefore e he ho hs hv)

end EventSourcing.Postgres
