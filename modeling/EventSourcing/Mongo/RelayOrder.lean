import EventSourcing.Mongo.RelayLoop
import EventSourcing.Store.PublishOrder

/-!
# The order in which one relay publishes

`find_one` without a sort may answer with any pending entry. The calls of a single relay follow
each other (`SingleRelay`), so the entry a call has found stays pending until the call marks it,
and what is committed in between comes after it. The entry is then the oldest one if and only if
nothing else was pending when it was found; for the order of a stream it is enough that no other
entry of the stream was.
-/

namespace EventSourcing.Mongo

open Concurrency

variable {P : Type} {σ σ' : State P}

/-! ### The calls of one relay -/

def Relay.begun : Relay P → Bool
  | .idle => false
  | _ => true

def Relay.ended : Relay P → Bool
  | .returned _ => true
  | _ => false

/-- Relay call `r` begins when the calls before it have ended. -/
def SingleRelay (σ : State P) : Action P → Prop
  | .relay r _ => (σ.relays r).begun ∨ ∀ r' < r, (σ.relays r').ended
  | .call _ _ => True

instance (σ : State P) : DecidablePred (SingleRelay σ)
  | .relay r _ => inferInstanceAs (Decidable ((σ.relays r).begun ∨ ∀ r' < r, (σ.relays r').ended))
  | .call _ _ => isTrue trivial

/-- The committed entries that are not dispatched. -/
def State.pending (σ : State P) : List (OutboxEntry P) := σ.db.outbox.filter (!·.dispatched)

/-- When `find_one` runs, at most one entry is pending. -/
def FindsOne (σ : State P) : Action P → Prop
  | .relay _ (.find _) => σ.pending.length ≤ 1
  | _ => True

/-- When `find_one` runs, at most one entry of each stream is pending. -/
def FindsOneOfStream (σ : State P) : Action P → Prop
  | .relay _ (.find _) => ∀ o ∈ σ.pending, ∀ o' ∈ σ.pending, o.streamId = o'.streamId →
    o.eventId = o'.eventId
  | _ => True

instance (σ : State P) : DecidablePred (FindsOne σ)
  | .relay _ (.find _) => inferInstanceAs (Decidable (σ.pending.length ≤ 1))
  | .relay _ (.publish _) => isTrue trivial
  | .relay _ (.mark _ _) => isTrue trivial
  | .relay _ .fail => isTrue trivial
  | .call _ _ => isTrue trivial

/-- Every entry `find_one` may answer call `r` with is the oldest one pending. -/
def FindsOldest (σ : State P) (r : ℕ) : Prop :=
  ∀ id σ' o, σ.next (.relay r (.find (some id))) = some σ' → σ'.relays r = .found o →
    ∀ o' ∈ σ.pending, o.globalPosition ≤ o'.globalPosition

/-- A publish takes the oldest of the entries pending at that moment. -/
def PublishesOldest (σ : State P) : Prop :=
  ∀ r σ', σ.next (.relay r (.publish true)) = some σ' → ∃ o ∈ σ.pending,
    σ'.published = σ.published ++ [o] ∧ ∀ o' ∈ σ.pending, o.globalPosition ≤ o'.globalPosition

/-- Every publish is that of a committed event, and the entries of its stream with a smaller
`stream_version` have been published before. -/
def State.PublishedByVersion (σ : State P) : Prop :=
  ∀ earlier o later, σ.published = earlier ++ o :: later →
    ∃ e' ∈ σ.db.events, e'.eventId = o.eventId ∧
      ∀ e ∈ σ.db.events, (∃ o ∈ σ.db.outbox, o.eventId = e.eventId) →
        e.streamId = e'.streamId → e.streamVersion < e'.streamVersion →
          e.eventId ∈ earlier.map (·.eventId)

/-! ### What `find_one` may answer with -/

lemma mem_pending {o : OutboxEntry P} :
    o ∈ σ.pending ↔ o ∈ σ.db.outbox ∧ o.dispatched = false := by
  simp [State.pending]

/-- `find_one` answers with any of the pending entries. -/
lemma find_iff {r : ℕ} {o : OutboxEntry P} (hids : (σ.db.outbox.map (·.eventId)).Nodup)
    (hr : σ.relays r = .idle) :
    (∃ id σ', σ.next (.relay r (.find (some id))) = some σ' ∧ σ'.relays r = .found o) ↔
      o ∈ σ.pending := by
  constructor
  · rintro ⟨id, σ', hs, hfound⟩
    have hs : σ.relayNext r (.find (some id)) = some σ' := hs
    simp only [State.relayNext, hr, Option.map_eq_some_iff] at hs
    obtain ⟨o', ho', rfl⟩ := hs
    obtain rfl : o' = o := by simpa using hfound
    have hanswer := List.find?_some ho'
    simp only [Bool.and_eq_true, Bool.not_eq_true'] at hanswer
    exact mem_pending.mpr ⟨List.mem_of_find?_eq_some ho', hanswer.2⟩
  · intro ho
    obtain ⟨hmem, hpending⟩ := mem_pending.mp ho
    have hanswer : (σ.db.outbox.find? fun o' => o'.eventId = o.eventId && !o'.dispatched)
        = some o := by
      cases hfind : σ.db.outbox.find? fun o' => o'.eventId = o.eventId && !o'.dispatched with
      | none =>
        have hnone := List.find?_eq_none.mp hfind o hmem
        simp [hpending] at hnone
      | some o' =>
        have hid := List.find?_some hfind
        simp only [Bool.and_eq_true, decide_eq_true_eq] at hid
        rw [List.inj_on_of_nodup_map hids (List.mem_of_find?_eq_some hfind) hmem hid.1]
    refine ⟨o.eventId, σ.putRelay r (.found o), ?_, by simp⟩
    show σ.relayNext r (.find (some o.eventId)) = some _
    simp only [State.relayNext, hr, hanswer, Option.map_some]

/-- Entries of one position are one entry. -/
lemma eq_of_position (h : (system P).Reachable σ) {o o' : OutboxEntry P} (ho : o ∈ σ.db.outbox)
    (ho' : o' ∈ σ.db.outbox) (hposition : o.globalPosition = o'.globalPosition) : o = o' := by
  have hm := mirrors_of_reachable h
  obtain ⟨e, he, hid, -, hg⟩ := hm.envelope_of_entry ho
  obtain ⟨e', he', hid', -, hg'⟩ := hm.envelope_of_entry ho'
  have hkeys : (σ.db.events.map (·.globalPosition)).Nodup :=
    (positions_ascending (inv_of_reachable h)).imp ne_of_lt
  obtain rfl := List.inj_on_of_nodup_map hkeys he he' (hg.trans (hposition.trans hg'.symm))
  exact List.inj_on_of_nodup_map hm.outbox_ids ho ho' (hid.symm.trans hid')

/-- A list without duplicates has at most one element if all its elements are equal. -/
lemma length_le_one_iff {α : Type} {l : List α} (h : l.Nodup) :
    l.length ≤ 1 ↔ ∀ a ∈ l, ∀ b ∈ l, a = b := by
  match l with
  | [] => simp
  | [a] => simp
  | a :: b :: rest =>
    constructor
    · intro hlength
      simp at hlength
    · intro heq
      have hab : a = b := heq a (by simp) b (by simp)
      rw [List.nodup_cons] at h
      exact absurd (by simp [hab]) h.1

lemma pending_nodup (h : (system P).Reachable σ) : σ.pending.Nodup :=
  (List.Nodup.of_map _ (mirrors_of_reachable h).outbox_ids).filter _

/-- Whatever it answers with is the oldest pending entry if and only if it has no choice. -/
lemma findsOldest_iff (h : (system P).Reachable σ) {r : ℕ} (hr : σ.relays r = .idle) :
    FindsOldest σ r ↔ σ.pending.length ≤ 1 := by
  have hids := (mirrors_of_reachable h).outbox_ids
  rw [length_le_one_iff (pending_nodup h)]
  constructor
  · intro holdest o ho o' ho'
    have hle : ∀ o ∈ σ.pending, ∀ o' ∈ σ.pending, o.globalPosition ≤ o'.globalPosition := by
      intro o ho
      obtain ⟨id, σ', hs, hfound⟩ := (find_iff hids hr).mpr ho
      exact holdest id σ' o hs hfound
    exact eq_of_position h (mem_pending.mp ho).1 (mem_pending.mp ho').1
      (le_antisymm (hle o ho o' ho') (hle o' ho' o ho))
  · intro hone id σ' o hs hfound o' ho'
    have ho : o ∈ σ.pending := (find_iff hids hr).mp ⟨id, σ', hs, hfound⟩
    rw [hone o ho o' ho']

/-! ### What a step does -/

/-- While a relay call goes on, no later call has begun. -/
def State.InTurn (σ : State P) : Prop :=
  ∀ r r', r < r' → (σ.relays r).ended ∨ (σ.relays r').begun = false

lemma ended_of_next {r : ℕ} {step : RelayStep} (hs : σ.relayNext r step = some σ') :
    (σ.relays r).ended = false := by
  cases hr : σ.relays r with
  | returned result => cases step <;> simp [State.relayNext, hr] at hs
  | _ => rfl

lemma State.InTurn.next {a : Action P} (h : σ.InTurn) (hC : SingleRelay σ a)
    (hs : σ.next a = some σ') : σ'.InTurn := by
  cases a with
  | call c step =>
    intro r r' hr
    rw [(callEffect_of_next hs).relays_eq]
    exact h r r' hr
  | relay q step =>
    refine Delivery.InTurn.step h hC ?_ fun r hr => (relayEffect_of_next hs).relays_ne hr
    rw [ended_of_next hs]
    exact fun hended => absurd hended (by simp)

/-- A commit comes after all the entries there are. -/
lemma position_lt_of_commit {c : ℕ} {commit : Commit UInt32 P} (h : (system P).Reachable σ)
    (h' : (system P).Reachable σ') (hc : Committed σ c commit σ') {o : OutboxEntry P}
    (ho : o ∈ σ.db.outbox) : o.globalPosition < commit.envelope.globalPosition := by
  obtain ⟨e, hmem, -, -, hposition⟩ := (mirrors_of_reachable h).envelope_of_entry ho
  have hevents : σ'.db.events = σ.db.events ++ [commit.envelope] := by
    rw [hc.db]
    rfl
  have hascends := positions_ascending (inv_of_reachable h')
  rw [hevents, List.map_append, List.pairwise_append] at hascends
  rw [← hposition]
  exact hascends.2.2 _ (List.mem_map_of_mem hmem) _ (List.mem_singleton_self _)

/-- What a step makes of the outbox: entries keep their content, and a commit adds its own. -/
lemma outbox_next {a : Action P} (h : (system P).Reachable σ) (hs : σ.next a = some σ') :
    OutboxStep UInt32 σ.db.outbox σ'.db.outbox := by
  have hinv := inv_of_reachable h
  have h' : (system P).Reachable σ' := h.next hs
  cases a with
  | call c step =>
    rcases (callEffect_of_next hs).db_cases hinv with ⟨hdb, -⟩ | ⟨-, commit, -, hc⟩
    · rw [hdb]
      exact .refl
    · have houtbox : σ'.db.outbox = σ.db.outbox ++ commit.entries := by
        rw [hc.db]
        rfl
      rw [houtbox]
      exact .commit commit fun o ho _ => position_lt_of_commit h h' hc ho
  | relay r step =>
    rcases (relayEffect_of_next hs).db_cases hinv with hdb | ⟨o, now, -, hdb⟩
    · rw [hdb]
      exact .refl
    · rw [hdb]
      exact .setDispatched o.eventId now

/-- A call that has found an entry had it before the step, or finds it by the step. -/
lemma found_next {r : ℕ} {a : Action P} {o : OutboxEntry P} (hs : σ.next a = some σ')
    (hr : σ'.relays r = .found o) : σ.relays r = .found o ∨
      ((∃ eventId, a = .relay r (.find eventId)) ∧ o ∈ σ.pending ∧ σ'.db = σ.db) := by
  cases a with
  | call c step => exact .inl (by rw [← hr, (callEffect_of_next hs).relays_eq])
  | relay q step =>
    by_cases hq : r = q
    · subst hq
      cases relayEffect_of_next hs with
      | found o' hidle ho hd =>
        obtain rfl : o' = o := by simpa using hr
        refine .inr ⟨?_, mem_pending.mpr ⟨ho, hd⟩, rfl⟩
        cases step with
        | find eventId => exact ⟨eventId, rfl⟩
        | publish succeeds => simp [State.next, State.relayNext, hidle] at hs
        | mark now acknowledged => simp [State.next, State.relayNext, hidle] at hs
        | fail =>
          have heq := congrArg (Option.map fun τ : State P => τ.relays r) hs
          simp [State.next, State.relayNext, hidle, State.putRelay] at heq
      | published => simp [State.putRelay] at hr
      | _ => simp [State.putRelay] at hr
    · exact .inl (by rw [← hr, (relayEffect_of_next hs).relays_ne hq])

/-- A step publishes the entry that a call has found, or nothing. -/
lemma published_next {a : Action P} (hs : σ.next a = some σ') :
    σ'.published = σ.published ∨
      ∃ r o, σ.relays r = .found o ∧ σ'.published = σ.published ++ [o] := by
  cases a with
  | call c step =>
    cases callEffect_of_next hs <;> exact .inl rfl
  | relay r step =>
    cases relayEffect_of_next hs with
    | published o hr => exact .inr ⟨r, o, hr, rfl⟩
    | _ => exact .inl rfl

/-- While a call of a single relay holds an entry it has found, nothing is marked. -/
lemma db_of_found {a : Action P} {r : ℕ} {o : OutboxEntry P} (h : (system P).Reachable σ)
    (hturn : σ.InTurn) (hr : σ.relays r = .found o) (hs : σ.next a = some σ') :
    σ'.db = σ.db ∨ ∃ c commit, Committed σ c commit σ' := by
  have hinv := inv_of_reachable h
  cases a with
  | call c step =>
    rcases (callEffect_of_next hs).db_cases hinv with ⟨hdb, -⟩ | ⟨-, commit, -, hc⟩
    · exact .inl hdb
    · exact .inr ⟨c, commit, hc⟩
  | relay q step =>
    rcases (relayEffect_of_next hs).db_cases hinv with hdb | ⟨o', now, hq, -⟩
    · exact .inl hdb
    · have heq : r = q := Delivery.InTurn.unique hturn (by simp [hr, Relay.begun])
        (by simp [hr, Relay.ended]) (by simp [hq, Relay.begun]) (by simp [hq, Relay.ended])
      subst heq
      rw [hr] at hq
      cases hq

lemma pending_commit {c : ℕ} {commit : Commit UInt32 P} (hc : Committed σ c commit σ') :
    σ'.pending = σ.pending ++ commit.entries := by
  have houtbox : σ'.db.outbox = σ.db.outbox ++ commit.entries := by
    rw [hc.db]
    rfl
  have hnew : commit.entries.filter (!·.dispatched) = commit.entries :=
    List.filter_eq_self.mpr fun o ho => by simp [commit.entries_pending ho]
  rw [State.pending, houtbox, List.filter_append, hnew]
  rfl

/-! ### The entry a call has found -/

/-- The calls of a single relay follow each other, and the entry found is pending. -/
structure State.Alone (σ : State P) : Prop where
  turns : σ.InTurn
  pending : ∀ r o, σ.relays r = .found o → o ∈ σ.pending

lemma alone_of_reachBy (h : (system P).ReachBy SingleRelay σ) : σ.Alone := by
  refine System.ReachBy.invariant (P := State.Alone) ?_ ?_ h
  · rintro _ rfl
    refine ⟨fun r r' _ => .inr rfl, fun r o hr => ?_⟩
    cases hr
  · intro σ a σ' hσ halone hC hs
    refine ⟨halone.turns.next hC hs, fun r o hr => ?_⟩
    rcases found_next hs hr with hold | ⟨-, ho, hdb⟩
    · have ho := halone.pending r o hold
      rcases db_of_found hσ.reachable halone.turns hold hs with hdb | ⟨c, commit, hc⟩
      · rwa [State.pending, hdb]
      · rw [pending_commit hc]
        exact List.mem_append_left _ ho
    · rwa [State.pending, hdb]

/-- The entry a call has found is the oldest one pending. -/
def State.TakesOldest (σ : State P) : Prop :=
  ∀ r o, σ.relays r = .found o → o ∈ σ.pending ∧
    ∀ o' ∈ σ.pending, o.globalPosition ≤ o'.globalPosition

lemma State.TakesOldest.next {a : Action P} (h : σ.TakesOldest)
    (hσ : (system P).ReachBy SingleRelay σ) (hC : SingleRelay σ a) (hC' : FindsOne σ a)
    (hs : σ.next a = some σ') : σ'.TakesOldest := by
  have halone' := alone_of_reachBy (hσ.step hC hs)
  intro r o hr
  refine ⟨halone'.pending r o hr, fun o' ho' => ?_⟩
  rcases found_next hs hr with hold | ⟨⟨eventId, rfl⟩, ho, hdb⟩
  · obtain ⟨ho, holdest⟩ := h r o hold
    rcases db_of_found hσ.reachable (alone_of_reachBy hσ).turns hold hs with
      hdb | ⟨c, commit, hc⟩
    · rw [State.pending, hdb] at ho'
      exact holdest o' ho'
    · rw [pending_commit hc] at ho'
      rcases List.mem_append.mp ho' with ho' | ho'
      · exact holdest o' ho'
      · obtain ⟨-, rfl⟩ := commit.eq_of_entry ho'
        exact (position_lt_of_commit hσ.reachable (hσ.reachable.next hs) hc
          (mem_pending.mp ho).1).le
  · rw [State.pending, hdb] at ho'
    rw [(length_le_one_iff (pending_nodup hσ.reachable)).mp hC' o ho o' ho']

lemma takesOldest_of_reachBy
    (h : (system P).ReachBy (fun σ a => SingleRelay σ a ∧ FindsOne σ a) σ) : σ.TakesOldest := by
  refine System.ReachBy.invariant (P := State.TakesOldest) ?_ ?_ h
  · rintro _ rfl r o hr
    cases hr
  · intro σ a σ' hσ holdest hC hs
    exact holdest.next (hσ.imp fun _ _ _ hC => hC.1) hC.1 hC.2 hs

/-! ### The publishes of a run -/

/-- What is published and what is dispatched: a relay that is past its publish has published, a
dispatched entry has been published, and everything published is in the outbox. -/
structure State.Accounted (σ : State P) : Prop where
  delivered : ∀ r o, (σ.relays r).delivered = some o → o.eventId ∈ σ.publishedIds
  dispatched : ∀ o ∈ σ.db.outbox, o.dispatched = true → o.eventId ∈ σ.publishedIds
  entries : ∀ id ∈ σ.publishedIds, ∃ o ∈ σ.db.outbox, o.eventId = id
  found : ∀ r o, σ.relays r = .found o → ∃ o' ∈ σ.db.outbox, o'.eventId = o.eventId

lemma publishedIds_subset {a : Action P} (hs : σ.next a = some σ') :
    σ.publishedIds ⊆ σ'.publishedIds := by
  rcases published_next hs with heq | ⟨r, o, -, heq⟩
  · rw [State.publishedIds, State.publishedIds, heq]
    exact List.Subset.refl _
  · rw [State.publishedIds, State.publishedIds, heq, List.map_append]
    exact List.subset_append_left _ _

/-- A relay is past its publish by this step or has been so before. -/
lemma delivered_next {a : Action P} {r : ℕ} {o : OutboxEntry P} (hs : σ.next a = some σ')
    (hr : (σ'.relays r).delivered = some o) :
    (σ.relays r).delivered = some o ∨ o ∈ σ'.published := by
  cases a with
  | call c step => exact .inl (by rwa [(callEffect_of_next hs).relays_eq] at hr)
  | relay q step =>
    by_cases hq : r = q
    · subst hq
      cases relayEffect_of_next hs with
      | published o' hfound =>
        obtain rfl : o' = o := by simpa [State.putRelay, Relay.delivered] using hr
        exact .inr (by simp)
      | _ => simp [State.putRelay, Relay.delivered] at hr
    · exact .inl (by rwa [(relayEffect_of_next hs).relays_ne hq] at hr)

/-- An entry is dispatched by this step, which marks what a relay has published, or has been so
before. -/
lemma dispatched_next {a : Action P} {o : OutboxEntry P} (h : (system P).Reachable σ)
    (hs : σ.next a = some σ') (ho : o ∈ σ'.db.outbox) (hdispatched : o.dispatched = true) :
    (∃ o' ∈ σ.db.outbox, o'.eventId = o.eventId ∧ o'.dispatched = true) ∨
      ∃ r o', (σ.relays r).delivered = some o' ∧ o'.eventId = o.eventId := by
  have hinv := inv_of_reachable h
  cases a with
  | call c step =>
    rcases (callEffect_of_next hs).db_cases hinv with ⟨hdb, -⟩ | ⟨-, commit, -, hc⟩
    · exact .inl ⟨o, hdb ▸ ho, rfl, hdispatched⟩
    · rw [hc.db] at ho
      rcases List.mem_append.mp ho with ho | ho
      · exact .inl ⟨o, ho, rfl, hdispatched⟩
      · rw [commit.entries_pending ho] at hdispatched
        cases hdispatched
  | relay r step =>
    rcases (relayEffect_of_next hs).db_cases hinv with hdb | ⟨o', now, hr, hdb⟩
    · exact .inl ⟨o, hdb ▸ ho, rfl, hdispatched⟩
    · rw [hdb] at ho
      obtain ⟨o₀, ho₀, rfl⟩ := List.mem_map.mp ho
      rw [OutboxEntry.eventId_setDispatched]
      by_cases hid : o₀.eventId = o'.eventId
      · exact .inr ⟨r, o', by simp [hr, Relay.delivered], hid.symm⟩
      · refine .inl ⟨o₀, ho₀, rfl, ?_⟩
        simpa [OutboxEntry.setDispatched, hid] using hdispatched

lemma State.Accounted.next {a : Action P} (h : σ.Accounted) (hσ : (system P).Reachable σ)
    (hs : σ.next a = some σ') : σ'.Accounted where
  delivered r o hr := by
    rcases delivered_next hs hr with hold | hnew
    · exact publishedIds_subset hs (h.delivered r o hold)
    · exact List.mem_map_of_mem hnew
  dispatched o ho hdispatched := by
    refine publishedIds_subset hs ?_
    rcases dispatched_next hσ hs ho hdispatched with ⟨o', ho', hid, hold⟩ | ⟨r, o', hr, hid⟩
    · exact hid ▸ h.dispatched o' ho' hold
    · exact hid ▸ h.delivered r o' hr
  entries id hid := by
    have hold : ∃ o ∈ σ.db.outbox, o.eventId = id := by
      rcases published_next hs with heq | ⟨r, o, hr, heq⟩
      · rw [State.publishedIds, heq] at hid
        exact h.entries id hid
      · rw [State.publishedIds, heq, List.map_append, List.mem_append] at hid
        rcases hid with hid | hid
        · exact h.entries id hid
        · obtain rfl : id = o.eventId := by simpa using hid
          exact h.found r o hr
    obtain ⟨o, ho, rfl⟩ := hold
    exact (outbox_next hσ hs).entry ho
  found r o hr := by
    rcases found_next hs hr with hold | ⟨-, ho, hdb⟩
    · obtain ⟨o', ho', hid⟩ := h.found r o hold
      rw [← hid]
      exact (outbox_next hσ hs).entry ho'
    · exact ⟨o, hdb ▸ (mem_pending.mp ho).1, rfl⟩

lemma accounted_of_reachable (h : (system P).Reachable σ) : σ.Accounted := by
  refine System.ReachBy.invariant (P := State.Accounted) ?_ ?_ h
  · rintro _ rfl
    refine ⟨fun r o hr => ?_, fun o ho => ?_, fun id hid => ?_, fun r o hr => ?_⟩
    · cases hr
    · rw [State.initial_db, Database.fresh_outbox] at ho
      cases ho
    · cases hid
    · cases hr
  · exact fun σ a σ' hσ hacc _ hs => hacc.next hσ hs

/-- Whatever stands before the entry a call has found, or before one it has published, has been
published. -/
abbrev State.InStreamOrder (σ : State P) : Prop :=
  StreamOrdered σ.db.outbox (fun r o => σ.relays r = .found o) σ.publishedIds

/-- What stands before the only pending entry of its stream has been published. -/
lemma published_of_precedes (h : (system P).Reachable σ) {o : OutboxEntry P} (ho : o ∈ σ.pending)
    (hone : ∀ o' ∈ σ.pending, o'.streamId = o.streamId → o'.eventId = o.eventId) {id : String}
    (hp : Precedes σ.db.outbox id o.eventId) : id ∈ σ.publishedIds := by
  have hids := (mirrors_of_reachable h).outbox_ids
  obtain ⟨o₁, ho₁, o₂, ho₂, rfl, hid, hstream, hlt⟩ := hp
  obtain rfl := List.inj_on_of_nodup_map hids ho₂ (mem_pending.mp ho).1 hid
  cases hdispatched : o₁.dispatched with
  | true => exact (accounted_of_reachable h).dispatched o₁ ho₁ hdispatched
  | false =>
    have hsame := hone o₁ (mem_pending.mpr ⟨ho₁, hdispatched⟩) hstream
    obtain rfl := List.inj_on_of_nodup_map hids ho₁ ho₂ hsame
    exact absurd hlt (lt_irrefl _)

lemma State.InStreamOrder.next {a : Action P} (h : σ.InStreamOrder)
    (hσ : (system P).Reachable σ) (halone : σ.Alone) (hC : FindsOneOfStream σ a)
    (hs : σ.next a = some σ') : σ'.InStreamOrder := by
  refine StreamOrdered.next h (outbox_next hσ hs) (mirrors_of_reachable (hσ.next hs)).outbox_ids
    (accounted_of_reachable hσ).entries ?_ ?_ ?_
  · exact fun r o hr => (mem_pending.mp (halone.pending r o hr)).1
  · intro r o hr
    rcases found_next hs hr with hold | ⟨⟨eventId, rfl⟩, ho, -⟩
    · exact .inl hold
    · refine .inr ⟨(mem_pending.mp ho).1, fun id hp => published_of_precedes hσ ho ?_ hp⟩
      exact fun o' ho' hstream => hC o' ho' o ho hstream
  · rcases published_next hs with heq | ⟨r, o, hr, heq⟩
    · exact .inl (congrArg (List.map OutboxEntry.eventId) heq)
    · exact .inr ⟨r, o, hr, by rw [State.publishedIds, heq, List.map_append]; rfl⟩

lemma inStreamOrder_of_reachBy
    (h : (system P).ReachBy (fun σ a => SingleRelay σ a ∧ FindsOneOfStream σ a) σ) :
    σ.InStreamOrder := by
  refine System.ReachBy.invariant (P := State.InStreamOrder) ?_ ?_ h
  · rintro _ rfl
    refine ⟨fun r o hr => ?_, Delivery.inOrder_nil⟩
    cases hr
  · intro σ a σ' hσ horder hC hs
    have hsingle : (system P).ReachBy SingleRelay σ := hσ.imp fun _ _ _ hC => hC.1
    exact horder.next hσ.reachable (alone_of_reachBy hsingle) hC.2 hs

lemma publishedByVersion_of_reachBy
    (h : (system P).ReachBy (fun σ a => SingleRelay σ a ∧ FindsOneOfStream σ a) σ) :
    σ.PublishedByVersion := by
  intro earlier o later heq
  have hinv := inv_of_reachable h.reachable
  have hids : σ.publishedIds = earlier.map (·.eventId) ++ o.eventId :: later.map (·.eventId) := by
    simp [State.publishedIds, heq]
  refine (inStreamOrder_of_reachBy h).by_version (mirrors_of_reachable h.reachable) ?_
    (accounted_of_reachable h.reachable).entries hids
  intro e he e' he' hs hv
  exact hinv.db.streams.position_lt
    (fun s => (List.pairwise_map.mp (positions_ascending hinv)).filter _) he he' hs hv

/-! ### Every run -/

lemma State.TakesOldest.publishesOldest (h : σ.TakesOldest) : PublishesOldest σ := by
  intro r σ' hs
  have hs : σ.relayNext r (.publish true) = some σ' := hs
  simp only [State.relayNext] at hs
  split at hs
  · rename_i o hr
    obtain rfl := Option.some.inj hs
    obtain ⟨ho, holdest⟩ := h r o hr
    exact ⟨o, ho, rfl, holdest⟩
  · cases hs

lemma findsOneOfStream_of_findsOne {a : Action P} (h : (system P).Reachable σ)
    (hone : FindsOne σ a) : FindsOneOfStream σ a := by
  cases a with
  | call c step => trivial
  | relay r step =>
    cases step with
    | find eventId =>
      intro o ho o' ho' _
      rw [(length_le_one_iff (pending_nodup h)).mp hone o ho o' ho']
    | _ => trivial

/-- Every entry that `find_one` may answer with is the oldest one pending if and only if at most
one is. In runs of a single relay in which this holds whenever `find_one` runs, every publish
takes the oldest pending entry and the entries of each stream are first published in the order of
their versions; for that order it is enough that at most one entry of each stream is pending. -/
theorem relay_publishes_oldest :
    (∀ (σ : State P) (r : ℕ), (system P).Reachable σ → σ.relays r = .idle →
      (FindsOldest σ r ↔ σ.pending.length ≤ 1)) ∧
    (∀ σ : State P, (system P).ReachBy (fun σ a => SingleRelay σ a ∧ FindsOne σ a) σ →
      PublishesOldest σ ∧ σ.PublishedByVersion) ∧
    ∀ σ : State P, (system P).ReachBy (fun σ a => SingleRelay σ a ∧ FindsOneOfStream σ a) σ →
      σ.PublishedByVersion := by
  refine ⟨fun σ r h hr => findsOldest_iff h hr, fun σ h => ⟨?_, ?_⟩, fun σ h => ?_⟩
  · exact (takesOldest_of_reachBy h).publishesOldest
  · refine publishedByVersion_of_reachBy (h.imp fun σ a hσ hC => ⟨hC.1, ?_⟩)
    exact findsOneOfStream_of_findsOne hσ.reachable hC.2
  · exact publishedByVersion_of_reachBy h

/-- A second event of `order-1`. -/
def appendNextRun : List (Action ℕ) :=
  [.call 1 (.invoke ⟨.appendWithOutbox, "order-1", "OrderShipped", 1, some 1⟩),
    .call 1 .advanceVersion, .call 1 .advanceSeq, .call 1 (.insertEvent "e1" "t1"),
    .call 1 .insertOutbox, .call 1 (.commit true)]

/-- A call of the relay that publishes the entry it finds. -/
def relayCall (r : ℕ) (id : String) : List (Action ℕ) :=
  [.relay r (.find (some id)), .relay r (.publish true), .relay r (.mark "t" true)]

/-- Each event is published before the next one is appended. -/
def alternatingRun : List (Action ℕ) :=
  appendRun ++ relayCall 0 "e0" ++ appendNextRun ++ relayCall 1 "e1"

/-- `find_one` answers with the second of two pending entries. -/
def newestFoundRun : List (Action ℕ) :=
  appendRun ++ appendNextRun ++ [.relay 0 (.find (some "e1"))]

def publishedRun : List (Action ℕ) := newestFoundRun ++ [.relay 0 (.publish true)]

theorem relay_publishes_oldest_alternating :
    let σ := (system ℕ).after alternatingRun .initial
    σ.published.map (·.eventId) = ["e0", "e1"] ∧ σ.PublishedByVersion := by
  have h := System.reachBy_after (M := system ℕ)
    (C := fun σ a => SingleRelay σ a ∧ FindsOne σ a) alternatingRun init_initial
    (by decide) (by decide)
  exact ⟨by decide, (relay_publishes_oldest.2.1 _ h).2⟩

/-- The entry found is published though an older one of its stream is pending. -/
theorem relay_publishes_oldest_fails :
    (¬ ∀ σ : State ℕ, (system ℕ).ReachBy SingleRelay σ → PublishesOldest σ) ∧
      ¬ ∀ σ : State ℕ, (system ℕ).ReachBy SingleRelay σ → σ.PublishedByVersion := by
  have hfound := System.reachBy_after (M := system ℕ) (C := SingleRelay) newestFoundRun
    init_initial (by decide) (by decide)
  have hpublished := System.reachBy_after (M := system ℕ) (C := SingleRelay)
    publishedRun init_initial (by decide) (by decide)
  constructor
  · intro hclaim
    have hnext : ((system ℕ).after newestFoundRun .initial).next (.relay 0 (.publish true))
        = some ((system ℕ).after publishedRun .initial) := rfl
    obtain ⟨o, -, heq, holdest⟩ := hclaim _ hfound 0 _ hnext
    have hposition : ((system ℕ).after publishedRun .initial).published.map (·.globalPosition)
        = [1] := by decide
    have hbefore : ((system ℕ).after newestFoundRun .initial).published = [] := rfl
    rw [heq, hbefore, List.nil_append, List.map_singleton, List.cons.injEq] at hposition
    have holder : ∃ o' ∈ ((system ℕ).after newestFoundRun .initial).pending,
        o'.globalPosition = 0 := by decide
    obtain ⟨o', ho', hzero⟩ := holder
    have hle := holdest o' ho'
    rw [hzero, hposition.1] at hle
    exact absurd hle (by decide)
  · intro hclaim
    obtain ⟨e', he', hid, hbefore⟩ := hclaim _ hpublished [] _ [] rfl
    have hskipped : ∀ e' ∈ ((system ℕ).after publishedRun .initial).db.events,
        e'.eventId = "e1" →
        ∃ e ∈ ((system ℕ).after publishedRun .initial).db.events,
          (∃ o ∈ ((system ℕ).after publishedRun .initial).db.outbox, o.eventId = e.eventId) ∧
          e.streamId = e'.streamId ∧ e.streamVersion < e'.streamVersion := by decide
    obtain ⟨e, he, ho, hs, hv⟩ := hskipped e' he' hid
    exact absurd (hbefore e he ho hs hv) List.not_mem_nil

end EventSourcing.Mongo
