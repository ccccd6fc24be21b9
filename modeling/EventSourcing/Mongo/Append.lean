import EventSourcing.Mongo.Steps
import EventSourcing.Store.CommitLog

/-!
# Numbering of events in the MongoDB store

The stream counter, the global counter and the event are written one after the other by
transactions that interleave and abort anywhere. The invariant `State.Inv` ties them together:
the committed counters equal the number of committed events, and a call that has advanced a
counter holds its document, so the value it read is still the committed one when it commits.
-/

namespace EventSourcing.Mongo

open Concurrency EventLog

variable {P : Type}

/-! ### The committed state -/

/-- The counters agree with the committed events, which are numbered without gaps. -/
structure Database.Consistent (db : Database P) : Prop where
  streams : StreamsNumbered db.events
  counters : ∀ s, (db.streamVersions s).getD 0 = streamLength db.events s
  positions : PositionsNumbered db.events
  globalSeq : db.globalSeq = some (db.events.length : Int)

lemma Database.consistent_fresh : (Database.fresh : Database P).Consistent where
  streams := by
    rw [fresh_events]
    exact numbered_nil
  counters s := by simp
  positions := by
    rw [fresh_events]
    exact numbered_nil
  globalSeq := by simp

/-- The writes of an append call up to the event. -/
def eventWrites (e : EventEnvelope P) : List (Write P) :=
  [.setStreamVersion e.streamId (e.streamVersion + 1), .setGlobalSeq (e.globalPosition + 1),
    .insertEvent e]

/-- The writes of an append call. -/
def callWrites : AppendKind → EventEnvelope P → List (Write P)
  | .append, e => eventWrites e
  | .appendWithOutbox, e => eventWrites e ++ [.insertOutbox (.ofEnvelope e)]

/-- What a commit makes of the database. -/
def Database.afterCommit (db : Database P) (commit : Commit UInt32 P) : Database P :=
  { db with
    streamVersions := Function.update db.streamVersions commit.envelope.streamId
      (some (commit.envelope.streamVersion + 1))
    globalSeq := some (commit.envelope.globalPosition + 1)
    events := db.events ++ [commit.envelope]
    outbox := db.outbox ++ commit.entries }

lemma applyAll_callWrites (db : Database P) (commit : Commit UInt32 P) :
    Items.applyAll db (callWrites commit.kind commit.envelope) = db.afterCommit commit := by
  cases hk : commit.kind
  · simp [callWrites, eventWrites, Items.apply, Database.apply, Database.afterCommit,
      Commit.entries, hk]
  · simp [callWrites, eventWrites, Items.apply, Database.apply, Database.afterCommit,
      Commit.entries, hk]

/-- An event numbered by both counters can be committed together with their increments. -/
lemma Database.Consistent.afterCommit {db : Database P} (h : db.Consistent)
    {commit : Commit UInt32 P}
    (hv : (db.streamVersions commit.envelope.streamId).getD 0 = commit.envelope.streamVersion)
    (hg : db.globalSeq.getD 0 = commit.envelope.globalPosition) :
    (db.afterCommit commit).Consistent := by
  have hv' : commit.envelope.streamVersion
      = streamLength db.events commit.envelope.streamId := by
    rw [← hv, h.counters]
  have hg' : commit.envelope.globalPosition = (db.events.length : Int) := by
    rw [← hg, h.globalSeq, Option.getD_some]
  simp only [Database.afterCommit]
  refine ⟨Numbered.snoc h.streams hv', fun s => ?_, Numbered.snoc h.positions ?_, ?_⟩
  · rw [streamLength_snoc]
    by_cases hs : commit.envelope.streamId = s
    · subst hs
      simp [hv']
    · simp [hs, Function.update_of_ne (Ne.symm hs), h.counters]
  · simp [hg', classCount]
  · simp [hg']

/-! ### What a call relies on -/

namespace State

/-- Call `c` holds the counter of stream `s`, which stands at `v`. -/
abbrev HoldsVersion (σ : State P) (c : ℕ) (s : String) (v : Int) : Prop :=
  σ.engine.Holds (.call c) (.streamVersion s) fun version : Option Int => version.getD 0 = v

/-- Call `c` holds the global counter, which stands at `g`. -/
abbrev HoldsSeq (σ : State P) (c : ℕ) (g : Int) : Prop :=
  σ.engine.Holds (.call c) .globalSeq fun seq : Option Int => seq.getD 0 = g

/-- The uncommitted event of call `c` is numbered by both counters and has an id of its own. -/
structure Drafted (σ : State P) (c : ℕ) (e : EventEnvelope P) : Prop where
  version : σ.HoldsVersion c e.streamId e.streamVersion
  position : σ.HoldsSeq c e.globalPosition
  id : σ.engine.Holds (.call c) (.event e.eventId)
    fun events : List (EventEnvelope P) => events = []
  idDrawn : e.eventId ∈ σ.drawn

/-- What call `c` has written and holds, by how far it has come. -/
def CallInv (σ : State P) (c : ℕ) : Prop :=
  match σ.calls c with
  | .idle => σ.engine.writes (.call c) = []
  | .started _ => σ.engine.writes (.call c) = []
  | .versioned req v =>
    σ.HoldsVersion c req.streamId v ∧
      σ.engine.writes (.call c) = [.setStreamVersion req.streamId (v + 1)]
  | .positioned req v g =>
    σ.HoldsVersion c req.streamId v ∧ σ.HoldsSeq c g ∧
      σ.engine.writes (.call c) = [.setStreamVersion req.streamId (v + 1), .setGlobalSeq (g + 1)]
  | .inserted _ e => σ.Drafted c e ∧ σ.engine.writes (.call c) = eventWrites e
  | .outboxWritten e =>
    σ.Drafted c e ∧ σ.engine.writes (.call c) = callWrites .appendWithOutbox e
  | .aborted _ => True
  | .returned _ => True

structure Inv (σ : State P) : Prop where
  engine : σ.engine.Sound
  db : σ.db.Consistent
  calls : ∀ c, σ.CallInv c
  relays : ∀ r, σ.engine.writes (.relay r) = []
  drawn : ∀ e ∈ σ.db.events, e.eventId ∈ σ.drawn
  noConflict : ∀ c s v, σ.calls c ≠ .returned (.error (.concurrencyConflict s v))

variable {σ σ' : State P} {c : ℕ}

/-! ### Steps of the call and of others -/

lemma HoldsVersion.value {s : String} {v : Int} (h : σ.HoldsVersion c s v) :
    (σ.db.streamVersions s).getD 0 = v :=
  h.content

lemma HoldsSeq.value {g : Int} (h : σ.HoldsSeq c g) : σ.db.globalSeq.getD 0 = g :=
  h.content

lemma Drafted.idNew {e : EventEnvelope P} (h : σ.Drafted c e) :
    σ.db.events.filter (·.eventId = e.eventId) = [] :=
  h.id.content

/-- A write of the call keeps what it already holds. -/
lemma Drafted.wrote {w : Write P} {e : EventEnvelope P} (h : σ.Drafted c e)
    (hw : Txns.Wrote (.call c) w σ.engine.toTxns σ'.engine.toTxns) (hd : σ'.drawn = σ.drawn) :
    σ'.Drafted c e :=
  ⟨h.version.wrote hw, h.position.wrote hw, h.id.wrote hw, hd ▸ h.idDrawn⟩

lemma Drafted.undisturbed {e : EventEnvelope P} (h : σ.Drafted c e)
    (hu : Txns.Undisturbed (.call c) σ.engine.toTxns σ'.engine.toTxns)
    (hd : σ.drawn ⊆ σ'.drawn) : σ'.Drafted c e :=
  ⟨h.version.undisturbed hu, h.position.undisturbed hu, h.id.undisturbed hu, hd h.idDrawn⟩

/-- A step of anyone else leaves what call `c` relies on. -/
lemma CallInv.undisturbed (h : σ.CallInv c) (hc : σ'.calls c = σ.calls c)
    (hu : Txns.Undisturbed (.call c) σ.engine.toTxns σ'.engine.toTxns)
    (hd : σ.drawn ⊆ σ'.drawn) : σ'.CallInv c := by
  simp only [CallInv, hc, hu.writes] at h ⊢
  split at h
  · exact h
  · exact h
  · exact ⟨h.1.undisturbed hu, h.2⟩
  · exact ⟨h.1.undisturbed hu, h.2.1.undisturbed hu, h.2.2⟩
  · exact ⟨h.1.undisturbed hu hd, h.2⟩
  · exact ⟨h.1.undisturbed hu hd, h.2⟩
  · trivial
  · trivial

end State

/-! ### Steps of the call itself -/

section Own

variable {σ σ' : State P} {c : ℕ} {step : CallStep P}

lemma CallEffect.drawn_subset (h : CallEffect σ c step σ') : σ.drawn ⊆ σ'.drawn := by
  cases h with
  | inserted => exact List.subset_cons_self _ _
  | _ => exact List.Subset.refl _

/-- The counter a call has just advanced stood at the value it read from its snapshot. -/
lemma holdsVersion_of_write {req : AppendRequest P} {v : Int} {engine : Engine P}
    (h : σ.Inv) (hws : σ.engine.writes (.call c) = [])
    (hv : v = ((σ.engine.view (.call c)).streamVersions req.streamId).getD 0)
    (hw : σ.engine.write (.call c) (.setStreamVersion req.streamId (v + 1)) = some engine)
    (call : Call P) : (σ.putCall c engine call).HoldsVersion c req.streamId v := by
  have hwrote := (Snapshots.wrote_of_write hw).1
  refine ⟨hwrote.targets _ (List.mem_singleton_self _), ?_⟩
  have hcur : (σ.engine.snapshot (.call c)).streamVersions req.streamId
      = σ.engine.db.streamVersions req.streamId :=
    h.engine.write_current hw (k := .streamVersion req.streamId) (List.mem_singleton_self _)
  have hview : σ.engine.view (.call c) = σ.engine.snapshot (.call c) := by
    simp [Snapshots.view, hws]
  rw [hv, hview, hcur, ← hwrote.db]
  rfl

lemma holdsSeq_of_write {v g : Int} {s : String} {engine : Engine P} (h : σ.Inv)
    (hws : σ.engine.writes (.call c) = [.setStreamVersion s v])
    (hg : g = ((σ.engine.view (.call c)).globalSeq).getD 0)
    (hw : σ.engine.write (.call c) (.setGlobalSeq (g + 1)) = some engine)
    (call : Call P) : (σ.putCall c engine call).HoldsSeq c g := by
  have hwrote := (Snapshots.wrote_of_write hw).1
  refine ⟨hwrote.targets _ (List.mem_singleton_self _), ?_⟩
  have hcur : (σ.engine.snapshot (.call c)).globalSeq = σ.engine.db.globalSeq :=
    h.engine.write_current hw (k := .globalSeq) (List.mem_singleton_self _)
  have hview : (σ.engine.view (.call c)).globalSeq = (σ.engine.snapshot (.call c)).globalSeq := by
    simp [Snapshots.view, hws, Items.apply, Database.apply]
  rw [hg, hview, hcur, ← hwrote.db]
  rfl

/-- No committed event carries the version or the id of the event that is being inserted. -/
lemma not_hasDuplicate {req : AppendRequest P} {e : EventEnvelope P} (h : σ.Inv)
    (hc : σ.calls c = .positioned req e.streamVersion e.globalPosition)
    (hs : e.streamId = req.streamId) (hid : e.eventId ∉ σ.drawn) : ¬ σ.db.HasDuplicate e := by
  have hcall := h.calls c
  simp only [State.CallInv, hc] at hcall
  rintro ⟨e', he', heq | ⟨-, hs', hv'⟩⟩
  · exact hid (heq ▸ h.drawn e' he')
  · -- a version in use lies below the counter
    have hlt := (Numbered.bounds h.db.streams he').2
    have hcount := hcall.1.value
    rw [h.db.counters, ← hs, ← hs', ← hv'] at hcount
    simp only [streamLength] at hcount
    omega

/-- The call itself keeps what it relies on. -/
lemma CallEffect.callInv_self (he : CallEffect σ c step σ') (h : σ.Inv) : σ'.CallInv c := by
  have hcall := h.calls c
  cases he with
  | started req hc =>
    simpa [State.CallInv, hc, Snapshots.start] using hcall
  | versioned req v engine hc hv hw =>
    simp only [State.CallInv, hc] at hcall
    have hwrote := (Snapshots.wrote_of_write hw).1
    simp only [State.CallInv, State.putCall_calls_self]
    exact ⟨holdsVersion_of_write h hcall hv hw _, by simp [hwrote.writes, hcall]⟩
  | positioned req v g engine hc hg hw =>
    simp only [State.CallInv, hc] at hcall
    have hwrote := (Snapshots.wrote_of_write hw).1
    simp only [State.CallInv, State.putCall_calls_self]
    exact ⟨hcall.1.wrote hwrote, holdsSeq_of_write h hcall.2 hg hw _,
      by simp [hwrote.writes, hcall.2]⟩
  | inserted req e engine hc hgives hid hw =>
    simp only [State.CallInv, hc, ← hgives.streamId] at hcall
    have hwrote := (Snapshots.wrote_of_write hw).1
    have hnew : σ.db.events.filter (·.eventId = e.eventId) = [] := by
      simp only [List.filter_eq_nil_iff, decide_eq_true_eq]
      exact fun e' he' heq => hid (heq ▸ h.drawn e' he')
    have hdb : engine.db = σ.db := hwrote.db
    simp only [State.CallInv, State.putCall_calls_self]
    refine ⟨⟨hcall.1.wrote hwrote, hcall.2.1.wrote hwrote, ⟨hwrote.targets _ ?_, ?_⟩, ?_⟩, ?_⟩
    · exact List.mem_cons_self
    · change engine.db.events.filter _ = []
      rw [hdb, hnew]
    · exact List.mem_cons_self
    · simp [hwrote.writes, hcall.2.2, eventWrites]
  | outboxWritten e engine hc hw =>
    simp only [State.CallInv, hc] at hcall
    have hwrote := (Snapshots.wrote_of_write hw).1
    simp only [State.CallInv, State.putCall_calls_self]
    exact ⟨hcall.1.wrote hwrote rfl, by simp [hwrote.writes, hcall.2, callWrites]⟩
  | committed kind e acknowledged hc => simp [State.CallInv, State.commit]
  | conflict => simp [State.CallInv]
  | failed => simp [State.CallInv, State.failCall]
  | aborted => simp [State.CallInv]
  | ended => simp [State.CallInv]

/-- What a call that is ready to commit has written. -/
lemma writes_of_ready {kind : AppendKind} {e : EventEnvelope P} (h : σ.CallInv c)
    (hc : (σ.calls c).ReadyToCommit kind e) :
    σ.Drafted c e ∧ σ.engine.writes (.call c) = callWrites kind e := by
  rcases hc with ⟨hc, rfl⟩ | ⟨hc, rfl⟩
  · simpa [State.CallInv, hc, callWrites] using h
  · simpa [State.CallInv, hc] using h

/-- What a commit of call `c` does. -/
structure Committed (σ : State P) (c : ℕ) (commit : Commit UInt32 P) (σ' : State P) : Prop where
  call : commit.call = c
  ready : (σ.calls c).ReadyToCommit commit.kind commit.envelope
  drafted : σ.Drafted c commit.envelope
  db : σ'.db = σ.db.afterCommit commit
  commits : σ'.commits = σ.commits ++ [commit]
  returned : ∃ result, σ'.calls c = .returned result
  drawn : σ'.drawn = σ.drawn

/-- A step of a call commits its event or leaves the committed state as it is. -/
theorem CallEffect.db_cases (he : CallEffect σ c step σ') (h : σ.Inv) :
    (σ'.db = σ.db ∧ σ'.commits = σ.commits) ∨
      ∃ acknowledged commit, step = .commit acknowledged ∧ Committed σ c commit σ' := by
  cases he with
  | started => exact .inl ⟨rfl, rfl⟩
  | versioned _ _ _ _ _ hw => exact .inl ⟨(Snapshots.wrote_of_write hw).1.db, rfl⟩
  | positioned _ _ _ _ _ _ hw => exact .inl ⟨(Snapshots.wrote_of_write hw).1.db, rfl⟩
  | inserted _ _ _ _ _ _ hw => exact .inl ⟨(Snapshots.wrote_of_write hw).1.db, rfl⟩
  | outboxWritten _ _ _ hw => exact .inl ⟨(Snapshots.wrote_of_write hw).1.db, rfl⟩
  | committed kind e acknowledged hc =>
    obtain ⟨hd, hw⟩ := writes_of_ready (h.calls c) hc
    refine .inr ⟨acknowledged, ⟨c, kind, e⟩, rfl, rfl, hc, hd, ?_, rfl,
      ⟨_, State.putCall_calls_self σ c (σ.engine.commit (.call c)) _⟩, rfl⟩
    rw [← applyAll_callWrites, ← hw]
    rfl
  | conflict => exact .inl ⟨rfl, rfl⟩
  | failed => exact .inl ⟨rfl, rfl⟩
  | aborted => exact .inl ⟨rfl, rfl⟩
  | ended => exact .inl ⟨rfl, rfl⟩

end Own

/-! ### The invariant -/

section Invariant

variable {σ σ' : State P}

lemma State.inv_initial : (State.initial : State P).Inv where
  engine := Snapshots.sound_idle _
  db := Database.consistent_fresh
  calls _ := rfl
  relays _ := rfl
  drawn e he := by
    rw [State.initial_db, Database.fresh_events] at he
    cases he
  noConflict _ _ _ h := by cases h

lemma CallEffect.inv {c : ℕ} {step : CallStep P} (he : CallEffect σ c step σ') (h : σ.Inv) :
    σ'.Inv where
  engine := he.sound h.engine
  db := by
    rcases he.db_cases h with ⟨hdb, -⟩ | ⟨-, commit, -, hc⟩
    · exact hdb ▸ h.db
    · exact hc.db ▸ h.db.afterCommit hc.drafted.version.value hc.drafted.position.value
  calls c' := by
    by_cases hc : c' = c
    · exact hc ▸ he.callInv_self h
    · exact (h.calls c').undisturbed (he.calls_ne hc)
        (he.undisturbed h.engine (by simpa using hc)) he.drawn_subset
  relays r := by
    rw [(he.undisturbed h.engine (t := .relay r) (by simp)).writes, h.relays r]
  drawn e hmem := by
    rcases he.db_cases h with ⟨hdb, -⟩ | ⟨-, commit, -, hc⟩
    · exact he.drawn_subset (h.drawn e (hdb ▸ hmem))
    · rw [hc.drawn]
      rw [hc.db] at hmem
      rcases List.mem_append.mp hmem with hmem | hmem
      · exact h.drawn e hmem
      · obtain rfl := List.mem_singleton.mp hmem
        exact hc.drafted.idDrawn
  noConflict c' s v := by
    by_cases hc : c' = c
    · subst hc
      cases he with
      | committed _ _ acknowledged =>
        cases acknowledged <;> simp [State.commit]
      | conflict req e hcall hs hid hdup => exact absurd hdup (not_hasDuplicate h hcall hs hid)
      | failed => simp [State.failCall]
      | ended result hcall =>
        simp only [State.putCall_calls_self]
        exact hcall ▸ h.noConflict c' s v
      | _ => simp
    · rw [he.calls_ne hc]
      exact h.noConflict c' s v

/-- What the update of a relay makes of the database. -/
lemma db_of_mark {r : ℕ} {engine : Engine P} {eventId now : String} (h : σ.Inv)
    (hw : (σ.engine.start (.relay r)).write (.relay r) (.setDispatched eventId now)
      = some engine) :
    (engine.commit (.relay r)).db = σ.db.apply (.setDispatched eventId now) := by
  have hwrote := (Snapshots.wrote_of_write hw).1
  have hws : engine.writes (.relay r) = [.setDispatched eventId now] := by
    simp [hwrote.writes, Snapshots.start, h.relays r]
  have hdb : engine.db = σ.db := hwrote.db
  change Items.applyAll engine.db (engine.writes (.relay r)) = _
  rw [hws, hdb]
  rfl

/-- The relay changes the dispatch of one entry, or nothing in the database. -/
theorem RelayEffect.db_cases {r : ℕ} (he : RelayEffect σ r σ') (h : σ.Inv) :
    σ'.db = σ.db ∨ ∃ o now, σ.relays r = .published o ∧
      σ'.db = σ.db.apply (.setDispatched o.eventId now) := by
  cases he with
  | marked o now result engine hr hw => exact .inr ⟨o, now, hr, db_of_mark h hw⟩
  | _ => exact .inl rfl

lemma RelayEffect.commits_eq {r : ℕ} (he : RelayEffect σ r σ') : σ'.commits = σ.commits := by
  cases he <;> rfl

lemma RelayEffect.inv {r : ℕ} (he : RelayEffect σ r σ') (h : σ.Inv) : σ'.Inv where
  engine := he.sound h.engine
  db := by
    rcases he.db_cases h with hdb | ⟨o, now, -, hdb⟩
    · exact hdb ▸ h.db
    · rw [hdb]
      exact ⟨h.db.streams, h.db.counters, h.db.positions, h.db.globalSeq⟩
  calls c := by
    refine (h.calls c).undisturbed (by rw [he.calls_eq]) (he.undisturbed h.engine (by simp)) ?_
    cases he <;> exact List.Subset.refl _
  relays r' := by
    by_cases hr : r' = r
    · subst hr
      cases he with
      | marked => simp [Snapshots.commit]
      | _ => exact h.relays r'
    · rw [(he.undisturbed h.engine (by simpa using hr)).writes, h.relays r']
  drawn e hmem := by
    have hdrawn : σ'.drawn = σ.drawn := by cases he <;> rfl
    rw [hdrawn]
    rcases he.db_cases h with hdb | ⟨o, now, -, hdb⟩
    · exact h.drawn e (hdb ▸ hmem)
    · exact h.drawn e (by rw [hdb] at hmem; exact hmem)
  noConflict c s v := by
    rw [he.calls_eq]
    exact h.noConflict c s v

/-- One step of the store preserves the invariant. -/
theorem inv_next {a : Action P} (h : σ.Inv) (hs : σ.next a = some σ') : σ'.Inv := by
  cases a with
  | call c step => exact (callEffect_of_next hs).inv h
  | relay r step => exact (relayEffect_of_next hs).inv h

/-- The invariant holds in every state of every run. -/
theorem inv_of_reachable (h : (system P).Reachable σ) : σ.Inv := by
  refine System.ReachBy.invariant ?_ ?_ h
  · rintro _ rfl
    exact State.inv_initial
  · exact fun _ _ _ _ hinv _ hs => inv_next hinv hs

end Invariant

/-! ### The store simulates the event log -/

section Log

variable {σ σ' : State P}

lemma CallEffect.of_commit {c : ℕ} {acknowledged : Bool}
    (he : CallEffect σ c (.commit acknowledged) σ') :
    ∃ kind e, (σ.calls c).ReadyToCommit kind e ∧ σ' = σ.commit c kind e acknowledged := by
  cases he with
  | committed kind e _ h => exact ⟨kind, e, h, rfl⟩
  | failed _ _ _ hf =>
    cases hf with
    | refused _ hr =>
      obtain ⟨w, hw, -⟩ := hr
      cases hw

/-- The event an action would commit. -/
def State.committing (σ : State P) : Action P → Option (EventEnvelope P)
  | .call c (.commit _) => (σ.calls c).ready.map (·.2)
  | _ => none

/-- The committed events after a step. -/
theorem events_next {a : Action P} (h : σ.Inv) (hs : σ.next a = some σ') :
    σ'.db.events = σ.db.events ++ (σ.committing a).toList := by
  cases a with
  | call c step =>
    have he := callEffect_of_next hs
    rcases he.db_cases h with ⟨hdb, hcommits⟩ | ⟨ack, commit, rfl, hc⟩
    · have hnone : σ.committing (.call c step) = none := by
        cases step with
        | commit ack =>
          obtain ⟨kind, e, -, rfl⟩ := he.of_commit
          simp [State.commit] at hcommits
        | _ => rfl
      simp [hnone, hdb]
    · simp [State.committing, Call.ready_of_readyToCommit hc.ready, hc.db, Database.afterCommit]
  | relay r step =>
    have he := relayEffect_of_next hs
    have hevents : σ'.db.events = σ.db.events := by
      rcases he.db_cases h with hdb | ⟨o, now, -, hdb⟩
      · rw [hdb]
      · rw [hdb]
        rfl
    simp [State.committing, hevents]

/-- What the store has committed. -/
def State.commitLog (σ : State P) : CommitLog UInt32 P := ⟨σ.commits, σ.db.events, σ.db.outbox⟩

/-- A step of the store commits one event, dispatches one entry or leaves what is committed. -/
theorem simulates_commitLog :
    System.Simulation (system P) (CommitLog.system UInt32 P) State.commitLog where
  init := by
    rintro _ rfl
    rfl
  next σ a σ' h _ hs := by
    have hinv := inv_of_reachable h
    cases a with
    | call c step =>
      rcases (callEffect_of_next hs).db_cases hinv with ⟨hdb, hcommits⟩ | ⟨-, commit, -, hc⟩
      · exact .inl (by simp only [State.commitLog, hdb, hcommits])
      · refine .inr ⟨.commit commit, CommitLog.next_commit.mpr ⟨⟨?_, hc.drafted.idNew⟩, ?_⟩⟩
        · exact hc.drafted.version.value.symm.trans (hinv.db.counters _)
        · simp only [State.commitLog, hc.db, hc.commits, Database.afterCommit]
    | relay r step =>
      have he := relayEffect_of_next hs
      rcases he.db_cases hinv with hdb | ⟨o, now, -, hdb⟩
      · exact .inl (by simp only [State.commitLog, hdb, he.commits_eq])
      · refine .inr ⟨.dispatch o.eventId now, congrArg some ?_⟩
        simp only [State.commitLog, hdb, he.commits_eq, Database.apply]

/-- The collections hold what the commits have written. -/
theorem mirrors_of_reachable (h : (system P).Reachable σ) :
    Mirrors σ.commits σ.db.events σ.db.outbox :=
  CommitLog.mirrors_of_reachable (simulates_commitLog.reachable h)

/-- A step of the store appends one event to the log or leaves the log as it is. -/
theorem simulates_eventLog :
    System.Simulation (system P) (EventLog.system UInt32 P) fun σ => σ.db.events :=
  simulates_commitLog.trans CommitLog.simulates_eventLog

/-- Positions ascend in the order of the commits. -/
lemma positions_ascending (h : σ.Inv) :
    (σ.db.events.map (·.globalPosition)).Pairwise (· < ·) := by
  simpa using Numbered.sorted h.db.positions ()

/-- Positions follow the order of the commits. -/
lemma position_lt_of_later (h : (system P).Reachable σ) (hl : (system P).Later σ σ')
    {e e' : EventEnvelope P} (he : e ∈ σ.db.events) (he' : e' ∈ σ'.db.events)
    (hnew : e' ∉ σ.db.events) : e.globalPosition < e'.globalPosition := by
  obtain ⟨new, hnews⟩ := EventLog.prefix_of_simulation simulates_eventLog h hl
  have hsorted := Numbered.sorted (inv_of_reachable (h.later hl)).db.positions ()
  simp only [← hnews, decide_true, List.filter_true, List.map_append,
    List.pairwise_append] at hsorted
  have hmem : e' ∈ new := by
    rw [← hnews] at he'
    exact (List.mem_append.mp he').resolve_left hnew
  exact hsorted.2.2 _ (List.mem_map_of_mem he) _ (List.mem_map_of_mem hmem)

/-- In every committed state of every run the versions of each stream and the positions over
all streams run from `0` without a gap, both counters count the events, positions follow the
order of the commits, and no call has returned a concurrency conflict. -/
theorem append_runs_gapless (h : (system P).Reachable σ) :
    (∀ s, (σ.db.events.filter (·.streamId = s)).map (·.streamVersion)
        = (List.range (streamLength σ.db.events s)).map (fun i : ℕ => (i : Int)) ∧
      (σ.db.streamVersions s).getD 0 = streamLength σ.db.events s) ∧
    σ.db.events.map (·.globalPosition)
      = (List.range σ.db.events.length).map (fun i : ℕ => (i : Int)) ∧
    σ.db.globalSeq = some (σ.db.events.length : Int) ∧
    (∀ σ', (system P).Later σ σ' → ∀ e ∈ σ.db.events, ∀ e' ∈ σ'.db.events,
      e' ∉ σ.db.events → e.globalPosition < e'.globalPosition) ∧
    ∀ c s v, σ.calls c ≠ .returned (.error (.concurrencyConflict s v)) := by
  have hinv := inv_of_reachable h
  refine ⟨?_, positionsNumbered_iff.mp hinv.db.positions, hinv.db.globalSeq, ?_, hinv.noConflict⟩
  · intro s
    exact ⟨hinv.db.streams s, hinv.db.counters s⟩
  · intro σ' hl e he e' he' hnew
    exact position_lt_of_later h hl he he' hnew

end Log

/-- Two writers of one stream that overlap, and a third call after them. -/
def contendedRun : List (Action ℕ) :=
  let req : AppendRequest ℕ := ⟨.appendWithOutbox, "order-1", "OrderPlaced", 1, some 0⟩
  [.call 0 (.invoke req), .call 1 (.invoke { req with kind := .append }),
    .call 0 .advanceVersion, .call 1 .advanceVersion, .call 1 .abort, .call 0 .advanceSeq,
    .call 0 (.insertEvent "e0" "t0"), .call 0 .insertOutbox, .call 0 (.commit true),
    .call 2 (.invoke { req with kind := .append }), .call 2 .advanceVersion, .call 2 .advanceSeq,
    .call 2 (.insertEvent "e1" "t1"), .call 2 (.commit true)]

theorem append_runs_gapless_contended :
    let σ := (system ℕ).after contendedRun .initial
    σ.db.events.map (·.streamVersion) = [0, 1] ∧ (σ.db.streamVersions "order-1").getD 0 = 2 ∧
      σ.db.globalSeq = some 2 ∧
      ∀ c s v, σ.calls c ≠ .returned (.error (.concurrencyConflict s v)) := by
  have h := append_runs_gapless (P := ℕ)
    (System.reachable_after contendedRun init_initial (by decide))
  exact ⟨by decide, (h.1 "order-1").2.trans (by decide), h.2.2.1.trans (by decide), h.2.2.2.2⟩

end EventSourcing.Mongo
