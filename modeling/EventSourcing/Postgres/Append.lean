import EventSourcing.Concurrency.Sequence
import EventSourcing.Postgres.Steps
import EventSourcing.Store.CallMoves
import EventSourcing.Store.CommitLog

/-!
# Numbering of events in the PostgreSQL store

The upserted row of `stream_versions` stays locked until the transaction ends, so the version
a call has read is still the committed one when it commits (`State.Inv`). The identity value is
drawn under that lock: the positions drawn and committed are a run of `Sequence` in which a
stream is drawn for by one call at a time (`simulates_sequence`). They ascend within each
stream, while positions of different streams commit in any order.
-/

namespace EventSourcing.Postgres

open Concurrency EventLog

variable {P : Type}

/-! ### The committed state -/

/-- The version rows agree with the committed events, which are numbered without gaps. -/
structure Database.Consistent (db : Database P) : Prop where
  streams : StreamsNumbered db.events
  counters : ∀ s, (db.streamVersions s).getD 0 = streamLength db.events s
  channel : db.channel = db.events.map eventsNotifyInsert

lemma Database.consistent_fresh : (Database.fresh : Database P).Consistent where
  streams := numbered_nil
  counters _ := rfl
  channel := rfl

/-- The writes of an append call up to the event. -/
def eventWrites (e : EventEnvelope P) : List (Write P) :=
  [.setStreamVersion e.streamId (e.streamVersion + 1), .insertEvent e]

/-- The writes of an append call. -/
def callWrites : AppendKind → EventEnvelope P → List (Write P)
  | .append, e => eventWrites e
  | .appendWithOutbox, e => eventWrites e ++ [.insertOutbox (.ofEnvelope e)]

/-- What a commit makes of the database. -/
def Database.afterCommit (db : Database P) (commit : Commit Int32 P) : Database P :=
  { streamVersions := Function.update db.streamVersions commit.envelope.streamId
      (some (commit.envelope.streamVersion + 1))
    events := db.events ++ [commit.envelope]
    outbox := db.outbox ++ commit.entries
    channel := db.channel ++ [Database.eventsNotifyInsert commit.envelope] }

lemma applyAll_callWrites (db : Database P) (commit : Commit Int32 P) :
    Items.applyAll db (callWrites commit.kind commit.envelope) = db.afterCommit commit := by
  cases hk : commit.kind
  · simp [callWrites, eventWrites, Items.apply, Database.apply, Database.afterCommit,
      Commit.entries, hk]
  · simp [callWrites, eventWrites, Items.apply, Database.apply, Database.afterCommit,
      Commit.entries, hk]

/-- An event numbered by the version row can be committed together with its increment. -/
lemma Database.Consistent.afterCommit {db : Database P} (h : db.Consistent)
    {commit : Commit Int32 P}
    (hv : (db.streamVersions commit.envelope.streamId).getD 0 = commit.envelope.streamVersion) :
    (db.afterCommit commit).Consistent := by
  have hv' : commit.envelope.streamVersion
      = streamLength db.events commit.envelope.streamId := by
    rw [← hv, h.counters]
  refine ⟨Numbered.snoc h.streams hv', fun s => ?_, by simp [Database.afterCommit, h.channel]⟩
  simp only [Database.afterCommit]
  rw [streamLength_snoc]
  by_cases hs : commit.envelope.streamId = s
  · subst hs
    simp [hv']
  · simp [hs, Function.update_of_ne (Ne.symm hs), h.counters]

/-! ### What a call relies on -/

namespace State

/-- Call `c` holds the version row of stream `s`, which stands at `v`. -/
abbrev HoldsVersion (σ : State P) (c : ℕ) (s : String) (v : Int) : Prop :=
  σ.engine.Holds (.call c) (.streamVersion s) fun version : Option Int => version.getD 0 = v

/-- The uncommitted event of call `c` is numbered by its version row and has an id of its own. -/
structure Drafted (σ : State P) (c : ℕ) (e : EventEnvelope P) : Prop where
  version : σ.HoldsVersion c e.streamId e.streamVersion
  id : σ.engine.Holds (.call c) (.event e.eventId)
    fun events : List (EventEnvelope P) => events = []
  idDrawn : e.eventId ∈ σ.drawn

/-- What call `c` has written and holds, by how far it has come. -/
def CallInv (σ : State P) (c : ℕ) : Prop :=
  match σ.calls c with
  | .idle => σ.engine.writes (.call c) = []
  | .started _ => σ.engine.writes (.call c) = []
  | .versioned req v =>
    σ.HoldsVersion c req.streamId v ∧
      σ.engine.writes (.call c) = [.setStreamVersion req.streamId (v + 1)]
  | .positioned req v _ =>
    σ.HoldsVersion c req.streamId v ∧
      σ.engine.writes (.call c) = [.setStreamVersion req.streamId (v + 1)]
  | .inserted _ e => σ.Drafted c e ∧ σ.engine.writes (.call c) = eventWrites e
  | .outboxWritten e =>
    σ.Drafted c e ∧ σ.engine.writes (.call c) = callWrites .appendWithOutbox e
  | .aborted _ => True
  | .returned _ => True

/-- What relay call `r` has written, by how far it has come. -/
def RelayInv (σ : State P) (r : ℕ) : Prop :=
  match σ.relays r with
  | .idle => σ.engine.writes (.relay r) = []
  | .started => σ.engine.writes (.relay r) = []
  | .selected _ => σ.engine.writes (.relay r) = []
  | .published _ => σ.engine.writes (.relay r) = []
  | .marked o => ∃ now, σ.engine.writes (.relay r) = [.setDispatched o.eventId now]
  | .crashed => True
  | .returned _ => True

structure Inv (σ : State P) : Prop where
  engine : σ.engine.Locked
  db : σ.db.Consistent
  calls : ∀ c, σ.CallInv c
  relays : ∀ r, σ.RelayInv r
  drawn : ∀ e ∈ σ.db.events, e.eventId ∈ σ.drawn
  noConflict : ∀ c s v, σ.calls c ≠ .returned (.error (.concurrencyConflict s v))

variable {σ σ' : State P} {c : ℕ}

/-! ### Steps of the call and of others -/

lemma HoldsVersion.value {s : String} {v : Int} (h : σ.HoldsVersion c s v) :
    (σ.db.streamVersions s).getD 0 = v :=
  h.content

lemma Drafted.idNew {e : EventEnvelope P} (h : σ.Drafted c e) :
    σ.db.events.filter (·.eventId = e.eventId) = [] :=
  h.id.content

/-- A write of the call keeps what it already holds. -/
lemma Drafted.wrote {w : Write P} {e : EventEnvelope P} (h : σ.Drafted c e)
    (hw : Txns.Wrote (.call c) w σ.engine σ'.engine) (hd : σ'.drawn = σ.drawn) :
    σ'.Drafted c e :=
  ⟨h.version.wrote hw, h.id.wrote hw, hd ▸ h.idDrawn⟩

lemma Drafted.undisturbed {e : EventEnvelope P} (h : σ.Drafted c e)
    (hu : Txns.Undisturbed (.call c) σ.engine σ'.engine)
    (hd : σ.drawn ⊆ σ'.drawn) : σ'.Drafted c e :=
  ⟨h.version.undisturbed hu, h.id.undisturbed hu, hd h.idDrawn⟩

/-- A step of anyone else leaves what call `c` relies on. -/
lemma CallInv.undisturbed (h : σ.CallInv c) (hc : σ'.calls c = σ.calls c)
    (hu : Txns.Undisturbed (.call c) σ.engine σ'.engine)
    (hd : σ.drawn ⊆ σ'.drawn) : σ'.CallInv c := by
  simp only [CallInv, hc, hu.writes] at h ⊢
  split at h
  · exact h
  · exact h
  · exact ⟨h.1.undisturbed hu, h.2⟩
  · exact ⟨h.1.undisturbed hu, h.2⟩
  · exact ⟨h.1.undisturbed hu hd, h.2⟩
  · exact ⟨h.1.undisturbed hu hd, h.2⟩
  · trivial
  · trivial

lemma RelayInv.of_writes {r : ℕ} (h : σ.RelayInv r) (hr : σ'.relays r = σ.relays r)
    (hw : σ'.engine.writes (.relay r) = σ.engine.writes (.relay r)) : σ'.RelayInv r := by
  simpa only [RelayInv, hr, hw] using h

end State

/-! ### Steps of the call itself -/

section Own

variable {σ σ' : State P} {c : ℕ} {step : CallStep P}

lemma CallEffect.drawn_subset (h : CallEffect σ c step σ') : σ.drawn ⊆ σ'.drawn := by
  cases h with
  | inserted => exact List.subset_cons_self _ _
  | _ => exact List.Subset.refl _

/-- The row a call has just locked stood at the value it read. -/
lemma holdsVersion_of_write {req : AppendRequest P} {v : Int} {engine : Engine P}
    (hws : σ.engine.writes (.call c) = [])
    (hv : v = ((σ.engine.view (.call c)).streamVersions req.streamId).getD 0)
    (hw : σ.engine.write (.call c) (.setStreamVersion req.streamId (v + 1)) = some engine)
    (call : Call P) : (σ.putCall c engine call).HoldsVersion c req.streamId v := by
  have hwrote := Txns.wrote_of_write hw
  refine ⟨hwrote.targets _ (List.mem_singleton_self _), ?_⟩
  have hview : σ.engine.view (.call c) = σ.engine.db := by
    simp [Txns.view, hws]
  rw [hv, hview, ← hwrote.db]
  rfl

/-- No committed event carries the version or the id of the event that is being inserted. -/
lemma not_hasDuplicate {req : AppendRequest P} {e : EventEnvelope P} (h : σ.Inv)
    (hc : σ.calls c = .positioned req e.streamVersion e.globalPosition)
    (hs : e.streamId = req.streamId) (hid : e.eventId ∉ σ.drawn) : ¬ σ.db.HasDuplicate e := by
  have hcall := h.calls c
  simp only [State.CallInv, hc] at hcall
  rintro ⟨e', he', heq | ⟨hs', hv'⟩⟩
  · exact hid (heq ▸ h.drawn e' he')
  · -- a version in use lies below the counter
    have hlt := (Numbered.bounds h.db.streams he').2
    have hcount := hcall.1.value
    rw [h.db.counters, ← hs, ← hs', ← hv'] at hcount
    simp only [streamLength] at hcount
    omega

/-- The call itself keeps what it relies on. -/
lemma CallEffect.callInv_self (he : CallEffect σ c step σ') (h : σ.Inv) : σ'.CallInv c := by
  have hcall := h.calls c
  cases he with
  | started req hc =>
    simpa [State.CallInv, hc] using hcall
  | versioned req v engine hc hv hw =>
    simp only [State.CallInv, hc] at hcall
    have hwrote := Txns.wrote_of_write hw
    simp only [State.CallInv, State.putCall_calls_self]
    exact ⟨holdsVersion_of_write hcall hv hw _, by simp [hwrote.writes, hcall]⟩
  | positioned req v g hc hg =>
    simp only [State.CallInv, hc] at hcall
    simp only [State.CallInv, State.putCall_calls_self]
    exact ⟨⟨hcall.1.holder, hcall.1.content⟩, hcall.2⟩
  | inserted req e engine hc hgives hid hw =>
    simp only [State.CallInv, hc, ← hgives.streamId] at hcall
    have hwrote := Txns.wrote_of_write hw
    have hnew : σ.db.events.filter (·.eventId = e.eventId) = [] := by
      simp only [List.filter_eq_nil_iff, decide_eq_true_eq]
      exact fun e' he' heq => hid (heq ▸ h.drawn e' he')
    have hdb : engine.db = σ.db := hwrote.db
    simp only [State.CallInv, State.putCall_calls_self]
    refine ⟨⟨hcall.1.wrote hwrote, ⟨hwrote.targets _ ?_, ?_⟩, ?_⟩, ?_⟩
    · exact List.mem_cons_self
    · change engine.db.events.filter _ = []
      rw [hdb, hnew]
    · exact List.mem_cons_self
    · simp [hwrote.writes, hcall.2, eventWrites]
  | outboxWritten e engine hc hw =>
    simp only [State.CallInv, hc] at hcall
    have hwrote := Txns.wrote_of_write hw
    simp only [State.CallInv, State.putCall_calls_self]
    exact ⟨hcall.1.wrote hwrote rfl, by simp [hwrote.writes, hcall.2, callWrites]⟩
  | committed kind e acknowledged hc => simp [State.CallInv, State.commit]
  | conflict => simp [State.CallInv, State.failCall]
  | failed => simp [State.CallInv, State.failCall]
  | aborted => simp [State.CallInv]
  | ended => simp [State.CallInv]

/-- What a call that is ready to commit has written. -/
lemma writes_of_ready {kind : AppendKind} {e : EventEnvelope P} (h : σ.CallInv c)
    (hc : (σ.calls c).ReadyToCommit kind e) :
    σ.Drafted c e ∧ σ.engine.writes (.call c) = callWrites kind e := by
  rcases hc with ⟨hc, rfl⟩ | ⟨hc, rfl⟩
  · simpa [State.CallInv, hc, callWrites] using h
  · simpa [State.CallInv, hc] using h

/-- What a commit of call `c` does. -/
structure Committed (σ : State P) (c : ℕ) (commit : Commit Int32 P) (σ' : State P) : Prop where
  call : commit.call = c
  ready : (σ.calls c).ReadyToCommit commit.kind commit.envelope
  drafted : σ.Drafted c commit.envelope
  db : σ'.db = σ.db.afterCommit commit
  commits : σ'.commits = σ.commits ++ [commit]
  returned : ∃ result, σ'.calls c = .returned result
  drawn : σ'.drawn = σ.drawn

/-- A step of a call commits its event or leaves the committed state as it is. -/
theorem CallEffect.db_cases (he : CallEffect σ c step σ') (h : σ.Inv) :
    (σ'.db = σ.db ∧ σ'.commits = σ.commits) ∨
      ∃ acknowledged commit, step = .commit acknowledged ∧ Committed σ c commit σ' := by
  cases he with
  | started => exact .inl ⟨rfl, rfl⟩
  | versioned _ _ _ _ _ hw => exact .inl ⟨(Txns.wrote_of_write hw).db, rfl⟩
  | positioned => exact .inl ⟨rfl, rfl⟩
  | inserted _ _ _ _ _ _ hw => exact .inl ⟨(Txns.wrote_of_write hw).db, rfl⟩
  | outboxWritten _ _ _ hw => exact .inl ⟨(Txns.wrote_of_write hw).db, rfl⟩
  | committed kind e acknowledged hc =>
    obtain ⟨hd, hw⟩ := writes_of_ready (h.calls c) hc
    refine .inr ⟨acknowledged, ⟨c, kind, e⟩, rfl, rfl, hc, hd, ?_, rfl,
      ⟨_, State.putCall_calls_self σ c (σ.engine.commit (.call c)) _⟩, rfl⟩
    rw [← applyAll_callWrites, ← hw]
    rfl
  | conflict => exact .inl ⟨rfl, rfl⟩
  | failed => exact .inl ⟨rfl, rfl⟩
  | aborted => exact .inl ⟨rfl, rfl⟩
  | ended => exact .inl ⟨rfl, rfl⟩

end Own

/-! ### Steps of a relay -/

section Relays

variable {σ σ' : State P} {r : ℕ} {step : RelayStep}

lemma RelayEffect.relayInv_self (he : RelayEffect σ r step σ') (h : σ.RelayInv r) :
    σ'.RelayInv r := by
  cases he with
  | started hr => simpa [State.RelayInv, hr] using h
  | drained => simp [State.RelayInv]
  | selected o engine hr _ hl =>
    have hu : Txns.Undisturbed (Owner.relay r) σ.engine engine := Txns.lock_undisturbed hl
    simp only [State.RelayInv, hr] at h
    simp [State.RelayInv, hu.writes, h]
  | published o hr => simpa [State.RelayInv, hr, State.putRelay] using h
  | refused => simp [State.RelayInv]
  | marked o now engine hr hw =>
    simp only [State.RelayInv, hr] at h
    simp only [State.RelayInv, State.putRelay_relays_self, State.putRelay_engine]
    exact ⟨now, by simp [(Txns.wrote_of_write hw).writes, h]⟩
  | committed => simp [State.RelayInv]
  | failed => simp [State.RelayInv, State.stopRelay, State.putRelay]
  | crashed => simp [State.RelayInv, State.stopRelay, State.putRelay]
  | ended hr =>
    rcases hr with hr | ⟨result, hr⟩
    · simp [State.RelayInv, hr]
    · simp [State.RelayInv, hr]

/-- The relay changes the dispatch of one entry, or nothing in the database. -/
theorem RelayEffect.db_cases (he : RelayEffect σ r step σ') (h : σ.RelayInv r) :
    σ'.db = σ.db ∨ ∃ o now, σ.relays r = .marked o ∧
      σ'.db = σ.db.apply (.setDispatched o.eventId now) := by
  cases he with
  | selected _ _ _ _ hl =>
    obtain ⟨-, rfl⟩ := Txns.lock_eq_some.mp hl
    exact .inl rfl
  | marked _ _ _ _ hw => exact .inl (Txns.wrote_of_write hw).db
  | committed o result hr =>
    simp only [State.RelayInv, hr] at h
    obtain ⟨now, hw⟩ := h
    refine .inr ⟨o, now, hr, ?_⟩
    change Items.applyAll σ.db (σ.engine.writes (.relay r)) = _
    rw [hw]
    rfl
  | _ => exact .inl rfl

lemma RelayEffect.commits_eq (he : RelayEffect σ r step σ') : σ'.commits = σ.commits := by
  cases he <;> rfl

lemma RelayEffect.drawn_eq (he : RelayEffect σ r step σ') : σ'.drawn = σ.drawn := by
  cases he <;> rfl

/-- The relay touches nothing but the outbox. -/
lemma RelayEffect.tables_eq (he : RelayEffect σ r step σ') (h : σ.RelayInv r) :
    σ'.db.events = σ.db.events ∧ σ'.db.streamVersions = σ.db.streamVersions ∧
      σ'.db.channel = σ.db.channel := by
  rcases he.db_cases h with hdb | ⟨o, now, -, hdb⟩
  · simp [hdb]
  · simp [hdb, Database.apply]

end Relays

/-! ### The invariant -/

section Invariant

variable {σ σ' : State P}

lemma State.inv_initial : (State.initial : State P).Inv where
  engine := Txns.locked_idle _
  db := Database.consistent_fresh
  calls _ := rfl
  relays _ := rfl
  drawn _ he := by cases he
  noConflict _ _ _ h := by cases h

lemma CallEffect.inv {c : ℕ} {step : CallStep P} (he : CallEffect σ c step σ') (h : σ.Inv) :
    σ'.Inv where
  engine := he.locked h.engine
  db := by
    rcases he.db_cases h with ⟨hdb, -⟩ | ⟨-, commit, -, hc⟩
    · exact hdb ▸ h.db
    · exact hc.db ▸ h.db.afterCommit hc.drafted.version.value
  calls c' := by
    by_cases hc : c' = c
    · exact hc ▸ he.callInv_self h
    · exact (h.calls c').undisturbed (he.calls_ne hc)
        (he.undisturbed h.engine (by simpa using hc)) he.drawn_subset
  relays r :=
    (h.relays r).of_writes (by rw [he.relays_eq]) (he.undisturbed h.engine (by simp)).writes
  drawn e hmem := by
    rcases he.db_cases h with ⟨hdb, -⟩ | ⟨-, commit, -, hc⟩
    · exact he.drawn_subset (h.drawn e (hdb ▸ hmem))
    · rw [hc.drawn]
      rw [hc.db] at hmem
      rcases List.mem_append.mp hmem with hmem | hmem
      · exact h.drawn e hmem
      · obtain rfl := List.mem_singleton.mp hmem
        exact hc.drafted.idDrawn
  noConflict c' s v := by
    by_cases hc : c' = c
    · subst hc
      cases he with
      | committed _ _ acknowledged =>
        cases acknowledged <;> simp [State.commit]
      | conflict req e hcall hs hid hdup => exact absurd hdup (not_hasDuplicate h hcall hs hid)
      | failed => simp [State.failCall]
      | ended result hcall =>
        simp only [State.putCall_calls_self]
        exact hcall ▸ h.noConflict c' s v
      | _ => simp
    · rw [he.calls_ne hc]
      exact h.noConflict c' s v

lemma RelayEffect.inv {r : ℕ} {step : RelayStep} (he : RelayEffect σ r step σ') (h : σ.Inv) :
    σ'.Inv where
  engine := he.locked h.engine
  db := by
    obtain ⟨hevents, hversions, hchannel⟩ := he.tables_eq (h.relays r)
    exact ⟨hevents ▸ h.db.streams, by rw [hevents, hversions]; exact h.db.counters,
      by rw [hevents, hchannel, h.db.channel]⟩
  calls c :=
    (h.calls c).undisturbed (by rw [he.calls_eq]) (he.undisturbed h.engine (by simp))
      (by rw [he.drawn_eq]; exact List.Subset.refl _)
  relays r' := by
    by_cases hr : r' = r
    · exact hr ▸ he.relayInv_self (h.relays r)
    · exact (h.relays r').of_writes (he.relays_ne hr)
        (he.undisturbed h.engine (by simpa using hr)).writes
  drawn e hmem := by
    rw [he.drawn_eq]
    exact h.drawn e ((he.tables_eq (h.relays r)).1 ▸ hmem)
  noConflict c s v := by
    rw [he.calls_eq]
    exact h.noConflict c s v

/-- One step of the store preserves the invariant. -/
theorem inv_next {a : Action P} (h : σ.Inv) (hs : σ.next a = some σ') : σ'.Inv := by
  cases a with
  | call c step => exact (callEffect_of_next hs).inv h
  | relay r step => exact (relayEffect_of_next hs).inv h

/-- The invariant holds in every state of every run. -/
theorem inv_of_reachable (h : (system P).Reachable σ) : σ.Inv := by
  refine System.ReachBy.invariant ?_ ?_ h
  · rintro _ rfl
    exact State.inv_initial
  · exact fun _ _ _ _ hinv _ hs => inv_next hinv hs

end Invariant

/-! ### The committed events and the commits -/

section Log

variable {σ σ' : State P}

lemma CallEffect.of_commit {c : ℕ} {acknowledged : Bool}
    (he : CallEffect σ c (.commit acknowledged) σ') :
    ∃ kind e, (σ.calls c).ReadyToCommit kind e ∧ σ' = σ.commit c kind e acknowledged := by
  cases he with
  | committed kind e _ h => exact ⟨kind, e, h, rfl⟩
  | failed _ _ _ hf => cases hf

/-- The event an action would commit. -/
def State.committing (σ : State P) : Action P → Option (EventEnvelope P)
  | .call c (.commit _) => (σ.calls c).ready.map (·.2)
  | _ => none

/-- The committed events after a step. -/
theorem events_next {a : Action P} (h : σ.Inv) (hs : σ.next a = some σ') :
    σ'.db.events = σ.db.events ++ (σ.committing a).toList := by
  cases a with
  | call c step =>
    have he := callEffect_of_next hs
    rcases he.db_cases h with ⟨hdb, hcommits⟩ | ⟨ack, commit, rfl, hc⟩
    · have hnone : σ.committing (.call c step) = none := by
        cases step with
        | commit ack =>
          obtain ⟨kind, e, -, rfl⟩ := he.of_commit
          simp [State.commit] at hcommits
        | _ => rfl
      simp [hnone, hdb]
    · simp [State.committing, Call.ready_of_readyToCommit hc.ready, hc.db, Database.afterCommit]
  | relay r step =>
    have hevents := ((relayEffect_of_next hs).tables_eq (h.relays r)).1
    simp [State.committing, hevents]

/-- What the store has committed. -/
def State.commitLog (σ : State P) : CommitLog Int32 P := ⟨σ.commits, σ.db.events, σ.db.outbox⟩

/-- A step of the store commits one event, dispatches one entry or leaves what is committed. -/
theorem simulates_commitLog :
    System.Simulation (system P) (CommitLog.system Int32 P) State.commitLog where
  init := by
    rintro _ rfl
    rfl
  next σ a σ' h _ hs := by
    have hinv := inv_of_reachable h
    cases a with
    | call c step =>
      rcases (callEffect_of_next hs).db_cases hinv with ⟨hdb, hcommits⟩ | ⟨-, commit, -, hc⟩
      · exact .inl (by simp only [State.commitLog, hdb, hcommits])
      · refine .inr ⟨.commit commit, CommitLog.next_commit.mpr ⟨⟨?_, hc.drafted.idNew⟩, ?_⟩⟩
        · exact hc.drafted.version.value.symm.trans (hinv.db.counters _)
        · simp only [State.commitLog, hc.db, hc.commits, Database.afterCommit]
    | relay r step =>
      have he := relayEffect_of_next hs
      rcases he.db_cases (hinv.relays r) with hdb | ⟨o, now, -, hdb⟩
      · exact .inl (by simp only [State.commitLog, hdb, he.commits_eq])
      · refine .inr ⟨.dispatch o.eventId now, congrArg some ?_⟩
        simp only [State.commitLog, hdb, he.commits_eq, Database.apply]

/-- The tables hold what the commits have written. -/
theorem mirrors_of_reachable (h : (system P).Reachable σ) :
    Mirrors σ.commits σ.db.events σ.db.outbox :=
  CommitLog.mirrors_of_reachable (simulates_commitLog.reachable h)

/-- A step of the store appends one event to the log or leaves the log as it is. -/
theorem simulates_eventLog :
    System.Simulation (system P) (EventLog.system Int32 P) fun σ => σ.db.events :=
  simulates_commitLog.trans CommitLog.simulates_eventLog

lemma commits_grow (h : (system P).Reachable σ) (hl : (system P).Later σ σ') :
    σ.commits <+: σ'.commits :=
  CommitLog.prefix_of_later (simulates_commitLog.later h hl)

/-- A step of a call that does not commit leaves the tables. -/
lemma tables_eq_of_not_committed {c : ℕ} {step : CallStep P} {σ₁ σ₂ : State P}
    (h : (system P).Reachable σ₁) (hs : σ₁.callNext c step = some σ₂)
    (hl : (system P).Later σ₂ σ) (hc : ∀ commit ∈ σ.commits, commit.call ≠ c) :
    σ₂.db = σ₁.db := by
  rcases (callEffect_of_next hs).db_cases (inv_of_reachable h) with ⟨hdb, -⟩ | ⟨-, commit, -, hcom⟩
  · exact hdb
  · have hnext : (system P).next σ₁ (.call c step) = some σ₂ := hs
    have hmem : commit ∈ σ₂.commits := by simp [hcom.commits]
    exact absurd hcom.call (hc commit ((commits_grow (h.next hnext) hl).subset hmem))

end Log

/-! ### The positions are a run of the sequence -/

section Positions

variable {σ σ' : State P}

/-- The positions drawn and committed. -/
def State.positions (σ : State P) : Sequence ℕ String where
  last := σ.identity
  drafts c := (σ.calls c).draft
  log := σ.db.events.map fun e => (e.streamId, e.globalPosition)

/-- A call with an open draft holds the version row of its stream. -/
lemma holder_of_draft {c : ℕ} {d : String × Int} (h : σ.CallInv c)
    (hd : (σ.calls c).draft = some d) :
    σ.engine.holder (.streamVersion d.1) = some (.call c) := by
  cases hcall : σ.calls c with
  | positioned req v g =>
    simp only [State.CallInv, hcall] at h
    obtain rfl : (req.streamId, g) = d := by simpa [Call.draft, hcall] using hd
    exact h.1.holder
  | inserted kind e =>
    simp only [State.CallInv, hcall] at h
    obtain rfl : (e.streamId, e.globalPosition) = d := by simpa [Call.draft, hcall] using hd
    exact h.1.version.holder
  | outboxWritten e =>
    simp only [State.CallInv, hcall] at h
    obtain rfl : (e.streamId, e.globalPosition) = d := by simpa [Call.draft, hcall] using hd
    exact h.1.version.holder
  | _ => simp [Call.draft, hcall] at hd

/-- A stream is drawn for by one call at a time. -/
lemma freeClass_of_versioned {c : ℕ} {req : AppendRequest P} {v : Int} (h : σ.Inv)
    (hc : σ.calls c = .versioned req v) : σ.positions.FreeClass req.streamId := by
  intro c' d hd heq
  have hcall := h.calls c
  simp only [State.CallInv, hc] at hcall
  have hholder := holder_of_draft (h.calls c') hd
  rw [heq, hcall.1.holder] at hholder
  obtain rfl : c = c' := by simpa using hholder
  simp [State.positions, Call.draft, hc] at hd

lemma positions_putCall (engine : Engine P) (hdb : engine.db = σ.db) (c : ℕ) (call : Call P) :
    (σ.putCall c engine call).positions
      = { σ.positions with drafts := Function.update σ.positions.drafts c call.draft } := by
  refine Sequence.ext rfl (funext fun c' => ?_) (by simp [State.positions, hdb])
  by_cases hc : c' = c
  · subst hc
    simp [State.positions]
  · simp [State.positions, State.putCall, hc]

/-- Moving a call on without a new draft keeps the positions or gives the draft up. -/
lemma positions_keep (engine : Engine P) (hdb : engine.db = σ.db) {c : ℕ} {call : Call P}
    (h : call.draft = (σ.calls c).draft) :
    (σ.putCall c engine call).positions = σ.positions := by
  rw [positions_putCall engine hdb, h]
  simp [State.positions]

lemma positions_drop (engine : Engine P) (hdb : engine.db = σ.db) {c : ℕ} {call : Call P}
    (h : call.draft = none) : (σ.putCall c engine call).positions
      = { σ.positions with drafts := Function.update σ.positions.drafts c none } := by
  rw [positions_putCall engine hdb, h]

/-- What a step of an append call does to the positions. -/
lemma CallEffect.positions_next {c : ℕ} {step : CallStep P} (he : CallEffect σ c step σ')
    (h : σ.Inv) : σ'.positions = σ.positions ∨
      ∃ b, (Sequence.system ℕ String).next σ.positions b = some σ'.positions := by
  cases he with
  | started req hc => exact .inl (positions_keep σ.engine rfl (by simp [Call.draft, hc]))
  | versioned req v engine hc hv hw =>
    exact .inl (positions_keep engine (Txns.wrote_of_write hw).db (by simp [Call.draft, hc]))
  | positioned req v g hc hg =>
    refine .inr ⟨.draw c req.streamId g, ?_⟩
    have hnext := Sequence.next_draw (s := σ.positions) (t := c) hg (freeClass_of_versioned h hc)
    refine hnext.trans (congrArg some ?_)
    have hput := positions_putCall (σ := σ) σ.engine rfl c (.positioned req v g)
    exact Sequence.ext rfl (congrArg Sequence.drafts hput).symm rfl
  | inserted req e engine hc hgives hid hw =>
    have hdraft : Call.draft (.inserted req.kind e) = (σ.calls c).draft := by
      simp [Call.draft, hc, hgives.streamId]
    exact .inl (positions_keep engine (Txns.wrote_of_write hw).db hdraft)
  | outboxWritten e engine hc hw =>
    exact .inl (positions_keep engine (Txns.wrote_of_write hw).db (by simp [Call.draft, hc]))
  | committed kind e acknowledged hc =>
    have hdraft : σ.positions.drafts c = some (e.streamId, e.globalPosition) := hc.draft
    refine .inr ⟨.commit c, (Sequence.next_commit hdraft).trans (congrArg some ?_)⟩
    have hdb : (σ.commit c kind e acknowledged).db = σ.db.afterCommit ⟨c, kind, e⟩ := by
      rw [← applyAll_callWrites, ← (writes_of_ready (h.calls c) hc).2]
      rfl
    refine Sequence.ext rfl (funext fun c' => ?_) ?_
    · by_cases hc' : c' = c
      · subst hc'
        simp [State.positions, State.commit, Call.draft]
      · simp [State.positions, State.commit, State.putCall, hc']
    · simp [State.positions, hdb, Database.afterCommit]
  | conflict => exact .inr ⟨.drop c, congrArg some (positions_drop σ.engine rfl rfl).symm⟩
  | failed => exact .inr ⟨.drop c, congrArg some (positions_drop σ.engine rfl rfl).symm⟩
  | aborted =>
    exact .inr ⟨.drop c, congrArg some (positions_drop (σ.engine.rollback _) rfl rfl).symm⟩
  | ended =>
    exact .inr ⟨.drop c, congrArg some (positions_drop (σ.engine.rollback _) rfl rfl).symm⟩

/-- The positions drawn, dropped and committed are a run of the sequence. -/
theorem simulates_sequence :
    System.Simulation (system P) (Sequence.system ℕ String) State.positions where
  init := by
    rintro _ rfl
    rfl
  next σ a σ' h _ hs := by
    have hinv := inv_of_reachable h
    cases a with
    | call c step => exact (callEffect_of_next hs).positions_next hinv
    | relay r step =>
      have he := relayEffect_of_next hs
      have hidentity : σ'.identity = σ.identity := by
        cases he <;> rfl
      left
      simp only [State.positions, he.calls_eq, hidentity, (he.tables_eq (hinv.relays r)).1]

lemma position_pos (h : (system P).Reachable σ) {e : EventEnvelope P} (he : e ∈ σ.db.events) :
    0 < e.globalPosition :=
  (Sequence.ordered_of_reachable (simulates_sequence.reachable h)).logPos _
    (List.mem_map_of_mem (f := fun e : EventEnvelope P => (e.streamId, e.globalPosition)) he)

/-- Positions differ, and ascend within each stream. -/
theorem positions_follow (h : (system P).Reachable σ) :
    σ.db.events.Pairwise fun e e' => e.globalPosition ≠ e'.globalPosition ∧
      (e.streamId = e'.streamId → e.globalPosition < e'.globalPosition) :=
  List.pairwise_map.mp (Sequence.ordered_of_reachable (simulates_sequence.reachable h)).log

lemma positions_nodup (h : (system P).Reachable σ) :
    (σ.db.events.map (·.globalPosition)).Nodup :=
  List.pairwise_map.mpr ((positions_follow h).imp fun he => he.1)

/-- Within a stream the order of the commits is that of the versions and of the positions. -/
lemma stream_ascends (h : (system P).Reachable σ) (s : String) :
    (σ.db.events.filter (·.streamId = s)).Pairwise fun e e' =>
      e.streamVersion < e'.streamVersion ∧ e.globalPosition < e'.globalPosition := by
  have hversions := List.pairwise_map.mp (Numbered.sorted (inv_of_reachable h).db.streams s)
  have hpositions : (σ.db.events.filter (·.streamId = s)).Pairwise fun e e' =>
      e.globalPosition < e'.globalPosition := by
    refine List.pairwise_filter.mpr ((positions_follow h).imp fun {e e'} he hs hs' => he.2 ?_)
    rw [of_decide_eq_true hs, of_decide_eq_true hs']
  exact hversions.and hpositions

/-- Of two events of a stream the one of the smaller version has the smaller position. -/
lemma position_lt_of_version_lt (h : (system P).Reachable σ) {e e' : EventEnvelope P}
    (he : e ∈ σ.db.events) (he' : e' ∈ σ.db.events) (hs : e.streamId = e'.streamId)
    (hv : e.streamVersion < e'.streamVersion) : e.globalPosition < e'.globalPosition :=
  (inv_of_reachable h).db.streams.position_lt (fun s => (stream_ascends h s).imp And.right) he he'
    hs hv

end Positions

/-! ### Every run -/

section Runs

variable {σ : State P}

/-- In every committed state of every run the versions of each stream run from `0` without a
gap and its version row counts them; positions are distinct; the events stand in commit order,
which within each stream is the order of the versions and of the positions; a call that has
returned an error and not committed has left the tables alone at every step; and no call has
returned a concurrency conflict. -/
theorem append_runs_ordered (h : (system P).Reachable σ) :
    (∀ s, (σ.db.events.filter (·.streamId = s)).map (·.streamVersion)
        = (List.range (streamLength σ.db.events s)).map (fun i : ℕ => (i : Int)) ∧
      (σ.db.streamVersions s).getD 0 = streamLength σ.db.events s) ∧
    (σ.db.events.map (·.globalPosition)).Nodup ∧
    σ.db.events = σ.commits.map (·.envelope) ∧
    (∀ s, (σ.db.events.filter (·.streamId = s)).Pairwise fun e e' =>
      e.streamVersion < e'.streamVersion ∧ e.globalPosition < e'.globalPosition) ∧
    (∀ c error, σ.calls c = .returned (.error error) →
      (∀ commit ∈ σ.commits, commit.call ≠ c) →
      ∀ σ₁ step σ₂, (system P).Reachable σ₁ → σ₁.callNext c step = some σ₂ →
        (system P).Later σ₂ σ → σ₂.db.events = σ₁.db.events ∧
          σ₂.db.streamVersions = σ₁.db.streamVersions ∧ σ₂.db.outbox = σ₁.db.outbox) ∧
    ∀ c s v, σ.calls c ≠ .returned (.error (.concurrencyConflict s v)) := by
  have hinv := inv_of_reachable h
  refine ⟨?_, positions_nodup h, (mirrors_of_reachable h).events_eq, ?_, ?_, hinv.noConflict⟩
  · intro s
    exact ⟨hinv.db.streams s, hinv.db.counters s⟩
  · exact stream_ascends h
  · intro c error _ hc σ₁ step σ₂ h₁ hs hl
    have hdb := tables_eq_of_not_committed h₁ hs hl hc
    exact ⟨by rw [hdb], by rw [hdb], by rw [hdb]⟩

/-- Two streams whose positions commit in the other order, and a call that is rolled back
after its `INSERT`. -/
def interleavedRun : List (Action ℕ) :=
  let req (s : String) : AppendRequest ℕ := ⟨.appendWithOutbox, s, "OrderPlaced", 1, some 0⟩
  [.call 0 (.invoke (req "order-1")), .call 1 (.invoke { req "order-2" with kind := .append }),
    .call 0 .advanceVersion, .call 1 .advanceVersion, .call 0 (.drawPosition 1),
    .call 1 (.drawPosition 2), .call 0 (.insertEvent "e0" "t0"), .call 1 (.insertEvent "e1" "t1"),
    .call 1 (.commit true), .call 0 .insertOutbox, .call 0 (.commit true),
    .call 2 (.invoke (req "order-1")), .call 2 .advanceVersion, .call 2 (.drawPosition 3),
    .call 2 (.insertEvent "e2" "t2"), .call 2 .abort,
    .call 2 (.fail "failed to write integration-event outbox entry"),
    .call 3 (.invoke (req "order-1")), .call 3 .advanceVersion, .call 3 (.drawPosition 4),
    .call 3 (.insertEvent "e3" "t3"), .call 3 .insertOutbox, .call 3 (.commit true)]

theorem append_runs_ordered_interleaved :
    let σ := (system ℕ).after interleavedRun .initial
    σ.db.events.map (fun e => (e.streamId, e.streamVersion, e.globalPosition))
        = [("order-2", 0, 2), ("order-1", 0, 1), ("order-1", 1, 4)] ∧
      (σ.db.streamVersions "order-1").getD 0 = 2 ∧
      (σ.db.events.map (·.globalPosition)).Nodup ∧
      ∀ c s v, σ.calls c ≠ .returned (.error (.concurrencyConflict s v)) := by
  have h := append_runs_ordered (P := ℕ)
    (System.reachable_after interleavedRun init_initial (by decide))
  exact ⟨by decide, (h.1 "order-1").2.trans (by decide), h.2.1, h.2.2.2.2.2⟩

end Runs

end EventSourcing.Postgres
