import EventSourcing.Concurrency.CatchUp
import EventSourcing.Store.CallMoves
import EventSourcing.Store.EventLog

/-!
# Clients that rehydrate a stream and then append to it

A client reads the events of a stream, which gives it a state and the last version it has
seen, and then calls `append` or `append_with_outbox` on the stream. Client `k` makes append
call `k`. The clients are listed in the order in which they start to read.

`append` is not told the version the client has seen. What the client can rely on is
`ClientInv`: as long as nobody else commits to the stream, the version it has seen is the last.
-/

namespace EventSourcing

open Concurrency EventLog

variable {V P A : Type}

/-- The loop of `rehydrate`: the state and the last version after the rows. `apply` upcasts an
event and applies it to the aggregate, or skips it. -/
def rehydrate (apply : A → EventEnvelope V P → A) (default : A)
    (rows : List (EventEnvelope V P)) : A × Int :=
  rows.foldl (fun (state, _) e => (apply state e, e.streamVersion)) (default, -1)

/-- The events of stream `s`, in the order of the commits. -/
def streamEvents (events : List (EventEnvelope V P)) (s : String) : List (EventEnvelope V P) :=
  events.filter fun e => e.streamId = s

inductive Client (V P A : Type) where
  /-- `rehydrate` is at work, with what it has computed so far -/
  | reading (s : String) (cursor : Cursor (EventEnvelope V P) Int) (state : A)
      (lastVersion : Int)
  /-- `rehydrate` has returned -/
  | rehydrated (s : String) (state : A) (lastVersion : Int)

namespace Client

/-- The stream the client has rehydrated. -/
def stream? : Client V P A → Option String
  | .reading _ _ _ _ => none
  | .rehydrated s _ _ => some s

end Client

/-- The client has made its last read of stream `s`, and its append has not returned. -/
def Client.Relies (s : String) (call : Call V P) : Client V P A → Prop
  | .reading s' cursor _ _ => s' = s ∧ cursor.exhausted = true
  | .rehydrated s' _ _ => s' = s ∧ call.isReturned = false

instance (s : String) (call : Call V P) : (client : Client V P A) → Decidable (client.Relies s call)
  | .reading _ _ _ _ => inferInstanceAs (Decidable (_ ∧ _))
  | .rehydrated _ _ _ => inferInstanceAs (Decidable (_ ∧ _))

/-- What a client that has seen version `v` of stream `s` expects of its append call `k`. -/
def Guarded (call : Call V P) (events : List (EventEnvelope V P)) (commits : List (Commit V P))
    (k : ℕ) (s : String) (v : Int) : Prop :=
  match call with
  | .returned (.ok e) => e ∈ events ∧ e.streamId = s ∧ e.streamVersion = v + 1
  | .returned (.error error) =>
    (∃ expected, error = .concurrencyConflict s expected) ∧
      ∀ commit ∈ commits, commit.call ≠ k
  | _ => True

lemma Guarded.version {call : Call V P} {events : List (EventEnvelope V P)}
    {commits : List (Commit V P)} {k : ℕ} {s : String} {v : Int} {e : EventEnvelope V P}
    (h : Guarded call events commits k s v) (hcall : call = .returned (.ok e)) :
    e.streamVersion = v + 1 := by
  subst hcall
  exact h.2.2

/-! ### What a client has seen -/

section Client

variable {apply : A → EventEnvelope V P → A} {default : A} {events rows : List (EventEnvelope V P)}
  {e : EventEnvelope V P} {s : String} {state : A} {v : Int} {call call' : Call V P}
  {client : Client V P A}

@[simp] lemma mem_streamEvents : e ∈ streamEvents events s ↔ e ∈ events ∧ e.streamId = s := by
  simp [streamEvents]

lemma streamEvents_snoc : streamEvents (events ++ [e]) s
    = streamEvents events s ++ if e.streamId = s then [e] else [] := by
  simp [streamEvents, List.filter_singleton]

lemma rehydrate_snoc : rehydrate apply default (rows ++ [e])
    = (apply (rehydrate apply default rows).1 e, e.streamVersion) := by
  simp [rehydrate]

lemma versions_ascending (h : StreamsNumbered events) (s : String) :
    ((streamEvents events s).map (·.streamVersion)).Pairwise (· < ·) :=
  Numbered.sorted h s

/-- Rows that ascend and are all the events of the stream end in its last version. -/
lemma lastVersion_eq (apply : A → EventEnvelope V P → A) (default : A)
    (h : StreamsNumbered events)
    (hrows : (rows.map (·.streamVersion)).Pairwise (· < ·))
    (hall : ∀ e, e ∈ rows ↔ e ∈ streamEvents events s) :
    (rehydrate apply default rows).2 + 1 = streamLength events s := by
  rcases List.eq_nil_or_concat rows with rfl | ⟨init, e, rfl⟩
  · have hnone : streamLength events s = 0 := by
      by_contra hne
      obtain ⟨e, he, hs, -⟩ := Numbered.exists_of_lt h (Nat.pos_of_ne_zero hne)
      simpa using (hall e).mpr (mem_streamEvents.mpr ⟨he, hs⟩)
    simp [rehydrate, hnone]
  · rw [List.concat_eq_append] at hrows hall ⊢
    obtain ⟨he, hs⟩ := mem_streamEvents.mp ((hall e).mp (by simp))
    obtain ⟨hpos, hlt⟩ := Numbered.bounds h he
    rw [hs] at hlt
    -- the event with the last version is among the rows
    obtain ⟨e', he', hs', hv'⟩ := Numbered.exists_of_lt h (k := s)
      (i := streamLength events s - 1) (by simp only [streamLength] at *; omega)
    have hle : e'.streamVersion ≤ e.streamVersion := by
      rw [List.map_append, List.pairwise_append] at hrows
      rcases List.mem_append.mp ((hall e').mpr (mem_streamEvents.mpr ⟨he', hs'⟩)) with hinit | heq
      · exact (hrows.2.2 _ (List.mem_map_of_mem hinit) _ (by simp)).le
      · rw [List.mem_singleton.mp heq]
    rw [rehydrate_snoc]
    simp only [streamLength] at *
    omega

/-- What a client relies on, by how far it and its call have come. -/
def ClientInv (apply : A → EventEnvelope V P → A) (default : A) (call : Call V P)
    (events : List (EventEnvelope V P)) : Client V P A → Prop
  | .reading s cursor state v =>
    call = .idle ∧ ∃ rows,
      cursor.Reads EventEnvelope.streamVersion ⊥ (streamEvents events s) rows ∧
        rehydrate apply default rows = (state, v)
  | .rehydrated s _ v =>
    (∃ e, call = .returned (.ok e) ∧ e ∈ events ∧ e.streamId = s ∧ e.streamVersion = v + 1) ∨
      ((call = .idle ∨ call.stream? = some s) ∧ v + 1 = streamLength events s)

lemma clientInv_opened : ClientInv apply default .idle events
    (.reading s (.opened ⊥) default (-1)) :=
  ⟨rfl, [], Cursor.reads_opened, rfl⟩

lemma ClientInv.fetch {c c' : Cursor (EventEnvelope V P) Int} {n : ℕ}
    (h : ClientInv apply default call events (.reading s c state v))
    (hevents : StreamsNumbered events)
    (hs : c.fetch (·.streamVersion) (streamEvents events s) n = some c') :
    ClientInv apply default call events (.reading s c' state v) := by
  obtain ⟨hcall, rows, hreads, hrows⟩ := h
  exact ⟨hcall, rows, hreads.fetch ((versions_ascending hevents s).imp ne_of_lt) hs, hrows⟩

lemma ClientInv.take {c c' : Cursor (EventEnvelope V P) Int}
    (h : ClientInv apply default call events (.reading s c state v))
    (hs : c.take = some (e, c')) :
    ClientInv apply default call events (.reading s c' (apply state e) e.streamVersion) := by
  obtain ⟨hcall, rows, hreads, hrows⟩ := h
  exact ⟨hcall, rows ++ [e], hreads.take hs, by rw [rehydrate_snoc, hrows]⟩

lemma ClientInv.finish {c : Cursor (EventEnvelope V P) Int}
    (h : ClientInv apply default call events (.reading s c state v))
    (hevents : StreamsNumbered events) (hc : c.Drained) :
    ClientInv apply default call events (.rehydrated s state v) := by
  obtain ⟨hcall, rows, hreads, hrows⟩ := h
  have hascending := hreads.ascending
  have hall : ∀ e, e ∈ rows ↔ e ∈ streamEvents events s := fun e =>
    ⟨fun he => (hreads.read e (List.mem_append_left _ he)).1,
      fun he => hreads.drained hc e he (WithBot.bot_lt_coe _)⟩
  rw [hc.2, List.append_nil] at hascending
  have hv := lastVersion_eq apply default hevents hascending hall
  rw [hrows] at hv
  exact .inr ⟨.inl hcall, hv⟩

/-- The rows of one `SELECT` are all the events of the stream in the order of the versions. -/
lemma clientInv_selected (hevents : StreamsNumbered events)
    (hrows : rows = (streamEvents events s).insertionSort
      fun e e' => e.streamVersion ≤ e'.streamVersion) :
    ClientInv apply default .idle events
      (.rehydrated s (rehydrate apply default rows).1 (rehydrate apply default rows).2) := by
  subst hrows
  exact .inr ⟨.inl rfl, lastVersion_eq apply default hevents
    (Cursor.insertionSort_ascending ((versions_ascending hevents s).imp ne_of_lt))
    fun e => List.mem_insertionSort _⟩

/-! ### What a step of the store does to a client -/

/-- What a step of an append call that does not fail makes of the call and the events. -/
inductive Advance (call : Call V P) (events : List (EventEnvelope V P)) :
    Call V P → List (EventEnvelope V P) → Prop where
  | started (req : AppendRequest V P) (h : call = .idle) : Advance call events (.started req) events
  | moved (call' : Call V P) (s : String) (h : call.stream? = some s)
      (h' : call'.stream? = some s) : Advance call events call' events
  | committed (e : EventEnvelope V P) (h : call.stream? = some e.streamId)
      (hv : e.streamVersion = streamLength events e.streamId) :
      Advance call events (.returned (.ok e)) (events ++ [e])
  | ended : Advance call events call events

/-- A step of a call that goes on advances the call. -/
lemma Call.Moves.advance {request : Option (AppendRequest V P)}
    {committing : Option (EventEnvelope V P)} (h : call.Moves request call' committing)
    (hgoing : call'.Going ∨ call' = call)
    (hversion : ∀ e ∈ committing, e.streamVersion = streamLength events e.streamId) :
    Advance call events call' (events ++ committing.toList) := by
  cases h with
  | started req hc => simpa using Advance.started req hc
  | versioned req v hc =>
    simpa using Advance.moved (.versioned req v) req.streamId (by simp [hc, Call.stream?]) rfl
  | positioned req v g hc =>
    simpa using Advance.moved (.positioned req v g) req.streamId (by simp [hc, Call.stream?]) rfl
  | inserted req e hc hgives =>
    simpa using Advance.moved (.inserted req.kind e) req.streamId (by simp [hc, Call.stream?])
      (congrArg some hgives.streamId)
  | outboxWritten e hc =>
    simpa using Advance.moved (.outboxWritten e) e.streamId (by simp [hc, Call.stream?]) rfl
  | committed kind e result hc hresult =>
    rcases hgoing with hgoing | hsame
    · cases result with
      | ok e' =>
        obtain rfl := hresult e' rfl
        exact Advance.committed e' hc.stream? (hversion e' rfl)
      | error => exact hgoing.elim
    · exact absurd hsame.symm (hc.ne_returned _)
  | failed error hc => exact (hgoing.elim id fun hsame => hc _ hsame.symm).elim
  | aborted contexts hc =>
    rcases hgoing with hgoing | hsame
    · exact hgoing.elim
    · simpa [← hsame] using Advance.ended
  | ended result hc => simpa [hc] using Advance.ended

lemma ClientInv.advance {events' : List (EventEnvelope V P)}
    (h : ClientInv apply default call events client) (ha : Advance call events call' events')
    (hstarted : ∀ req, call = .idle → call' = .started req → client.stream? = some req.streamId) :
    ClientInv apply default call' events' client := by
  cases client with
  | reading s c state v =>
    cases ha with
    | started req hcall => exact absurd (hstarted req hcall rfl) (by simp [Client.stream?])
    | moved call' s' hs => simp [h.1, Call.stream?] at hs
    | committed e hs => simp [h.1, Call.stream?] at hs
    | ended => exact h
  | rehydrated s state v =>
    rcases h with ⟨e, rfl, he, hs, hv⟩ | ⟨hcall, hv⟩
    · cases ha with
      | started req hcall => cases hcall
      | moved call' s' hs' => cases hs'
      | committed e' hs' => cases hs'
      | ended => exact .inl ⟨e, rfl, he, hs, hv⟩
    · cases ha with
      | started req hidle =>
        have hreq := hstarted req hidle rfl
        exact .inr ⟨.inr hreq.symm, hv⟩
      | moved call' s' hs' hs'' =>
        rcases hcall with rfl | hcall
        · cases hs'
        · exact .inr ⟨.inr (by rw [hs'', ← hs', hcall]), hv⟩
      | committed e hs' hve =>
        rcases hcall with rfl | hcall
        · cases hs'
        · obtain rfl : s = e.streamId := Option.some.inj (hcall.symm.trans hs')
          exact .inl ⟨e, rfl, by simp, rfl, hve.trans hv.symm⟩
      | ended => exact .inr ⟨hcall, hv⟩

/-- A cursor that is not exhausted will read what is committed to its stream. -/
lemma reads_commit {c : Cursor (EventEnvelope V P) Int}
    (h : c.Reads EventEnvelope.streamVersion ⊥ (streamEvents events s) rows)
    (hevents : StreamsNumbered (events ++ [e])) (hex : e.streamId = s → c.exhausted = false) :
    c.Reads EventEnvelope.streamVersion ⊥ (streamEvents (events ++ [e]) s) rows := by
  rw [streamEvents_snoc]
  split_ifs with hs
  · refine h.append ?_
    intro e' he' _
    obtain rfl : e' = e := by simpa using he'
    refine h.ahead (hex hs) ?_ (WithBot.bot_lt_coe _)
    have hascending := versions_ascending hevents s
    rw [streamEvents_snoc, if_pos hs, List.map_append, List.pairwise_append] at hascending
    exact fun e'' he'' => hascending.2.2 _ (List.mem_map_of_mem he'') _ (by simp)
  · simpa using h

/-- A commit of someone else to a stream the client does not rely on. -/
lemma ClientInv.commit (h : ClientInv apply default call events client)
    (hevents : StreamsNumbered (events ++ [e])) (hrelies : ¬ client.Relies e.streamId call) :
    ClientInv apply default call (events ++ [e]) client := by
  cases client with
  | reading s c state v =>
    obtain ⟨hcall, rows, hreads, hrows⟩ := h
    refine ⟨hcall, rows, reads_commit hreads hevents fun hs => ?_, hrows⟩
    simpa [Client.Relies, hs] using hrelies
  | rehydrated s state v =>
    rcases h with ⟨e', hcall, he', hs, hv⟩ | ⟨hcall, hv⟩
    · exact .inl ⟨e', hcall, List.mem_append_left _ he', hs, hv⟩
    · have hne : e.streamId ≠ s := by
        rintro rfl
        refine hrelies ⟨rfl, ?_⟩
        rcases hcall with rfl | hcall
        · rfl
        · cases call with
          | returned => cases hcall
          | _ => rfl
      exact .inr ⟨hcall, by simp [streamLength_snoc, hne, hv]⟩

end Client

/-! ### A client among the others -/

section Clients

variable {apply : A → EventEnvelope V P → A} {default : A}
  {events events' : List (EventEnvelope V P)} {call call' : Call V P}
  {clients : List (Client V P A)} {client : Client V P A} {j k : ℕ}

/-- What client `k` relies on; before it joins there is no call `k`. -/
structure ClientAt (apply : A → EventEnvelope V P → A) (default : A) (k : ℕ) (call : Call V P)
    (events : List (EventEnvelope V P)) (clients : List (Client V P A)) : Prop where
  joined : ∀ client, clients[k]? = some client → ClientInv apply default call events client
  absent : clients[k]? = none → call = .idle

lemma ClientAt.join (h : ClientAt apply default k call events clients)
    (hclient : ClientInv apply default .idle events client) :
    ClientAt apply default k call events (clients ++ [client]) where
  joined := process_join h.joined fun heq => by
    rw [h.absent (List.getElem?_eq_none heq.ge)]
    exact hclient
  absent hk := h.absent (by simp at hk ⊢; omega)

lemma ClientAt.set (h : ClientAt apply default k call events clients)
    (hclient : j = k → ClientInv apply default call events client) :
    ClientAt apply default k call events (clients.set j client) where
  joined := process_set h.joined hclient
  absent hk := h.absent (by simpa using hk)

/-- A step of the client's own call that does not fail. -/
lemma ClientAt.advance (h : ClientAt apply default k call events clients)
    (ha : Advance call events call' events')
    (hstarted : ∀ req, call = .idle → call' = .started req →
      clients[k]?.bind Client.stream? = some req.streamId) :
    ClientAt apply default k call' events' clients where
  joined client hk := by
    refine (h.joined client hk).advance ha ?_
    intro req hidle hreq
    simpa [hk] using hstarted req hidle hreq
  absent hk := by
    have hidle := h.absent hk
    cases ha with
    | started req => simpa [hk] using hstarted req hidle rfl
    | moved call' s hs => simp [hidle, Call.stream?] at hs
    | committed e hs => simp [hidle, Call.stream?] at hs
    | ended => exact hidle

/-- A step of anyone else, who may commit to a stream the client does not rely on. -/
lemma ClientAt.other {committing : Option (EventEnvelope V P)}
    (h : ClientAt apply default k call events clients)
    (hevents : StreamsNumbered (events ++ committing.toList))
    (hrelies : ∀ e ∈ committing, ∀ client ∈ clients[k]?, ¬ client.Relies e.streamId call) :
    ClientAt apply default k call (events ++ committing.toList) clients where
  joined client hk := by
    cases committing with
    | none => simpa using h.joined client hk
    | some e => exact (h.joined client hk).commit hevents (hrelies e rfl client hk)
  absent := h.absent

/-- A step of the store: the client's own call goes on, or someone else commits to a stream the
client does not rely on. -/
lemma ClientAt.next {S B : Type} {M : System S B} {view : CallView S B V P} {σ σ' : S} {b : B}
    (hlaws : view.Laws M) (hσ : M.Reachable σ) (hs : M.next σ b = some σ')
    (hnumbered : StreamsNumbered (view.events σ'))
    (h : ClientAt apply default k (view.calls σ k) (view.events σ) clients)
    (hrehydrated : view.callOf b = some k → ∀ req ∈ view.request? b,
      clients[k]?.bind Client.stream? = some req.streamId)
    (hgoing : view.callOf b = some k →
      (view.calls σ' k).Going ∨ view.calls σ' k = view.calls σ k)
    (hother : view.callOf b ≠ some k → ∀ e ∈ view.committing σ b, ∀ client ∈ clients[k]?,
      ¬ client.Relies e.streamId (view.calls σ k)) :
    ClientAt apply default k (view.calls σ' k) (view.events σ') clients := by
  have hevents := hlaws.commits hσ hs
  rw [hevents] at hnumbered ⊢
  by_cases hown : view.callOf b = some k
  · have hmoves := hlaws.own hs hown
    refine h.advance (hmoves.advance (hgoing hown) ?_) ?_
    · intro e he
      rw [Option.mem_def.mp he] at hnumbered
      exact (Numbered.of_snoc hnumbered).2
    · intro req hidle hstarted
      exact hrehydrated hown req (hmoves.request_of_started hidle hstarted)
  · rw [hlaws.other hs hown]
    exact h.other hnumbered (hother hown)

lemma ClientAt.guarded {commits : List (Commit V P)} {s : String} {state : A} {v : Int}
    (h : ClientAt apply default k call events clients)
    (hk : clients[k]? = some (.rehydrated s state v)) : Guarded call events commits k s v := by
  rcases h.joined _ hk with ⟨e, rfl, he, hs, hv⟩ | ⟨hcall, -⟩
  · exact ⟨he, hs, hv⟩
  · cases call with
    | returned result => simp [Call.stream?] at hcall
    | _ => trivial

end Clients

end EventSourcing
