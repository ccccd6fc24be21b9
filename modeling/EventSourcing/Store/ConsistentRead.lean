import EventSourcing.Store.Rehydrate
import Mathlib.Data.List.Induction

/-!
# What a rehydration reads

A stream is read while events are committed. What the client ends up with is nevertheless the
whole stream as it was at one moment of the read: an event that is committed while the cursor is
open comes after all that were there, so the cursor reads it as well, up to the read that finds
the end.
-/

namespace EventSourcing

open Concurrency EventLog

variable {V P A : Type}

/-- What a client has read; `past` holds of the logs that the store has had since the client
came. -/
def Client.Exact (apply : A → EventEnvelope V P → A) (default : A)
    (past : List (EventEnvelope V P) → Prop) (events : List (EventEnvelope V P)) :
    Client V P A → Prop
  | .reading s cursor state v => ∃ rows, rehydrate apply default rows = (state, v) ∧
      if cursor.exhausted then ∃ log, past log ∧ rows ++ cursor.fetched = streamEvents log s
      else cursor.Reads EventEnvelope.streamVersion ⊥ (streamEvents events s) rows
  | .rehydrated s state v =>
    ∃ log, past log ∧ rehydrate apply default (streamEvents log s) = (state, v)

namespace Client

variable {apply : A → EventEnvelope V P → A} {default state : A}
  {past past' : List (EventEnvelope V P) → Prop} {events rows : List (EventEnvelope V P)}
  {e : EventEnvelope V P} {s : String} {v : Int} {c c' : Cursor (EventEnvelope V P) Int}
  {client : Client V P A}

lemma exact_opened : Exact apply default past events (.reading s (.opened ⊥) default (-1)) :=
  ⟨[], rfl, Cursor.reads_opened⟩

/-- A read that finds the end has found the stream as it is. -/
lemma Exact.fetch {n : ℕ} (h : Exact apply default past events (.reading s c state v))
    (hevents : StreamsNumbered events) (hpast : past events)
    (hs : c.fetch (·.streamVersion) (streamEvents events s) n = some c') :
    Exact apply default past events (.reading s c' state v) := by
  obtain ⟨rows, hrows, hread⟩ := h
  have hex : c.exhausted = false := by
    simp only [Cursor.fetch] at hs
    split_ifs at hs with hex
    exact Bool.eq_false_of_not_eq_true hex
  rw [if_neg (by simp [hex])] at hread
  have hascending := versions_ascending hevents s
  have hread' := hread.fetch (hascending.imp ne_of_lt) hs
  refine ⟨rows, hrows, ?_⟩
  split_ifs with hex'
  · exact ⟨events, hpast, hread'.complete hex' hascending⟩
  · exact hread'

lemma Exact.take (h : Exact apply default past events (.reading s c state v))
    (hs : c.take = some (e, c')) :
    Exact apply default past events (.reading s c' (apply state e) e.streamVersion) := by
  obtain ⟨rows, hrows, hread⟩ := h
  obtain ⟨hfetched, -, hex⟩ := Cursor.take_eq_some hs
  refine ⟨rows ++ [e], by rw [rehydrate_snoc, hrows], ?_⟩
  rw [hex]
  split_ifs at hread ⊢ with hexhausted
  · obtain ⟨log, hlog, hrows⟩ := hread
    refine ⟨log, hlog, ?_⟩
    rw [← hrows, hfetched, List.append_assoc, List.singleton_append]
  · exact hread.take hs

lemma Exact.finish (h : Exact apply default past events (.reading s c state v))
    (hc : c.Drained) : Exact apply default past events (.rehydrated s state v) := by
  obtain ⟨rows, hrows, hread⟩ := h
  rw [if_pos hc.1] at hread
  obtain ⟨log, hlog, heq⟩ := hread
  rw [hc.2, List.append_nil] at heq
  exact ⟨log, hlog, by rw [← heq, hrows]⟩

/-- One `SELECT` in the order of the versions reads the stream as it is. -/
lemma exact_selected (hevents : StreamsNumbered events) (hpast : past events)
    (hrows : rows = (streamEvents events s).insertionSort
      fun e e' => e.streamVersion ≤ e'.streamVersion) :
    Exact apply default past events
      (.rehydrated s (rehydrate apply default rows).1 (rehydrate apply default rows).2) := by
  have hsorted : (streamEvents events s).Pairwise fun e e' => e.streamVersion ≤ e'.streamVersion :=
    (List.pairwise_map.mp (versions_ascending hevents s)).imp le_of_lt
  rw [hsorted.insertionSort_eq] at hrows
  exact ⟨events, hpast, by rw [hrows]⟩

/-- What a client has read while the store goes on. -/
lemma Exact.commit {committing : Option (EventEnvelope V P)}
    (h : Exact apply default past events client)
    (hevents : StreamsNumbered (events ++ committing.toList)) :
    Exact apply default past (events ++ committing.toList) client := by
  cases client with
  | rehydrated s state v => exact h
  | reading s c state v =>
    obtain ⟨rows, hrows, hread⟩ := h
    refine ⟨rows, hrows, ?_⟩
    split_ifs at hread ⊢ with hex
    · exact hread
    · cases committing with
      | none => simpa using hread
      | some e => exact reads_commit hread hevents fun _ => Bool.eq_false_of_not_eq_true hex

lemma Exact.mono (h : Exact apply default past events client)
    (hpast : ∀ log, past log → past' log) : Exact apply default past' events client := by
  cases client with
  | rehydrated s state v =>
    obtain ⟨log, hlog, heq⟩ := h
    exact ⟨log, hpast log hlog, heq⟩
  | reading s c state v =>
    obtain ⟨rows, hrows, hread⟩ := h
    refine ⟨rows, hrows, ?_⟩
    split_ifs at hread ⊢ with hex
    · obtain ⟨log, hlog, heq⟩ := hread
      exact ⟨log, hpast log hlog, heq⟩
    · exact hread

end Client

/-! ### What the loop gives for a whole stream -/

lemma rehydrate_fst (apply : A → EventEnvelope V P → A) (default : A)
    (rows : List (EventEnvelope V P)) :
    (rehydrate apply default rows).1 = rows.foldl apply default := by
  induction rows using List.reverseRecOn with
  | nil => rfl
  | append_singleton rows e ih => rw [rehydrate_snoc, List.foldl_append, ih]; rfl

/-- The last version is the number of the events minus one. -/
lemma rehydrate_streamEvents {log : List (EventEnvelope V P)} (hlog : StreamsNumbered log)
    (apply : A → EventEnvelope V P → A) (default : A) (s : String) :
    rehydrate apply default (streamEvents log s)
      = ((streamEvents log s).foldl apply default, ((streamEvents log s).length : Int) - 1) := by
  have hlast := lastVersion_eq apply default hlog (versions_ascending hlog s) fun _ => Iff.rfl
  have hlength : streamLength log s = (streamEvents log s).length := List.countP_eq_length_filter
  rw [hlength] at hlast
  rw [← rehydrate_fst apply default, ← hlast, Int.add_sub_cancel]

/-! ### Moments of a run -/

section Between

variable {S B : Type*} {M : System S B} {events : S → List (EventEnvelope V P)} {p₀ p p' : S}
  {log : List (EventEnvelope V P)}

/-- `log` is what the store has had at a moment between two states of a run. -/
def Between (M : System S B) (events : S → List (EventEnvelope V P)) (p₀ p : S)
    (log : List (EventEnvelope V P)) : Prop :=
  ∃ r, M.Later p₀ r ∧ M.Later r p ∧ events r = log

lemma between_now (events : S → List (EventEnvelope V P)) (hl : M.Later p₀ p) :
    Between M events p₀ p (events p) := ⟨p, hl, .refl, rfl⟩

lemma Between.next {b : B} (h : Between M events p₀ p log) (hs : M.next p b = some p') :
    Between M events p₀ p' log := by
  obtain ⟨r, h₀, hr, rfl⟩ := h
  exact ⟨r, h₀, hr.tail ⟨b, hs⟩, rfl⟩

end Between

lemma streamEvents_append_elsewhere {events : List (EventEnvelope V P)}
    {committing : Option (EventEnvelope V P)} {s : String}
    (h : ∀ e ∈ committing, e.streamId ≠ s) :
    streamEvents (events ++ committing.toList) s = streamEvents events s := by
  have hnone : streamEvents committing.toList s = [] := by
    refine List.filter_eq_nil_iff.mpr ?_
    intro e he
    simpa using h e (Option.mem_toList.mp he)
  rw [streamEvents, List.filter_append, ← streamEvents, ← streamEvents, hnone, List.append_nil]

/-! ### Clients of a store -/

section Store

variable {S B C : Type}

/-- A store whose log only grows and numbers its streams, with clients that read streams of
it. -/
structure ReadsStreams (M : System S B) (O : Observer S (List (Client V P A)) C)
    (events : S → List (EventEnvelope V P)) (committing : S → B → Option (EventEnvelope V P))
    (apply : A → EventEnvelope V P → A) (default : A) : Prop where
  simulates : System.Simulation M (EventLog.system V P) events
  commits : ∀ σ a σ', M.Reachable σ → M.next σ a = some σ' →
    events σ' = events σ ++ (committing σ a).toList
  reads : ∀ (past : List (EventEnvelope V P) → Prop) (k : ℕ) σ clients step clients',
    M.Reachable σ → past (events σ) → O.next σ clients step = some clients' →
    (∀ client, clients[k]? = some client → client.Exact apply default past (events σ)) →
    ∀ client, clients'[k]? = some client → client.Exact apply default past (events σ)

namespace ReadsStreams

variable {M : System S B} {O : Observer S (List (Client V P A)) C}
  {events : S → List (EventEnvelope V P)} {committing : S → B → Option (EventEnvelope V P)}
  {apply : A → EventEnvelope V P → A} {default state : A}
  {p₀ p p' r : S × List (Client V P A)} {k : ℕ} {s : String} {v : Int}

lemma streamsNumbered (h : ReadsStreams M O events committing apply default) {σ : S}
    (hσ : M.Reachable σ) : StreamsNumbered (events σ) :=
  streamsNumbered_of_reachable (h.simulates.reachable hσ)

/-- Every client that comes after `p₀` has read its stream as it was at a moment since. -/
lemma exact_of_later (h : ReadsStreams M O events committing apply default)
    (h₀ : (M.observe O).Reachable p₀) (hk : p₀.2[k]? = none) (hl : (M.observe O).Later p₀ p) :
    ∀ client, p.2[k]? = some client →
      client.Exact apply default (Between (M.observe O) (events ·.1) p₀ p) (events p.1) := by
  induction hl with
  | refl =>
    intro client hclient
    rw [hk] at hclient
    cases hclient
  | @tail p p' hl hs ih =>
    obtain ⟨a, hs⟩ := hs
    have hreach := System.ReachBy.system (h₀.later hl)
    have hpast : ∀ log, Between (M.observe O) (events ·.1) p₀ p log →
        Between (M.observe O) (events ·.1) p₀ p' log := fun _ hlog => hlog.next hs
    have hmono := fun client (hclient : p.2[k]? = some client) => (ih client hclient).mono hpast
    cases a with
    | inl a =>
      obtain ⟨σ', hs', rfl⟩ := System.observe_inl.mp hs
      have hevents := h.commits _ _ _ hreach hs'
      have hstreams := h.streamsNumbered (hreach.next hs')
      intro client hclient
      dsimp only at hclient ⊢
      rw [hevents] at hstreams ⊢
      exact (hmono client hclient).commit hstreams
    | inr step =>
      obtain ⟨clients', hs', rfl⟩ := System.observe_inr.mp hs
      exact h.reads _ k _ _ _ _ hreach (hpast _ (between_now (events ·.1) hl)) hs' hmono

/-- `rehydrate` returns what the loop gives for the stream as it was at a moment of the call. -/
lemma rehydrated_of_later (h : ReadsStreams M O events committing apply default)
    (h₀ : (M.observe O).Reachable p₀) (hk : p₀.2[k]? = none) (hl : (M.observe O).Later p₀ p)
    (hp : p.2[k]? = some (.rehydrated s state v)) :
    ∃ r, (M.observe O).Later p₀ r ∧ (M.observe O).Later r p ∧
      (state, v) = ((streamEvents (events r.1) s).foldl apply default,
        ((streamEvents (events r.1) s).length : Int) - 1) := by
  obtain ⟨log, ⟨r, hr₀, hr, rfl⟩, heq⟩ := h.exact_of_later h₀ hk hl _ hp
  have hstreams := h.streamsNumbered (System.ReachBy.system (h₀.later hr₀))
  exact ⟨r, hr₀, hr, by rw [← heq, rehydrate_streamEvents hstreams]⟩

/-! ### Runs that leave a stream alone -/

lemma streamEvents_next (h : ReadsStreams M O events committing apply default) {a : B ⊕ C}
    (hreach : (M.observe O).Reachable p) (hs : (M.observe O).next p a = some p')
    (ha : ∀ b, a = .inl b → ∀ e ∈ committing p.1 b, e.streamId ≠ s) :
    streamEvents (events p'.1) s = streamEvents (events p.1) s := by
  cases a with
  | inl b =>
    obtain ⟨σ', hs', rfl⟩ := System.observe_inl.mp hs
    dsimp only
    rw [h.commits _ _ _ hreach.system hs']
    exact streamEvents_append_elsewhere (ha b rfl)
  | inr step =>
    obtain ⟨clients', -, rfl⟩ := System.observe_inr.mp hs
    rfl

variable {D : S × List (Client V P A) → B ⊕ C → Prop}

lemma streamEvents_of_laterBy (h : ReadsStreams M O events committing apply default)
    (hD : ∀ p b, D p (.inl b) → ∀ e ∈ committing p.1 b, e.streamId ≠ s)
    (h₀ : (M.observe O).Reachable p₀) (hl : (M.observe O).LaterBy D p₀ p) :
    streamEvents (events p.1) s = streamEvents (events p₀.1) s := by
  induction hl with
  | refl => rfl
  | @tail p p' hl hs ih =>
    obtain ⟨a, ha, hs⟩ := hs
    have hreach : (M.observe O).Reachable p := h₀.later (System.LaterBy.later hl)
    refine (h.streamEvents_next hreach hs ?_).trans ih
    rintro b rfl
    exact hD p b ha

/-- A stream to which nothing is committed is the same all along. -/
lemma streamEvents_between (h : ReadsStreams M O events committing apply default)
    (hD : ∀ p b, D p (.inl b) → ∀ e ∈ committing p.1 b, e.streamId ≠ s)
    (h₀ : (M.observe O).Reachable p₀) (hl : (M.observe O).LaterBy D p₀ p)
    (hr₀ : (M.observe O).Later p₀ r) (hr : (M.observe O).Later r p) :
    streamEvents (events r.1) s = streamEvents (events p₀.1) s := by
  have hsame := h.streamEvents_of_laterBy hD h₀ hl
  have hbefore : events p₀.1 <+: events r.1 :=
    prefix_of_simulation h.simulates h₀.system hr₀.system
  have hafter : events r.1 <+: events p.1 :=
    prefix_of_simulation h.simulates (System.ReachBy.system (h₀.later hr₀)) hr.system
  have hle := (hafter.filter fun e => e.streamId = s).length_le
  exact ((hbefore.filter fun e => e.streamId = s).eq_of_length_le
    (hle.trans_eq (congrArg _ hsame))).symm

/-- A call during which nothing is committed to its stream. -/
lemma rehydrated_of_laterBy (h : ReadsStreams M O events committing apply default)
    (hD : ∀ p b, D p (.inl b) → ∀ e ∈ committing p.1 b, e.streamId ≠ s)
    (h₀ : (M.observe O).Reachable p₀) (hk : p₀.2[k]? = none)
    (hl : (M.observe O).LaterBy D p₀ p) (hp : p.2[k]? = some (.rehydrated s state v)) :
    (state, v) = ((streamEvents (events p₀.1) s).foldl apply default,
      ((streamEvents (events p₀.1) s).length : Int) - 1) := by
  obtain ⟨r, hr₀, hr, heq⟩ := h.rehydrated_of_later h₀ hk (System.LaterBy.later hl) hp
  rw [heq, h.streamEvents_between hD h₀ hl hr₀ hr]

/-! ### While nothing else runs -/

/-- Clients that read one state of the store read all of it. -/
lemma rehydrated_alone (h : ReadsStreams M O events committing apply default) {σ : S}
    {clients : List (Client V P A)} (hσ : M.Reachable σ)
    (hinit : ∀ clients, O.init clients → clients = []) (hc : (O.alone σ).Reachable clients)
    (hk : clients[k]? = some (.rehydrated s state v)) :
    (state, v) = ((streamEvents (events σ) s).foldl apply default,
      ((streamEvents (events σ) s).length : Int) - 1) := by
  have hexact : ∀ client, clients[k]? = some client →
      client.Exact apply default (events σ = ·) (events σ) := by
    refine hc.invariant (P := fun clients => ∀ client, clients[k]? = some client →
      client.Exact apply default (events σ = ·) (events σ)) ?_ ?_
    · intro clients hclients client hclient
      rw [hinit clients hclients] at hclient
      cases hclient
    · exact fun clients step clients' _ hinv _ hs => h.reads _ k _ _ _ _ hσ rfl hs hinv
  obtain ⟨log, rfl, heq⟩ := hexact _ hk
  rw [← heq, rehydrate_streamEvents (h.streamsNumbered hσ)]

end ReadsStreams

end Store

end EventSourcing
