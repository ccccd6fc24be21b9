import EventSourcing.Postgres.Consumer

/-!
# What a call of `catch_up_subscribe` hands over

A call takes its rows from one `SELECT` and its notifications from its listener, which listens
again where `recv` has lost the connection. The history of a call has the place of the `SELECT`
and of each `LISTEN` among the commits, and the events handed over since. The rows are the events
committed before the `SELECT`, in the order of their positions; the notified events are those
committed from a `LISTEN` on, in the order of the commits (`consumer_account`). What commits
between the `SELECT` and the first `LISTEN`, or while the connection is lost, is left out.
-/

namespace EventSourcing.Postgres

open Concurrency

variable {P : Type}

/-! ### Calls with their places -/

/-- A `LISTEN` that has taken effect after `listen` commits. -/
structure ListenSession (P : Type) where
  listen : ℕ
  /-- the events handed over since -/
  received : List (EventEnvelope P)

structure CatchUpCall (P : Type) where
  /-- the checkpoint loaded -/
  start : Int
  /-- the commits that the `SELECT` saw, once it is taken -/
  select : Option ℕ
  /-- the rows handed over -/
  replayed : List (EventEnvelope P)
  /-- the sessions of the listener, the newest first -/
  sessions : List (ListenSession P)
  /-- the checkpoints stored -/
  saves : List Int

namespace CatchUpCall

def started (start : Int) : CatchUpCall P where
  start := start
  select := none
  replayed := []
  sessions := []
  saves := []

variable (call : CatchUpCall P)

def selected (place : ℕ) : CatchUpCall P := { call with select := some place }

/-- The handler is called: with a row, until there is a listener. -/
def called (e : EventEnvelope P) : CatchUpCall P :=
  match call.sessions with
  | [] => { call with replayed := call.replayed ++ [e] }
  | session :: older =>
    { call with sessions := { session with received := session.received ++ [e] } :: older }

def saved (position : Int) : CatchUpCall P := { call with saves := call.saves ++ [position] }

def listened (place : ℕ) : CatchUpCall P :=
  { call with sessions := ⟨place, []⟩ :: call.sessions }

/-- The events passed to the handler, in the order of the calls. -/
def handed : List (EventEnvelope P) :=
  call.replayed ++ call.sessions.reverse.flatMap (·.received)

/-- Their positions. -/
def positions : List Int := call.handed.map (·.globalPosition)

end CatchUpCall

/-- A consumer that calls `catch_up_subscribe` again and again. -/
structure Caller (P : Type) where
  subscription : Subscription P
  /-- history: the calls that have ended, and the one at work -/
  ended : List (CatchUpCall P)
  current : Option (CatchUpCall P)

inductive CallerStep where
  | step (step : SubscriberStep)
  /-- the handler is called, and the call ends before it has succeeded -/
  | fail
  /-- `recv` has lost the connection, connects and listens again -/
  | reconnect
  deriving DecidableEq

namespace Caller

variable (c : Caller P)

/-- All calls, in their order. -/
def calls : List (CatchUpCall P) := c.ended ++ c.current.toList

/-- The call at work after a step. -/
def recorded (σ : State P) : SubscriberStep → Option (CatchUpCall P)
  | .load => some (.started (c.subscription.checkpoint.getD (-1)))
  | .select => c.current.map (·.selected σ.db.events.length)
  | .handle => c.current.map fun call => c.subscription.pending.elim call call.called
  | .save =>
    match c.subscription.subscriber with
    | .replayed _ e _ => c.current.map (·.saved e.globalPosition)
    | .delivered position _ => c.current.map (·.saved position)
    | _ => c.current
  | .listen => c.current.map (·.listened σ.db.channel.length)
  | .stop => none
  | _ => c.current

def next (σ : State P) : CallerStep → Option (Caller P)
  | .step step => (c.subscription.next σ step).map fun u =>
      { subscription := u
        ended := if step = .stop then c.calls else c.ended
        current := c.recorded σ step }
  | .fail => c.subscription.pending.map fun e =>
      { subscription := { c.subscription with subscriber := .idle }
        ended := c.ended ++ (c.current.map (·.called e)).toList
        current := none }
  | .reconnect =>
    match c.subscription.subscriber with
    | .listening _ =>
      some { c with
        subscription := { c.subscription with subscriber := .listening σ.db.channel.length }
        current := c.current.map (·.listened σ.db.channel.length) }
    | _ => none

end Caller

variable (P) in
/-- A consumer that starts with the given checkpoint. -/
def caller (checkpoint : Option Int) : Observer (State P) (Caller P) CallerStep where
  init c := (subscription P checkpoint).init c.subscription ∧ c.ended = [] ∧ c.current = none
  next σ c := c.next σ

/-! ### The account of a call -/

/-- The rows of a `SELECT` that sees the first `c` commits. -/
def rowsAt (events : List (EventEnvelope P)) (c : ℕ) (start : Int) : List (EventEnvelope P) :=
  Replay.above (fun e : EventEnvelope P => e.globalPosition) (events.take c) start

/-- Each session has handed over the events committed from its `LISTEN` on, up to the `b`-th in
the newest; the first begins after `c` commits at least, and each of the others where the one
before it has come or later. -/
def Spans (events : List (EventEnvelope P)) (c : ℕ) : List (ListenSession P) → ℕ → Prop
  | [], b => b = c
  | session :: older, b => session.listen ≤ b ∧
      session.received = (events.take b).drop session.listen ∧
      ∃ m ≤ session.listen, Spans events c older m

structure Account (events : List (EventEnvelope P)) (call : CatchUpCall P) : Prop where
  unread : call.select = none → call.handed = []
  select_le : ∀ c ∈ call.select, c ≤ events.length
  rows : ∀ c ∈ call.select, call.replayed <+: rowsAt events c call.start
  /-- the listener is opened when all rows have been handed over -/
  all_rows : ∀ c ∈ call.select, call.sessions ≠ [] → call.replayed = rowsAt events c call.start
  notified : ∀ c ∈ call.select, ∃ b ≤ events.length, Spans events c call.sessions b
  saves : call.saves <+: call.positions

/-- The call at work in its historical phase, with the rows that are left. -/
structure Replaying (events : List (EventEnvelope P)) (call : CatchUpCall P) (c : ℕ)
    (rows : List (EventEnvelope P)) : Prop where
  select : call.select = some c
  select_le : c ≤ events.length
  sessions : call.sessions = []
  rows : call.replayed ++ rows = rowsAt events c call.start

/-- The call at work in its live phase, with the notifications handed over up to the `b`-th
commit. -/
structure Live (events : List (EventEnvelope P)) (call : CatchUpCall P) (b : ℕ) : Prop where
  sessions : call.sessions ≠ []
  le_length : b ≤ events.length
  spans : ∃ c, call.select = some c ∧ call.replayed = rowsAt events c call.start ∧
    Spans events c call.sessions b

/-- What the call at work has passed on and stored, by how far it has come. -/
def Current (events : List (EventEnvelope P)) (subscriber : Subscriber P)
    (call : CatchUpCall P) : Prop :=
  match subscriber with
  | .idle => False
  | .loaded fromPosition => call = .started fromPosition
  | .replaying c rows => Replaying events call c rows ∧ call.saves = call.positions
  | .replayed c e rows =>
    Replaying events call c rows ∧ call.saves ++ [e.globalPosition] = call.positions
  | .connected => (∃ c, Replaying events call c []) ∧ call.saves = call.positions
  | .listening b => Live events call b ∧ call.saves = call.positions
  | .notified position next => ∃ b e, next = b + 1 ∧ events[b]? = some e ∧
      e.globalPosition = position ∧ Live events call b ∧ call.saves = call.positions
  | .fetched position e next => ∃ b, next = b + 1 ∧ events[b]? = some e ∧
      e.globalPosition = position ∧ Live events call b ∧ call.saves = call.positions
  | .delivered position b => Live events call b ∧ call.saves ++ [position] = call.positions

structure Caller.Inv (events : List (EventEnvelope P)) (q : Caller P) : Prop where
  ended : ∀ call ∈ q.ended, Account events call
  current : q.subscription.subscriber = .idle ∧ q.current = none ∨
    ∃ call, q.current = some call ∧ Current events q.subscription.subscriber call

variable {events new : List (EventEnvelope P)} {subscriber : Subscriber P}
  {call : CatchUpCall P} {sessions : List (ListenSession P)} {session : ListenSession P}
  {rows : List (EventEnvelope P)} {e : EventEnvelope P} {a b c place : ℕ} {start : Int}
  {σ σ' : State P} {q q' : Caller P}

/-! ### Sessions -/

lemma Spans.le (h : Spans events c sessions b) : c ≤ b := by
  induction sessions generalizing b with
  | nil => exact h.ge
  | cons session older ih =>
    obtain ⟨hlisten, -, m, hm, hspans⟩ := h
    exact (ih hspans).trans (hm.trans hlisten)

lemma Spans.store (h : Spans events c sessions b) (hb : b ≤ events.length) :
    Spans (events ++ new) c sessions b := by
  induction sessions generalizing b with
  | nil => exact h
  | cons session older ih =>
    obtain ⟨hlisten, hreceived, m, hm, hspans⟩ := h
    refine ⟨hlisten, ?_, m, hm, ih hspans (hm.trans (hlisten.trans hb))⟩
    rw [List.take_append_of_le_length hb]
    exact hreceived

/-- A new session begins where the listener has come, or later. -/
lemma Spans.listen (h : Spans events c sessions b) (hb : b ≤ place) :
    Spans events c (⟨place, []⟩ :: sessions) place := by
  refine ⟨le_refl _, ?_, b, hb, h⟩
  rw [List.drop_take, Nat.sub_self, List.take_zero]

/-- The event of a notification is the next one. -/
lemma Spans.receive (h : Spans events c (session :: sessions) b) (he : events[b]? = some e) :
    Spans events c ({ session with received := session.received ++ [e] } :: sessions)
      (b + 1) := by
  obtain ⟨hlisten, hreceived, hrest⟩ := h
  have hlength : session.listen ≤ (events.take b).length := by
    have hb := (List.getElem?_eq_some_iff.mp he).1
    rw [List.length_take]
    omega
  refine ⟨hlisten.trans (Nat.le_succ b), ?_, hrest⟩
  rw [hreceived, List.take_add_one, he, Option.toList_some, List.drop_append_of_le_length hlength]

/-- The notified events are some of those committed since the `SELECT`, in their order. -/
lemma Spans.sublist (h : Spans events c sessions b) :
    (sessions.reverse.flatMap (·.received)).Sublist ((events.take b).drop c) := by
  induction sessions generalizing b with
  | nil => exact List.nil_sublist _
  | cons session older ih =>
    obtain ⟨hlisten, hreceived, m, hm, hspans⟩ := h
    have hsplit : (events.take b).drop c
        = ((events.take b).drop c).take (m - c) ++ (events.take b).drop m := by
      have hdrop : (events.take b).drop m = ((events.take b).drop c).drop (m - c) := by
        rw [List.drop_drop, Nat.add_sub_cancel' hspans.le]
      rw [hdrop, List.take_append_drop]
    have holder : ((events.take b).drop c).take (m - c) = (events.take m).drop c := by
      rw [← List.drop_take, List.take_take, min_eq_left (hm.trans hlisten)]
    rw [List.reverse_cons, List.flatMap_append, hsplit, holder]
    refine (ih hspans).append ?_
    rw [List.flatMap_singleton, hreceived]
    exact List.drop_sublist_drop_left _ hm

/-! ### The events grow -/

lemma rowsAt_append (h : c ≤ events.length) :
    rowsAt (events ++ new) c start = rowsAt events c start := by
  rw [rowsAt, List.take_append_of_le_length h, rowsAt]

lemma Account.store (h : Account events call) : Account (events ++ new) call where
  unread := h.unread
  select_le c hc := (h.select_le c hc).trans (by simp)
  rows c hc := by
    rw [rowsAt_append (h.select_le c hc)]
    exact h.rows c hc
  all_rows c hc hsessions := by
    rw [rowsAt_append (h.select_le c hc)]
    exact h.all_rows c hc hsessions
  notified c hc := by
    obtain ⟨b, hb, hspans⟩ := h.notified c hc
    exact ⟨b, hb.trans (by simp), hspans.store hb⟩
  saves := h.saves

lemma Replaying.store (h : Replaying events call c rows) :
    Replaying (events ++ new) call c rows where
  select := h.select
  select_le := h.select_le.trans (by simp)
  sessions := h.sessions
  rows := by
    rw [rowsAt_append h.select_le]
    exact h.rows

lemma Live.store (h : Live events call b) : Live (events ++ new) call b where
  sessions := h.sessions
  le_length := h.le_length.trans (by simp)
  spans := by
    obtain ⟨c, hselect, hreplayed, hspans⟩ := h.spans
    refine ⟨c, hselect, ?_, hspans.store h.le_length⟩
    rw [rowsAt_append (hspans.le.trans h.le_length)]
    exact hreplayed

lemma Current.store (h : Current events subscriber call) :
    Current (events ++ new) subscriber call := by
  have hat : ∀ {b : ℕ} {e : EventEnvelope P}, events[b]? = some e →
      (events ++ new)[b]? = some e := by
    intro b e he
    rw [List.getElem?_append_left (List.getElem?_eq_some_iff.mp he).1, he]
  cases subscriber with
  | idle => exact h
  | loaded fromPosition => exact h
  | replaying c rows => exact ⟨h.1.store, h.2⟩
  | replayed c e rows => exact ⟨h.1.store, h.2⟩
  | connected => exact ⟨h.1.imp fun _ hrows => hrows.store, h.2⟩
  | listening b => exact ⟨h.1.store, h.2⟩
  | notified position next =>
    obtain ⟨b, e, hnext, hb, hposition, hlive, hsaves⟩ := h
    exact ⟨b, e, hnext, hat hb, hposition, hlive.store, hsaves⟩
  | fetched position e next =>
    obtain ⟨b, hnext, hb, hposition, hlive, hsaves⟩ := h
    exact ⟨b, hnext, hat hb, hposition, hlive.store, hsaves⟩
  | delivered position b => exact ⟨h.1.store, h.2⟩

lemma Caller.Inv.store (h : q.Inv events) : q.Inv (events ++ new) where
  ended call hcall := (h.ended call hcall).store
  current := h.current.imp_right fun ⟨call, hcurrent, hcall⟩ => ⟨call, hcurrent, hcall.store⟩

/-! ### What a call comes to -/

lemma Replaying.account (h : Replaying events call c rows)
    (hsaves : call.saves <+: call.positions) : Account events call where
  unread hnone := by
    rw [h.select] at hnone
    cases hnone
  select_le c' hc' := by
    obtain rfl := Option.some.inj (h.select.symm.trans hc')
    exact h.select_le
  rows c' hc' := by
    obtain rfl := Option.some.inj (h.select.symm.trans hc')
    exact ⟨rows, h.rows⟩
  all_rows _ _ hsessions := absurd h.sessions hsessions
  notified c' hc' := by
    obtain rfl := Option.some.inj (h.select.symm.trans hc')
    exact ⟨c, h.select_le, by rw [h.sessions]; rfl⟩
  saves := hsaves

lemma Live.account (h : Live events call b) (hsaves : call.saves <+: call.positions) :
    Account events call := by
  obtain ⟨c, hselect, hreplayed, hspans⟩ := h.spans
  have hc : ∀ c' ∈ call.select, c' = c := fun c' hc' => Option.some.inj (hc'.symm.trans hselect)
  refine ⟨fun hnone => ?_, fun c' hc' => ?_, fun c' hc' => ?_, fun c' hc' _ => ?_,
    fun c' hc' => ?_, hsaves⟩
  · rw [hselect] at hnone
    cases hnone
  · rw [hc c' hc']
    exact hspans.le.trans h.le_length
  · have hall : call.replayed = rowsAt events c' call.start := by rw [hc c' hc', hreplayed]
    exact hall ▸ List.prefix_rfl
  · rw [hc c' hc', hreplayed]
  · rw [hc c' hc']
    exact ⟨b, h.le_length, hspans⟩

lemma Current.account (h : Current events subscriber call) : Account events call := by
  cases subscriber with
  | idle => exact h.elim
  | loaded fromPosition =>
    obtain rfl := h
    constructor <;> simp [CatchUpCall.started, CatchUpCall.handed]
  | replaying c rows => exact h.1.account (h.2 ▸ List.prefix_rfl)
  | replayed c e rows => exact h.1.account ⟨_, h.2⟩
  | connected =>
    obtain ⟨⟨c, hrows⟩, hsaves⟩ := h
    exact hrows.account (hsaves ▸ List.prefix_rfl)
  | listening b => exact h.1.account (h.2 ▸ List.prefix_rfl)
  | notified position next =>
    obtain ⟨b, e, -, -, -, hlive, hsaves⟩ := h
    exact hlive.account (hsaves ▸ List.prefix_rfl)
  | fetched position e next =>
    obtain ⟨b, -, -, -, hlive, hsaves⟩ := h
    exact hlive.account (hsaves ▸ List.prefix_rfl)
  | delivered position b => exact h.1.account ⟨_, h.2⟩

/-! ### Steps of the consumer -/

lemma CatchUpCall.handed_called : (call.called e).handed = call.handed ++ [e] := by
  cases hsessions : call.sessions with
  | nil => simp [called, handed, hsessions]
  | cons session older => simp [called, handed, hsessions]

lemma CatchUpCall.positions_called :
    (call.called e).positions = call.positions ++ [e.globalPosition] := by
  rw [positions, handed_called, List.map_append, positions, List.map_singleton]

lemma CatchUpCall.saves_called : (call.called e).saves = call.saves := by
  cases hsessions : call.sessions <;> simp [called, hsessions]

lemma CatchUpCall.positions_listened : (call.listened place).positions = call.positions := by
  simp [positions, handed, listened]

lemma Replaying.called (h : Replaying events call c (e :: rows)) :
    Replaying events (call.called e) c rows := by
  have hcalled : call.called e = { call with replayed := call.replayed ++ [e] } := by
    rw [CatchUpCall.called, h.sessions]
  rw [hcalled]
  refine ⟨h.select, h.select_le, h.sessions, ?_⟩
  rw [List.append_assoc]
  exact h.rows

lemma Live.called (h : Live events call b) (he : events[b]? = some e) :
    Live events (call.called e) (b + 1) := by
  obtain ⟨c, hselect, hreplayed, hspans⟩ := h.spans
  cases hsessions : call.sessions with
  | nil => exact absurd hsessions h.sessions
  | cons session older =>
    have hcalled : call.called e = { call with
        sessions := { session with received := session.received ++ [e] } :: older } := by
      rw [CatchUpCall.called, hsessions]
    rw [hcalled]
    rw [hsessions] at hspans
    exact ⟨List.cons_ne_nil _ _, (List.getElem?_eq_some_iff.mp he).1, c, hselect, hreplayed,
      hspans.receive he⟩

/-- The listener listens again: what commits before that is not notified. -/
lemma Live.listen (h : Live events call b) : Live events (call.listened events.length)
    events.length := by
  obtain ⟨c, hselect, hreplayed, hspans⟩ := h.spans
  exact ⟨List.cons_ne_nil _ _, le_refl _, c, hselect, hreplayed, hspans.listen h.le_length⟩

lemma Replaying.listen (h : Replaying events call c []) :
    Live events (call.listened events.length) events.length := by
  have hrows := h.rows
  rw [List.append_nil] at hrows
  refine ⟨List.cons_ne_nil _ _, le_refl _, c, h.select, hrows, ?_⟩
  show Spans events c (_ :: call.sessions) _
  rw [h.sessions]
  have hspans : Spans events c [] c := rfl
  exact hspans.listen h.select_le

/-- What the handler is called with goes on where the call has come. -/
lemma Current.handle {u : Subscription P} (h : Current events u.subscriber call)
    (hpending : u.pending = some e) :
    ∃ u', u.next σ .handle = some u' ∧ Current events u'.subscriber (call.called e) := by
  have hsaves := call.saves_called (e := e)
  have hpositions := call.positions_called (e := e)
  simp only [Subscription.pending] at hpending
  split at hpending
  · rename_i c e' rows hu
    obtain rfl := Option.some.inj hpending
    simp only [Current, hu] at h
    refine ⟨{ u with subscriber := .replayed c e' rows, handled := u.handled ++ [e'] },
      by simp [Subscription.next, hu], h.1.called, ?_⟩
    rw [hsaves, hpositions, h.2]
  · rename_i position e' next hu
    obtain rfl := Option.some.inj hpending
    simp only [Current, hu] at h
    obtain ⟨b, rfl, hb, rfl, hlive, hsaves'⟩ := h
    refine ⟨{ u with
      subscriber := .delivered e'.globalPosition (b + 1), handled := u.handled ++ [e'] },
      by simp [Subscription.next, hu], hlive.called hb, ?_⟩
    rw [hsaves, hpositions, hsaves']
  · cases hpending

lemma pending_of_handle {u u' : Subscription P} (hs : u.next σ .handle = some u') :
    ∃ e, u.pending = some e := by
  simp only [Subscription.next] at hs
  split at hs
  · rename_i c e rows hu
    exact ⟨e, by simp [Subscription.pending, hu]⟩
  · rename_i position e next hu
    exact ⟨e, by simp [Subscription.pending, hu]⟩
  · cases hs

/-- The call at work has stopped. -/
lemma Caller.Inv.calls (h : q.Inv events) : ∀ call ∈ q.calls, Account events call := by
  intro call hcall
  rcases List.mem_append.mp hcall with hcall | hcall
  · exact h.ended call hcall
  · rcases h.current with ⟨-, hnone⟩ | ⟨call', hcurrent, hcall'⟩
    · simp [hnone] at hcall
    · obtain rfl : call = call' := by simpa [hcurrent] using hcall
      exact hcall'.account

/-- A step of the call at work. -/
lemma Caller.Inv.move {u : Subscription P} {f : CatchUpCall P → CatchUpCall P}
    (h : q.Inv events) (hne : q.subscription.subscriber ≠ .idle)
    (hcall : ∀ call, Current events q.subscription.subscriber call →
      Current events u.subscriber (f call)) :
    Caller.Inv events ⟨u, q.ended, q.current.map f⟩ where
  ended := h.ended
  current := by
    rcases h.current with ⟨hidle, -⟩ | ⟨call, hcurrent, hcur⟩
    · exact absurd hidle hne
    · exact .inr ⟨f call, congrArg (Option.map f) hcurrent, hcall call hcur⟩

/-- A step that the call does not show. -/
lemma Caller.Inv.keep {u : Subscription P} (h : q.Inv events)
    (hne : q.subscription.subscriber ≠ .idle)
    (hcall : ∀ call, Current events q.subscription.subscriber call →
      Current events u.subscriber call) :
    Caller.Inv events ⟨u, q.ended, q.current⟩ := by
  have hmove := h.move (u := u) (f := id) hne hcall
  rwa [Option.map_id, id] at hmove

/-- A notification is about the event in its place. -/
lemma Current.receive (hinv : σ.Inv) {next : ℕ} {position : Int}
    (h : Current σ.db.events (.listening next) call)
    (hposition : σ.db.channel[next]? = some position) :
    Current σ.db.events (.notified position (next + 1)) call := by
  rw [hinv.db.channel, List.getElem?_map, Option.map_eq_some_iff] at hposition
  obtain ⟨e, he, hposition⟩ := hposition
  exact ⟨next, e, rfl, he, hposition, h⟩

/-- The event of a notification is there, and it is the one that the notification is about. -/
lemma Current.fetch (hσ : (system P).Reachable σ) {next : ℕ} {position : Int}
    (h : Current σ.db.events (.notified position next) call) :
    ∃ e, σ.db.eventAt position = some e ∧
      Current σ.db.events (.fetched position e next) call := by
  obtain ⟨b, e, hnext, hb, hposition, hcall⟩ := h
  have hmem := List.mem_of_getElem? hb
  obtain ⟨e', he'⟩ := Option.isSome_iff_exists.mp
    (List.find?_isSome.mpr ⟨e, hmem, decide_eq_true hposition⟩ : (σ.db.eventAt position).isSome)
  obtain rfl : e' = e := by
    have hat : e'.globalPosition = position := by simpa using List.find?_some he'
    exact eq_of_position hσ (List.mem_of_find?_eq_some he') hmem (hat.trans hposition.symm)
  exact ⟨e', he', b, hnext, hb, hposition, hcall⟩

lemma Caller.Inv.step (hσ : (system P).Reachable σ) (h : q.Inv σ.db.events)
    {step : SubscriberStep} {u : Subscription P} (hs : q.subscription.next σ step = some u)
    (hstop : step ≠ .stop) :
    Caller.Inv σ.db.events ⟨u, q.ended, q.recorded σ step⟩ := by
  have hinv := inv_of_reachable hσ
  have hlength : σ.db.channel.length = σ.db.events.length := by simp [hinv.db.channel]
  cases step with
  | load =>
    simp only [Subscription.next] at hs
    split at hs
    · obtain rfl := Option.some.inj hs
      exact ⟨h.ended, .inr ⟨_, rfl, rfl⟩⟩
    · cases hs
  | select =>
    simp only [Subscription.next] at hs
    split at hs
    · rename_i fromPosition hu
      obtain rfl := Option.some.inj hs
      refine h.move (by simp [hu]) fun call hcall => ?_
      simp only [Current, hu] at hcall
      subst hcall
      refine ⟨⟨rfl, le_refl _, rfl, ?_⟩, rfl⟩
      rw [rowsAt, List.take_length, eventsAfter_eq]
      rfl
    · cases hs
  | handle =>
    obtain ⟨e, hpending⟩ := pending_of_handle hs
    have hne : q.subscription.subscriber ≠ .idle := by
      intro hidle
      simp [Subscription.pending, hidle] at hpending
    simp only [Caller.recorded, hpending, Option.elim_some]
    refine h.move hne fun call hcall => ?_
    obtain ⟨u', hs', hcalled⟩ := hcall.handle (σ := σ) hpending
    obtain rfl := Option.some.inj (hs.symm.trans hs')
    exact hcalled
  | save =>
    simp only [Subscription.next] at hs
    split at hs
    · rename_i c e rows hu
      obtain rfl := Option.some.inj hs
      simp only [Caller.recorded, hu]
      refine h.move (by simp [hu]) fun call hcall => ?_
      simp only [Current, hu] at hcall
      exact ⟨⟨hcall.1.select, hcall.1.select_le, hcall.1.sessions, hcall.1.rows⟩, hcall.2⟩
    · rename_i position next hu
      obtain rfl := Option.some.inj hs
      simp only [Caller.recorded, hu]
      refine h.move (by simp [hu]) fun call hcall => ?_
      simp only [Current, hu] at hcall
      exact ⟨⟨hcall.1.sessions, hcall.1.le_length, hcall.1.spans⟩, hcall.2⟩
    · cases hs
  | connect =>
    simp only [Subscription.next] at hs
    split at hs
    · rename_i c hu
      obtain rfl := Option.some.inj hs
      refine h.keep (by simp [hu]) fun call hcall => ?_
      simp only [Current, hu] at hcall
      exact ⟨⟨c, hcall.1⟩, hcall.2⟩
    · cases hs
  | listen =>
    simp only [Subscription.next] at hs
    split at hs
    · rename_i hu
      obtain rfl := Option.some.inj hs
      simp only [Caller.recorded, hlength]
      refine h.move (by simp [hu]) fun call hcall => ?_
      simp only [Current, hu] at hcall
      obtain ⟨⟨c, hrows⟩, hsaves⟩ := hcall
      exact ⟨hrows.listen, hsaves.trans call.positions_listened.symm⟩
    · cases hs
  | receive =>
    simp only [Subscription.next] at hs
    split at hs
    · rename_i next hu
      obtain ⟨position, hposition, rfl⟩ := Option.map_eq_some_iff.mp hs
      refine h.keep (by simp [hu]) fun call hcall => ?_
      rw [hu] at hcall
      exact hcall.receive hinv hposition
    · cases hs
  | fetch =>
    simp only [Subscription.next] at hs
    split at hs
    · rename_i position next hu
      refine h.keep (by simp [hu]) fun call hcall => ?_
      rw [hu] at hcall
      obtain ⟨e, he, hfetched⟩ := hcall.fetch hσ
      rw [he] at hs
      obtain rfl := Option.some.inj hs
      exact hfetched
    · cases hs
  | stop => exact absurd rfl hstop

lemma Caller.Inv.next (hσ : (system P).Reachable σ) (h : q.Inv σ.db.events)
    {step : CallerStep} (hs : q.next σ step = some q') : q'.Inv σ.db.events := by
  cases step with
  | step step =>
    obtain ⟨u, hu, rfl⟩ := Option.map_eq_some_iff.mp hs
    by_cases hstop : step = .stop
    · subst hstop
      obtain rfl := Option.some.inj hu
      exact ⟨h.calls, .inl ⟨rfl, rfl⟩⟩
    · rw [if_neg hstop]
      exact h.step hσ hu hstop
  | fail =>
    obtain ⟨e, hpending, rfl⟩ := Option.map_eq_some_iff.mp hs
    refine ⟨?_, .inl ⟨rfl, rfl⟩⟩
    rcases h.current with ⟨hidle, -⟩ | ⟨call, hcurrent, hcur⟩
    · simp [Subscription.pending, hidle] at hpending
    · obtain ⟨u, -, hcalled⟩ := hcur.handle (σ := σ) hpending
      intro call' hcall'
      simp only [hcurrent, Option.map_some, Option.toList_some, List.mem_append,
        List.mem_singleton] at hcall'
      rcases hcall' with hcall' | rfl
      · exact h.ended call' hcall'
      · exact hcalled.account
  | reconnect =>
    simp only [Caller.next] at hs
    split at hs
    · rename_i next hu
      obtain rfl := Option.some.inj hs
      have hlength : σ.db.channel.length = σ.db.events.length := by
        simp [(inv_of_reachable hσ).db.channel]
      rw [hlength]
      refine h.move (by simp [hu]) fun call hcall => ?_
      simp only [Current, hu] at hcall
      exact ⟨hcall.1.listen, hcall.2.trans call.positions_listened.symm⟩
    · cases hs

/-! ### Every run -/

lemma caller_inv {checkpoint : Option Int} {p : State P × Caller P}
    (h : ((system P).observe (caller P checkpoint)).Reachable p) : p.2.Inv p.1.db.events := by
  refine System.ReachBy.observed (P := fun p : State P × Caller P => p.2.Inv p.1.db.events)
    ?_ ?_ ?_ h
  · rintro σ ⟨u, ended, current⟩ - ⟨rfl, rfl, rfl⟩
    exact ⟨fun call hcall => absurd hcall List.not_mem_nil, .inl ⟨rfl, rfl⟩⟩
  · intro σ q a σ' hreach hinv _ hs
    rw [events_next (inv_of_reachable hreach.system) hs]
    exact hinv.store
  · intro σ q step q' hreach hinv _ hs
    exact hinv.next hreach.system hs

/-- No event comes twice. -/
lemma Account.nodup (h : Account events call) (hkeys : (events.map (·.globalPosition)).Nodup) :
    call.handed.Nodup := by
  cases hselect : call.select with
  | none =>
    rw [h.unread hselect]
    exact List.nodup_nil
  | some c =>
    obtain ⟨b, hb, hspans⟩ := h.notified c hselect
    have hnotified := hspans.sublist
    have hsplit := List.nodup_append.mp
      ((List.take_append_drop c events).symm ▸ List.Nodup.of_map _ hkeys)
    rw [List.drop_take] at hnotified
    refine List.nodup_append.mpr ⟨?_, ?_, ?_⟩
    · have hrows := Replay.above_ascending (hkeys.sublist ((List.take_sublist c events).map _))
        call.start
      refine (List.Pairwise.imp ?_ hrows : (rowsAt events c call.start).Nodup).sublist
        (h.rows c hselect).sublist
      rintro e e' hlt rfl
      exact absurd hlt (lt_irrefl _)
    · exact hsplit.2.1.sublist (hnotified.trans (List.take_sublist _ _))
    · intro e he e' he'
      have hbefore : e ∈ events.take c := (Replay.mem_above.mp ((h.rows c hselect).subset he)).1
      exact hsplit.2.2 e hbefore e' (List.mem_of_mem_take (hnotified.subset he'))

/-- A call that has come to the end of the notifications. -/
lemma Live.drained (h : Live events call events.length) : ∃ session older,
    call.sessions = session :: older ∧ session.received = events.drop session.listen := by
  obtain ⟨c, -, -, hspans⟩ := h.spans
  cases hsessions : call.sessions with
  | nil => exact absurd hsessions h.sessions
  | cons session older =>
    rw [hsessions] at hspans
    obtain ⟨-, hreceived, -⟩ := hspans
    rw [List.take_length] at hreceived
    exact ⟨session, older, rfl, hreceived⟩

/-- In every run of a consumer, under every interleaving with the appends: its calls of the handler
are the first of the rows that its one `SELECT` saw above the checkpoint, in the order of their
positions, and, once these have all been handed over, the events committed since each `LISTEN`
took effect, one after another in the order of the commits, whatever their positions; all of them
where a call has nothing left to receive. No event comes twice in a call, and the checkpoints
that it stores are the positions of its first events. -/
theorem consumer_account (checkpoint : Option Int) (p : State P × Caller P)
    (h : ((system P).observe (caller P checkpoint)).Reachable p) :
    (∀ call ∈ p.2.calls, Account p.1.db.events call ∧ call.handed.Nodup) ∧
    (p.2.subscription.subscriber = .listening p.1.db.channel.length →
      ∃ call ∈ p.2.current, ∃ session older, call.sessions = session :: older ∧
        session.received = p.1.db.events.drop session.listen) := by
  have hinv := caller_inv h
  refine ⟨fun call hcall => ?_, fun hdrained => ?_⟩
  · have haccount := hinv.calls call hcall
    exact ⟨haccount, haccount.nodup (positions_nodup h.system)⟩
  · have hlength : p.1.db.channel.length = p.1.db.events.length := by
      simp [(inv_of_reachable h.system).db.channel]
    rcases hinv.current with ⟨hidle, -⟩ | ⟨call, hcurrent, hcall⟩
    · rw [hdrained] at hidle
      cases hidle
    · rw [hdrained, hlength] at hcall
      exact ⟨call, hcurrent, Live.drained hcall.1⟩

/-- A row, a commit that the call misses, a notification, another commit that it misses because
its connection is lost, and a notification of the new session. -/
def gapRun : List (Action ℕ ⊕ CallerStep) :=
  (appendSteps 0 1).map .inl ++
    [.inr (.step .load), .inr (.step .select), .inr (.step .handle), .inr (.step .save),
      .inr (.step .connect)] ++
    (appendSteps 1 2).map .inl ++ [.inr (.step .listen)] ++ (appendSteps 2 3).map .inl ++
    [.inr (.step .receive), .inr (.step .fetch), .inr (.step .handle), .inr (.step .save)] ++
    (appendSteps 3 4).map .inl ++ [.inr .reconnect] ++ (appendSteps 4 5).map .inl ++
    [.inr (.step .receive), .inr (.step .fetch), .inr (.step .handle), .inr (.step .save)]

theorem consumer_account_gap :
    let p := ((system ℕ).observe (caller ℕ none)).after gapRun
      (.initial, ⟨⟨none, .idle, []⟩, [], none⟩)
    p.2.calls.map (·.positions) = [[1, 3, 5]] ∧
      (∀ call ∈ p.2.calls, Account p.1.db.events call ∧ call.handed.Nodup) ∧
      ∃ call ∈ p.2.current, ∃ session older, call.sessions = session :: older ∧
        session.received = p.1.db.events.drop session.listen := by
  have hreach := System.reachable_after (M := (system ℕ).observe (caller ℕ none)) gapRun
    (s := (.initial, ⟨⟨none, .idle, []⟩, [], none⟩)) ⟨rfl, rfl, rfl, rfl⟩ (by decide)
  have haccount := consumer_account none _ hreach
  exact ⟨by decide, haccount.1, haccount.2 rfl⟩

end EventSourcing.Postgres
