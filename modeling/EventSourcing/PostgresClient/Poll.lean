import EventSourcing.Concurrency.CatchUp
import EventSourcing.Concurrency.Observer
import EventSourcing.PostgresClient.Appends

/-!
# The polling projector

The projector asks for the rows of a stream above its checkpoint and moves the checkpoint to
the last of them. A row that becomes visible at or below the checkpoint is never returned.

The batch path of `append_batch_versioned` has released the row of the counter when its
`INSERT` draws positions, so a later call may draw higher ones and commit first
(`poll_exactly_once_fails`). Runs in which every commit on the stream stays above what the
projector has fetched lose nothing (`poll_exactly_once`); the single-event path, which holds the
row until its commit, never does otherwise (`single_events_above`).
-/

namespace EventSourcing.PostgresClient

open Concurrency

variable {P : Type}

/-- The rows of a stream, in the order of the commits. -/
def Tables.stream (db : Tables P) (streamId : String) : List (BenchEvent P) :=
  db.benchEvents.filter fun e => e.streamId = streamId

/-- What `poll_new_events` returns of a row. -/
def BenchEvent.polled (e : BenchEvent P) : Int64 × Int := (e.seq, e.globalPosition)

/-- `SELECT … WHERE stream_id = $1 AND global_position > $2 ORDER BY global_position LIMIT $3`;
the server refuses a negative limit. -/
def Tables.pollNewEvents (db : Tables P) (streamId : String) (after limit : Int) :
    Except String (List (Int64 × Int)) :=
  if limit < 0 then .error "poll_new_events failed"
  else
    let rows := (db.stream streamId).filter fun e => after < e.globalPosition
    .ok (((rows.insertionSort fun e e' => e.globalPosition ≤ e'.globalPosition).take
      limit.toNat).map BenchEvent.polled)

/-! ### The projector -/

structure Projector where
  checkpoint : Int
  /-- what is left of the rows of the last poll -/
  rows : List (Int64 × Int)
  /-- history -/
  processed : List (Int64 × Int)

inductive ProjectorStep where
  | poll (limit : Int)
  | process
  deriving DecidableEq

namespace Projector

def next (streamId : String) (σ : Appends.State P) (u : Projector) :
    ProjectorStep → Option Projector
  | .poll limit =>
    match u.rows with
    | [] =>
      match σ.db.pollNewEvents streamId u.checkpoint limit with
      | .ok rows => some { u with rows := rows }
      | .error _ => some u
    | _ => none
  | .process =>
    match u.rows with
    | [] => none
    | (seq, position) :: rows =>
      some { checkpoint := position, rows := rows, processed := u.processed ++ [(seq, position)] }

/-- The position of the last row fetched. -/
def reached (u : Projector) : Int := (u.rows.getLast?.map (·.2)).getD u.checkpoint

end Projector

variable (P) in
def projector (streamId : String) : Observer (Appends.State P) Projector ProjectorStep where
  init u := u = { checkpoint := 0, rows := [], processed := [] }
  next := Projector.next streamId

/-- A commit on the stream stays above the last row that the projector has fetched. -/
def Above (streamId : String) (p : Appends.State P × Projector) :
    Appends.Action P ⊕ ProjectorStep → Prop
  | .inl (.commit k _) => ∀ call ∈ p.1.calls[k]?, call.streamId? = some streamId →
      ∀ g ∈ call.positions, p.2.reached < g
  | _ => True

instance (streamId : String) (p : Appends.State P × Projector) :
    (a : Appends.Action P ⊕ ProjectorStep) → Decidable (Above streamId p a)
  | .inl (.commit _ _) => inferInstanceAs (Decidable (∀ call ∈ _, _ → ∀ g ∈ _, _ < _))
  | .inl (.invoke _) => isTrue trivial
  | .inl (.upsert _) => isTrue trivial
  | .inl (.draw _ _) => isTrue trivial
  | .inl (.fail _) => isTrue trivial
  | .inr _ => isTrue trivial

/-! ### What the projector has been given -/

/-- The projector reads the stream as from a cursor that stands where it has fetched up to. -/
def Projector.Reads (u : Projector) (docs : List (BenchEvent P)) : Prop :=
  ∃ taken fetched : List (BenchEvent P),
    u.processed = taken.map BenchEvent.polled ∧ u.rows = fetched.map BenchEvent.polled ∧
      Cursor.Reads (·.globalPosition) ((0 : Int) : WithBot Int) docs taken
        ⟨u.reached, false, fetched⟩

variable {streamId : String} {σ σ' : Appends.State P} {u u' : Projector}
  {p : Appends.State P × Projector} {docs : List (BenchEvent P)}

lemma getLast?_polled (l : List (BenchEvent P)) :
    (l.map BenchEvent.polled).getLast?.map (·.2) = l.getLast?.map (·.globalPosition) := by
  rw [List.getLast?_map, Option.map_map]
  rfl

/-- The rows of a poll are the next ones of the cursor. -/
lemma pollNewEvents_eq {db : Tables P} {after limit : Int} (hlimit : ¬ limit < 0) :
    db.pollNewEvents streamId after limit = .ok (((Cursor.remaining (·.globalPosition)
      (db.stream streamId) (after : WithBot Int)).take limit.toNat).map BenchEvent.polled) := by
  simp only [Tables.pollNewEvents, if_neg hlimit, Cursor.remaining, WithBot.coe_lt_coe]

lemma reached_coe (batch : List (BenchEvent P)) (checkpoint : Int) :
    Cursor.reached (·.globalPosition) batch (checkpoint : WithBot Int)
      = ((batch.getLast?.map (·.globalPosition)).getD checkpoint : Int) := by
  rw [Cursor.reached]
  cases batch.getLast? <;> rfl

lemma Projector.Reads.poll (h : u.Reads (σ.db.stream streamId))
    (hkeys : ((σ.db.stream streamId).map (·.globalPosition)).Nodup) {limit : Int}
    (hs : u.next streamId σ (.poll limit) = some u') : u'.Reads (σ.db.stream streamId) := by
  simp only [Projector.next] at hs
  split at hs
  · rename_i hrows
    obtain ⟨taken, fetched, hprocessed, hfetched, hreads⟩ := h
    obtain rfl : fetched = [] := by simpa [hrows] using hfetched.symm
    have hreached : u.reached = u.checkpoint := by simp [Projector.reached, hrows]
    by_cases hlimit : limit < 0
    · simp only [Tables.pollNewEvents, if_pos hlimit] at hs
      obtain rfl := Option.some.inj hs
      exact ⟨taken, [], hprocessed, hfetched, hreads⟩
    · rw [pollNewEvents_eq hlimit] at hs
      obtain rfl := Option.some.inj hs
      rw [hreached] at hreads
      have hfetch := (hreads.fetch (n := limit.toNat) hkeys rfl).reopen
      simp only [reached_coe, List.nil_append] at hfetch
      refine ⟨taken, _, hprocessed, rfl, ?_⟩
      simpa only [Projector.reached, getLast?_polled] using hfetch
  · cases hs

lemma Projector.Reads.process (h : u.Reads docs)
    (hs : u.next streamId σ .process = some u') : u'.Reads docs := by
  obtain ⟨taken, fetched, hprocessed, hfetched, hreads⟩ := h
  simp only [Projector.next] at hs
  split at hs
  · cases hs
  · rename_i seq position rows hrows
    obtain rfl := Option.some.inj hs
    rw [hrows] at hfetched
    obtain ⟨e, rest, rfl, he, hrest⟩ := List.map_eq_cons_iff.mp hfetched.symm
    refine ⟨taken ++ [e], rest, ?_, hrest.symm, ?_⟩
    · rw [List.map_append, ← hprocessed, List.map_singleton, he]
    · have hreached : u.reached = (rows.getLast?.map (·.2)).getD position := by
        rw [Projector.reached, hrows, List.getLast?_cons]
        cases rows.getLast? <;> rfl
      have htake := hreads.take (show Cursor.take _ = some (e, ⟨u.reached, false, rest⟩) from rfl)
      rwa [hreached] at htake

/-- Rows above what the projector has fetched will be polled. -/
lemma Projector.Reads.commit {rows : List (BenchEvent P)} (h : u.Reads docs)
    (hrows : ∀ e ∈ rows, u.reached < e.globalPosition) : u.Reads (docs ++ rows) := by
  obtain ⟨taken, fetched, hprocessed, hfetched, hreads⟩ := h
  refine ⟨taken, fetched, hprocessed, hfetched, hreads.append fun e he _ => ⟨rfl, ?_⟩⟩
  exact WithBot.coe_lt_coe.mpr (hrows e he)

/-- A poll without rows shows that every row has been processed, and once. -/
lemma Projector.Reads.once (h : u.Reads (σ.db.stream streamId)) (hrows : u.rows = [])
    (hpos : ∀ e ∈ σ.db.stream streamId, 0 < e.globalPosition) {limit : Int} (hlimit : 0 < limit)
    (hpoll : σ.db.pollNewEvents streamId u.checkpoint limit = .ok []) :
    ∀ e ∈ σ.db.stream streamId, u.processed.count e.polled = 1 := by
  intro e he
  obtain ⟨taken, fetched, hprocessed, hfetched, hreads⟩ := h
  obtain rfl : fetched = [] := by simpa [hrows] using hfetched.symm
  have hnodup : u.processed.Nodup := by
    have hasc := hreads.ascending
    rw [List.append_nil] at hasc
    refine .of_map Prod.snd ?_
    rw [hprocessed, List.map_map]
    exact hasc.imp ne_of_lt
  refine List.count_eq_one_of_mem hnodup ?_
  rcases hreads.unread e he (WithBot.coe_lt_coe.mpr (hpos e he)) with hread | hahead
  · rw [hprocessed]
    exact List.mem_map_of_mem (by simpa using hread)
  · -- the row is above the checkpoint, so the poll returns one
    have hreached : u.reached = u.checkpoint := by simp [Projector.reached, hrows]
    rw [pollNewEvents_eq (by omega)] at hpoll
    have hmem : e ∈ Cursor.remaining (·.globalPosition) (σ.db.stream streamId)
        (u.checkpoint : WithBot Int) := Cursor.mem_remaining.mpr ⟨he, hreached ▸ hahead.2⟩
    have hnil := List.map_eq_nil_iff.mp (Except.ok.inj hpoll)
    rcases List.take_eq_nil_iff.mp hnil with hzero | hnil
    · omega
    · rw [hnil] at hmem
      cases hmem

/-! ### The runs -/

/-- The rows that a step adds to a stream. -/
lemma Appends.stream_next (streamId : String) {a : Appends.Action P} (hs : σ.next a = some σ') :
    ∃ rows, σ'.db.stream streamId = σ.db.stream streamId ++ rows ∧
      ∀ e ∈ rows, ∃ k eventId call, a = .commit k eventId ∧ σ.calls[k]? = some call ∧
        call.streamId? = some streamId ∧ e.globalPosition ∈ call.positions := by
  cases Appends.step_of_next hs with
  | @commit k eventId call db hk hinsert =>
    obtain ⟨rows, hrows, hpositions, hstream⟩ := Appends.Call.insert_eq_some hinsert
    refine ⟨rows.filter fun e => e.streamId = streamId, ?_, fun e he => ?_⟩
    · rw [Tables.stream, hrows, List.filter_append]
      rfl
    · obtain ⟨hmem, heq⟩ := List.mem_filter.mp he
      refine ⟨k, eventId, call, rfl, hk, ?_, hpositions ▸ List.mem_map_of_mem hmem⟩
      rw [← hstream e hmem]
      simpa using heq
  | _ => exact ⟨[], (List.append_nil _).symm, fun _ he => absurd he List.not_mem_nil⟩

lemma stream_nodup (h : Appends.Inv σ) :
    ((σ.db.stream streamId).map (·.globalPosition)).Nodup :=
  h.nodup_stored.sublist (List.filter_sublist.map _)

lemma stream_pos (h : Appends.Inv σ) : ∀ e ∈ σ.db.stream streamId, 0 < e.globalPosition := by
  intro e he
  refine (h.mem _ (mem_ledger.mpr (.inl ?_))).1
  exact List.mem_map_of_mem (List.mem_of_mem_filter he)

/-- A step of the calls that stays above the projector, seen from the projector. -/
lemma Projector.Reads.system {a : Appends.Action P} (h : u.Reads (σ.db.stream streamId))
    (habove : Above streamId (σ, u) (.inl a)) (hs : σ.next a = some σ') :
    u.Reads (σ'.db.stream streamId) := by
  obtain ⟨rows, hrows, hnew⟩ := Appends.stream_next streamId hs
  rw [hrows]
  refine h.commit ?_
  intro e he
  obtain ⟨k, eventId, call, rfl, hk, hstream, hmem⟩ := hnew e he
  exact habove call hk hstream _ hmem

lemma Projector.Reads.next {b : ProjectorStep} (h : u.Reads (σ.db.stream streamId))
    (hinv : Appends.Inv σ) (hs : u.next streamId σ b = some u') :
    u'.Reads (σ.db.stream streamId) := by
  cases b with
  | poll limit => exact h.poll (stream_nodup hinv) hs
  | process => exact h.process hs

lemma reads_start : Projector.Reads (P := P) ⟨0, [], []⟩ docs :=
  ⟨[], [], rfl, rfl, Cursor.reads_opened⟩

lemma reads_of_reachBy
    (h : ((Appends.system P).observe (projector P streamId)).ReachBy (Above streamId) p) :
    p.2.Reads (p.1.db.stream streamId) := by
  refine System.ReachBy.observed (P := fun p => p.2.Reads (p.1.db.stream streamId)) ?_ ?_ ?_ h
  · rintro σ _ - rfl
    exact reads_start
  · intro σ u a σ' _ hreads habove hs
    exact hreads.system habove hs
  · intro σ u b u' hreach hreads _ hs
    exact hreads.next (Appends.inv_of_reachable hreach.system) hs

/-- Where every commit on the stream stays above what the projector has fetched, a poll that
returns no rows shows that every committed event has been processed exactly once. -/
theorem poll_exactly_once
    (h : ((Appends.system P).observe (projector P streamId)).ReachBy (Above streamId) p)
    {limit : Int} (hlimit : 0 < limit) (hrows : p.2.rows = [])
    (hpoll : p.1.db.pollNewEvents streamId p.2.checkpoint limit = .ok []) :
    ∀ e ∈ p.1.db.benchEvents, e.streamId = streamId →
      p.2.processed.count (e.seq, e.globalPosition) = 1 := by
  intro e he hstream
  have hinv := Appends.inv_of_reachable h.system
  refine (reads_of_reachBy h).once hrows (stream_pos hinv) hlimit hpoll e ?_
  exact List.mem_filter.mpr ⟨he, by simpa using hstream⟩

/-! ### Single events -/

/-- No call brings more than one event to the stream. -/
def SingleEvents (streamId : String) (_ : Appends.State P × Projector) :
    Appends.Action P ⊕ ProjectorStep → Prop
  | .inl (.invoke batch) => batch.streamId = streamId → batch.payloads.length ≤ 1
  | _ => True

/-- The calls on the stream take turns between the draw of a position and the commit. -/
structure InTurn (streamId : String) (σ : Appends.State P) : Prop where
  /-- a call on the stream has its statement still to come, or holds the counter -/
  locks : ∀ (k : ℕ) call, σ.calls[k]? = some call → call.streamId? = some streamId →
    call.Locks streamId ∨ ∃ batch, call = .invoked batch ∧ batch.payloads.length = 1
  apart : ∀ (k k' : ℕ) call call', σ.calls[k]? = some call → σ.calls[k']? = some call' →
    call.Locks streamId → call'.Locks streamId → k = k'
  above : ∀ (k : ℕ) call, σ.calls[k]? = some call → call.Locks streamId →
    ∀ g ∈ call.positions, ∀ e ∈ σ.db.stream streamId, e.globalPosition < g

/-- Call `k` moves on, and the tables may change with it. -/
lemma InTurn.set {k : ℕ} {call call' : Appends.Call P} {identity : Int} {db : Tables P}
    (h : InTurn streamId σ) (hk : σ.calls[k]? = some call)
    (hlocks : call'.streamId? = some streamId → call'.Locks streamId ∨
      ∃ batch, call' = .invoked batch ∧ batch.payloads.length = 1)
    (hturn : call'.Locks streamId → call.Locks streamId ∨ ¬ σ.Locked streamId)
    (habove : call'.Locks streamId →
      ∀ g ∈ call'.positions, ∀ e ∈ db.stream streamId, e.globalPosition < g)
    (hothers : ∀ (j : ℕ) c, j ≠ k → σ.calls[j]? = some c → c.Locks streamId →
      ∀ g ∈ c.positions, ∀ e ∈ db.stream streamId, e.globalPosition < g) :
    InTurn streamId { σ with db := db, identity := identity, calls := σ.calls.set k call' } := by
  have hfirst : ∀ (j : ℕ) c, σ.calls[j]? = some c → c.Locks streamId →
      call'.Locks streamId → j = k := by
    intro j c hj hlock hlock'
    rcases hturn hlock' with hcall | hfree
    · exact h.apart j k c call hj hk hlock hcall
    · exact absurd ⟨c, List.mem_of_getElem? hj, hlock⟩ hfree
  constructor
  · intro j c hj hstream
    rcases getElem?_set_cases hj with ⟨-, rfl⟩ | ⟨-, hj⟩
    · exact hlocks hstream
    · exact h.locks j c hj hstream
  · intro j j' c c' hj hj' hlock hlock'
    rcases getElem?_set_cases hj with ⟨rfl, rfl⟩ | ⟨-, hother⟩
    · rcases getElem?_set_cases hj' with ⟨rfl, -⟩ | ⟨-, hother'⟩
      · rfl
      · exact (hfirst j' c' hother' hlock' hlock).symm
    · rcases getElem?_set_cases hj' with ⟨rfl, rfl⟩ | ⟨-, hother'⟩
      · exact hfirst j c hother hlock hlock'
      · exact h.apart j j' c c' hother hother' hlock hlock'
  · intro j c hj hlock
    rcases getElem?_set_cases hj with ⟨-, rfl⟩ | ⟨hne, hj⟩
    · exact habove hlock
    · exact hothers j c hne hj hlock

lemma InTurn.next {a : Appends.Action P} (h : InTurn streamId σ) (hinv : Appends.Inv σ)
    (hsingle : SingleEvents streamId (σ, u) (.inl a)) (hs : σ.next a = some σ') :
    InTurn streamId σ' := by
  have hothers : ∀ k : ℕ, ∀ (j : ℕ) c, j ≠ k → σ.calls[j]? = some c → c.Locks streamId →
      ∀ g ∈ c.positions, ∀ e ∈ σ.db.stream streamId, e.globalPosition < g :=
    fun _ j c _ => h.above j c
  cases Appends.step_of_next hs with
  | @invoke batch call hpositions hlocks hstream =>
    constructor
    · intro k c hk hopen
      rcases getElem?_concat_cases hk with ⟨-, rfl⟩ | hk
      · obtain ⟨rfl, hne⟩ := hstream streamId hopen
        have hle := hsingle (Option.some.inj hopen)
        have hpos := List.length_pos_iff.mpr hne
        exact .inr ⟨batch, rfl, by omega⟩
      · exact h.locks k c hk hopen
    · intro k k' c c' hk hk' hlock hlock'
      rcases getElem?_concat_cases hk with ⟨-, rfl⟩ | hk
      · exact absurd hlock (hlocks _)
      rcases getElem?_concat_cases hk' with ⟨-, rfl⟩ | hk'
      · exact absurd hlock' (hlocks _)
      exact h.apart k k' c c' hk hk' hlock hlock'
    · intro k c hk hlock
      rcases getElem?_concat_cases hk with ⟨-, rfl⟩ | hk
      · exact absurd hlock (hlocks _)
      · exact h.above k c hk hlock
  | @single k batch hk hfree hlength =>
    refine h.set hk (fun hs => .inl (Option.some.inj hs)) (fun hlock => .inr ?_)
      (fun _ g hg => absurd hg List.not_mem_nil) (hothers k)
    rwa [← show batch.streamId = streamId from hlock]
  | @batch k batch hk hfree hlength =>
    refine h.set hk (fun hs => ?_) False.elim False.elim (hothers k)
    rcases h.locks k _ hk hs with hlock | ⟨_, heq, hone⟩
    · exact hlock.elim
    · cases heq
      exact absurd hone hlength
  | @draw k g call call' hg hk hdraw =>
    obtain ⟨hpositions, hstream, hlocks⟩ := Appends.Call.draw_eq_some hdraw
    refine h.set hk (fun hs => ?_) (fun hlock => .inl ((hlocks _).mp hlock))
      (fun hlock g' hg' e he => ?_) (hothers k)
    · rcases h.locks k call hk (hstream ▸ hs) with hlock | ⟨batch, rfl, -⟩
      · exact .inl ((hlocks _).mpr hlock)
      · cases hdraw
    · rw [hpositions] at hg'
      rcases List.mem_append.mp hg' with hg' | hg'
      · exact h.above k call hk ((hlocks _).mp hlock) g' hg' e he
      · -- the position is above all that have been drawn
        obtain rfl := List.mem_singleton.mp hg'
        refine lt_of_le_of_lt (hinv.mem _ (mem_ledger.mpr (.inl ?_))).2 hg
        exact List.mem_map_of_mem (List.mem_of_mem_filter he)
  | @commit k eventId call db hk hinsert =>
    refine h.set hk (fun hs => by cases hs) False.elim False.elim ?_
    intro j c hne hj hlock g hg e he
    obtain ⟨rows, hrows, hnew⟩ := Appends.stream_next streamId hs
    rcases List.mem_append.mp (hrows ▸ he) with he | he
    · exact h.above j c hj hlock g hg e he
    · -- the call that commits would hold the counter as well
      obtain ⟨k', _, call', heq, hk', hstream, hmem⟩ := hnew e he
      cases heq
      rcases h.locks k call' hk' hstream with hlock' | ⟨batch, rfl, -⟩
      · exact absurd (h.apart j k c call' hj hk' hlock hlock') hne
      · cases hmem
  | @fail k call hk => exact h.set hk (fun hs => by cases hs) False.elim False.elim (hothers k)

/-- What the projector has fetched is committed, so a call that holds the counter is above it. -/
lemma InTurn.above_projector (h : InTurn streamId σ) (hinv : Appends.Inv σ)
    (hreads : u.Reads (σ.db.stream streamId)) (a : Appends.Action P ⊕ ProjectorStep) :
    Above streamId (σ, u) a := by
  rcases a with (_ | _ | _ | ⟨k, _⟩ | _) | _
  case inl.commit =>
    intro call hk hstream g hg
    obtain ⟨taken, fetched, -, -, hreads⟩ := hreads
    rcases h.locks k call hk hstream with hlock | ⟨batch, rfl, -⟩
    · rcases hreads.last with hstart | ⟨d, hd, -, hlast⟩
      · rw [WithBot.coe_inj.mp hstart]
        exact (hinv.mem g (mem_ledger.mpr (.inr ⟨k, call, hk, hg⟩))).1
      · rw [WithBot.coe_inj.mp hlast]
        exact h.above k call hk hlock g hg d hd
    · cases hg
  all_goals trivial

/-- Where every call on the stream brings a single event, the commits on it stay above what the
projector has fetched. -/
theorem single_events_above
    (h : ((Appends.system P).observe (projector P streamId)).ReachBy (SingleEvents streamId) p)
    (a : Appends.Action P ⊕ ProjectorStep) : Above streamId p a := by
  have hboth : InTurn streamId p.1 ∧ p.2.Reads (p.1.db.stream streamId) := by
    refine System.ReachBy.observed
      (P := fun p => InTurn streamId p.1 ∧ p.2.Reads (p.1.db.stream streamId)) ?_ ?_ ?_ h
    · rintro σ _ ⟨-, -, -, hcalls⟩ rfl
      refine ⟨⟨?_, ?_, ?_⟩, reads_start⟩ <;> simp [hcalls]
    · rintro σ u a σ' hreach ⟨hturn, hreads⟩ hsingle hs
      have hinv := Appends.inv_of_reachable hreach.system
      exact ⟨hturn.next hinv hsingle hs,
        hreads.system (hturn.above_projector hinv hreads _) hs⟩
    · rintro σ u b u' hreach ⟨hturn, hreads⟩ - hs
      exact ⟨hturn, hreads.next (Appends.inv_of_reachable hreach.system) hs⟩
  exact hboth.1.above_projector (Appends.inv_of_reachable h.system) hboth.2 a

/-- The single-event path loses nothing, whatever else runs on other streams. -/
theorem single_events_polled
    (h : ((Appends.system P).observe (projector P streamId)).ReachBy (SingleEvents streamId) p)
    {limit : Int} (hlimit : 0 < limit) (hrows : p.2.rows = [])
    (hpoll : p.1.db.pollNewEvents streamId p.2.checkpoint limit = .ok []) :
    ∀ e ∈ p.1.db.benchEvents, e.streamId = streamId →
      p.2.processed.count (e.seq, e.globalPosition) = 1 :=
  poll_exactly_once (h.imp fun _ a hreach _ => single_events_above hreach a) hlimit hrows hpoll

/-! ### An event behind the checkpoint -/

def pollBatch (taskId : UInt64) : Batch ℕ := ⟨"order-1", "BenchmarkEvent", [1, 2], 0, taskId⟩

def pollStart : Appends.State ℕ × Projector := (⟨⟨fun _ => none, []⟩, 0, []⟩, ⟨0, [], []⟩)

/-- The second of two batches draws the higher positions and commits first. -/
def overtakenRun : List (Appends.Action ℕ ⊕ ProjectorStep) :=
  [.inl (.invoke (pollBatch 0)), .inl (.invoke (pollBatch 1)), .inl (.upsert 0),
    .inl (.upsert 1), .inl (.draw 0 1), .inl (.draw 0 2), .inl (.draw 1 3), .inl (.draw 1 4),
    .inl (.commit 1 fun i => if i = 0 then "c" else "d"), .inr (.poll 200), .inr .process,
    .inr .process, .inl (.commit 0 fun i => if i = 0 then "a" else "b")]

def overtaken : Appends.State ℕ × Projector :=
  ((Appends.system ℕ).observe (projector ℕ "order-1")).after overtakenRun pollStart

/-- The calls have returned, the projector finds nothing more, and two events are lost. -/
theorem poll_exactly_once_fails :
    ¬ ∀ p, ((Appends.system ℕ).observe (projector ℕ "order-1")).Reachable p →
      (∀ call ∈ p.1.calls, call.streamId? = none) → p.2.rows = [] →
      p.1.db.pollNewEvents "order-1" p.2.checkpoint 200 = .ok [] →
      ∀ e ∈ p.1.db.benchEvents, e.streamId = "order-1" →
        p.2.processed.count (e.seq, e.globalPosition) = 1 := by
  intro hclaim
  have hreach := System.reachable_after
    (M := (Appends.system ℕ).observe (projector ℕ "order-1")) overtakenRun (s := pollStart)
    ⟨⟨by decide, by decide, by decide, rfl⟩, rfl⟩ (by decide)
  have hlost := hclaim overtaken hreach (by decide) (by decide) (by rfl)
  exact absurd hlost (by decide)

/-- One batch after the other, each polled. -/
def inTurnRun : List (Appends.Action ℕ ⊕ ProjectorStep) :=
  [.inl (.invoke (pollBatch 0)), .inl (.upsert 0), .inl (.draw 0 1), .inl (.draw 0 2),
    .inl (.commit 0 fun i => if i = 0 then "a" else "b"), .inr (.poll 200), .inr .process,
    .inr .process]

theorem poll_exactly_once_in_turn :
    let p := ((Appends.system ℕ).observe (projector ℕ "order-1")).after inTurnRun pollStart
    ∀ e ∈ p.1.db.benchEvents, e.streamId = "order-1" →
      p.2.processed.count (e.seq, e.globalPosition) = 1 :=
  poll_exactly_once
    (System.reachBy_after inTurnRun ⟨⟨by decide, by decide, by decide, rfl⟩, rfl⟩ (by decide)
      (by decide))
    (by decide : (0 : Int) < 200) (by decide) (by rfl)

end EventSourcing.PostgresClient
