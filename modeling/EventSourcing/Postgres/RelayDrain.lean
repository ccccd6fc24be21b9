import EventSourcing.Postgres.RelayOrder

/-!
# Drain loops of the PostgreSQL store

A drain loop calls `relay_next_integration_event` until it returns `false`. The call returns
`false` where its `SELECT` finds no row, and the `SELECT` skips the rows that other transactions
have locked: an entry that another worker has taken is pending still, and stays so if its publish
fails or the worker crashes. So `false` means that nothing is left where no other relay
transaction has a pending entry locked (`Unheld`), and only there.
-/

namespace EventSourcing.Postgres

open Concurrency

variable {P : Type} {σ σ' : State P} {r : ℕ}

/-! ### A call that finds nothing -/

/-- No committed entry is left to dispatch. -/
def State.Drained (σ : State P) : Prop := ∀ o ∈ σ.db.outbox, o.dispatched = true

/-- The transaction of a relay call other than `r` has locked the row of an entry. -/
def State.heldBeside (σ : State P) (r : ℕ) (o : OutboxEntry P) : Bool :=
  match σ.engine.holder (.outbox o.eventId) with
  | some (.relay r') => r' ≠ r
  | _ => false

/-- No other relay transaction has locked an entry that is still pending. -/
def Unheld (σ : State P) (r : ℕ) : Prop :=
  ∀ o ∈ σ.db.outbox, o.dispatched = false → σ.heldBeside r o = false

instance (σ : State P) : Decidable σ.Drained :=
  inferInstanceAs (Decidable (∀ o ∈ σ.db.outbox, _))

instance (σ : State P) (r : ℕ) : Decidable (Unheld σ r) :=
  inferInstanceAs (Decidable (∀ o ∈ σ.db.outbox, _ → _))

/-- A call returns `false` by its `SELECT`, or has returned it before. -/
lemma returned_false_next {step : RelayStep} (hs : σ.relayNext r step = some σ')
    (hfalse : σ'.relays r = .returned (.ok false)) :
    (step ≠ .select ∧ σ.relays r = .returned (.ok false)) ∨
      (step = .select ∧ σ.nextPending r = none) := by
  cases relayEffect_of_next hs with
  | drained _ hn => exact .inr ⟨rfl, hn⟩
  | ended => exact .inl ⟨nofun, by simpa using hfalse⟩
  | committed o acknowledged => cases acknowledged <;> simp at hfalse
  | published => simp [State.putRelay] at hfalse
  | failed => simp [State.stopRelay, State.putRelay] at hfalse
  | crashed => simp [State.stopRelay, State.putRelay] at hfalse
  | _ => simp at hfalse

/-- Where the `SELECT` finds no row, a pending entry is locked by another relay call: an append
call has no visible entry locked. -/
lemma heldBeside_of_pending (h : (system P).Reachable σ) (hnone : σ.nextPending r = none)
    {o : OutboxEntry P} (ho : o ∈ σ.db.outbox) (hpending : o.dispatched = false) :
    σ.heldBeside r o = true := by
  have hlocked : ¬ σ.engine.FreeFor (.relay r) (.outbox o.eventId) := by
    intro hfree
    rw [State.nextPending, List.head?_eq_none_iff] at hnone
    have hmem : o ∉ ([] : List (OutboxEntry P)) := List.not_mem_nil
    rw [← hnone, List.mem_insertionSort, List.mem_filter] at hmem
    exact hmem ⟨ho, by simp [hpending, hfree]⟩
  cases hholder : σ.engine.holder (.outbox o.eventId) with
  | none => exact absurd (.inl hholder) hlocked
  | some t =>
    cases t with
    | call c => exact absurd rfl ((locksOutbox_of_reachable h).calls c _ hholder o ho)
    | relay r' =>
      have hne : r' ≠ r := by
        rintro rfl
        exact hlocked (.inr hholder)
      simp [State.heldBeside, hholder, hne]

/-- A `SELECT` that finds no row has nothing left to find if and only if no other relay
transaction holds a pending entry. -/
lemma drained_iff_unheld (h : (system P).Reachable σ) (hnone : σ.nextPending r = none) :
    σ.Drained ↔ Unheld σ r := by
  constructor
  · intro hdrained o ho hpending
    rw [hdrained o ho] at hpending
    cases hpending
  · intro hunheld o ho
    by_contra hpending
    rw [Bool.not_eq_true] at hpending
    have hheld : σ.heldBeside r o = true := heldBeside_of_pending h hnone ho hpending
    rw [hunheld o ho hpending] at hheld
    cases hheld

/-! ### Drain loops -/

/-- A worker: it makes one call after the other, stops at the first `false` and fails with the
first error. -/
inductive Worker where
  | calling (r : ℕ)
  | drained (r : ℕ)
  | failed
  deriving DecidableEq

structure Draining (P : Type) where
  store : State P
  workers : List Worker
  /-- history: the outbox when the `SELECT` of a call ran -/
  seen : ℕ → List (OutboxEntry P)

inductive DrainStep (P : Type) where
  | call (c : ℕ) (step : CallStep P)
  /-- a step of the call that worker `w` is making -/
  | relay (w : ℕ) (step : RelayStep)
  /-- the server rolls back the transaction of a relay call that has ended -/
  | rollback (r : ℕ)
  /-- another worker begins to drain -/
  | join (r : ℕ)
  /-- the call of worker `w` has returned `true` -/
  | again (w r : ℕ)
  /-- the call of worker `w` has returned `false` or an error -/
  | leave (w : ℕ)

namespace Draining

variable (loops : Draining P)

def initial : Draining P where
  store := .initial
  workers := []
  seen _ := []

def seenAfter (r : ℕ) : RelayStep → ℕ → List (OutboxEntry P)
  | .select => Function.update loops.seen r loops.store.db.outbox
  | _ => loops.seen

/-- The next step of a call. -/
def relayNext (r : ℕ) (step : RelayStep) : Option (Draining P) :=
  (loops.store.relayNext r step).map fun store =>
    { loops with store := store, seen := loops.seenAfter r step }

def next : DrainStep P → Option (Draining P)
  | .call c step => (loops.store.callNext c step).map fun store => { loops with store := store }
  | .relay w step =>
    match loops.workers[w]? with
    | some (.calling r) => loops.relayNext r step
    | _ => none
  | .rollback r => loops.relayNext r .rollback
  | .join r =>
    (loops.relayNext r .start).map fun loops =>
      { loops with workers := loops.workers ++ [.calling r] }
  | .again w r =>
    match loops.workers[w]? with
    | some (.calling r') =>
      match loops.store.relays r' with
      | .returned (.ok true) =>
        (loops.relayNext r .start).map fun loops =>
          { loops with workers := loops.workers.set w (.calling r) }
      | _ => none
    | _ => none
  | .leave w =>
    match loops.workers[w]? with
    | some (.calling r) =>
      match loops.store.relays r with
      | .returned (.ok false) =>
        some { loops with workers := loops.workers.set w (.drained r) }
      | .returned (.error _) => some { loops with workers := loops.workers.set w .failed }
      | .crashed => some { loops with workers := loops.workers.set w .failed }
      | _ => none
    | _ => none

end Draining

variable (P) in
/-- Any number of drain loops beside append calls. -/
def drainLoops : System (Draining P) (DrainStep P) where
  init loops := loops = .initial
  next := Draining.next

/-- If the `SELECT` of the worker finds no row, no other relay transaction holds a pending
entry. -/
def Worker.FindsUnheld (σ : State P) : Worker → Prop
  | calling r => (σ.nextPending r).isNone → Unheld σ r
  | _ => True

def SelectsUnheld (loops : Draining P) : DrainStep P → Prop
  | .relay w .select => ∀ worker ∈ loops.workers[w]?, worker.FindsUnheld loops.store
  | _ => True

instance (σ : State P) : DecidablePred (Worker.FindsUnheld σ)
  | .calling r => inferInstanceAs (Decidable ((σ.nextPending r).isNone → Unheld σ r))
  | .drained _ => isTrue trivial
  | .failed => isTrue trivial

instance (loops : Draining P) : DecidablePred (SelectsUnheld loops)
  | .relay w .select =>
    inferInstanceAs (Decidable (∀ worker ∈ loops.workers[w]?, worker.FindsUnheld loops.store))
  | .relay _ .start => isTrue trivial
  | .relay _ (.publish _) => isTrue trivial
  | .relay _ (.mark _) => isTrue trivial
  | .relay _ (.commit _) => isTrue trivial
  | .relay _ (.fail _) => isTrue trivial
  | .relay _ .crash => isTrue trivial
  | .relay _ .rollback => isTrue trivial
  | .call _ _ => isTrue trivial
  | .rollback _ => isTrue trivial
  | .join _ => isTrue trivial
  | .again _ _ => isTrue trivial
  | .leave _ => isTrue trivial

/-! ### What a step does -/

variable {loops loops' : Draining P}

/-- A step is one of the store that leaves no worker more at its end, or a worker stops whose
call has returned. -/
inductive DrainEffect (loops : Draining P) : DrainStep P → Draining P → Prop where
  | call {c : ℕ} {step : CallStep P} {store : State P}
      (hstore : loops.store.callNext c step = some store) :
      DrainEffect loops (.call c step) { loops with store := store }
  | relay {a : DrainStep P} {r : ℕ} {step : RelayStep} {store : State P} {workers : List Worker}
      (hstore : loops.store.relayNext r step = some store)
      (hselect : step = .select →
        ∃ w, a = .relay w .select ∧ loops.workers[w]? = some (.calling r))
      (hstays : ∀ r, .drained r ∈ workers → .drained r ∈ loops.workers) :
      DrainEffect loops a ⟨store, workers, loops.seenAfter r step⟩
  | left {w : ℕ} {workers : List Worker}
      (hstays : ∀ r, .drained r ∈ workers →
        .drained r ∈ loops.workers ∨ loops.store.relays r = .returned (.ok false)) :
      DrainEffect loops (.leave w) { loops with workers := workers }

/-- A worker that is given something else to do is not at its end. -/
lemma drained_of_mem_set {workers : List Worker} {w r : ℕ} {worker : Worker}
    (hne : ∀ r, worker ≠ .drained r) (h : .drained r ∈ workers.set w worker) :
    .drained r ∈ workers :=
  (List.mem_or_eq_of_mem_set h).resolve_right (hne r).symm

lemma drainEffect_of_next {a : DrainStep P} (hs : loops.next a = some loops') :
    DrainEffect loops a loops' := by
  cases a with
  | call c step =>
    obtain ⟨store, hstore, rfl⟩ := Option.map_eq_some_iff.mp hs
    exact .call hstore
  | relay w step =>
    simp only [Draining.next] at hs
    split at hs
    · rename_i r hw
      obtain ⟨store, hstore, rfl⟩ := Option.map_eq_some_iff.mp hs
      refine .relay hstore ?_ fun _ => id
      rintro rfl
      exact ⟨w, rfl, hw⟩
    · cases hs
  | rollback r =>
    obtain ⟨store, hstore, rfl⟩ := Option.map_eq_some_iff.mp hs
    exact .relay hstore nofun fun _ => id
  | join r =>
    obtain ⟨_, hstart, rfl⟩ := Option.map_eq_some_iff.mp hs
    obtain ⟨store, hstore, rfl⟩ := Option.map_eq_some_iff.mp hstart
    refine .relay hstore nofun fun r' hr' => ?_
    simpa using hr'
  | again w r =>
    simp only [Draining.next] at hs
    split at hs
    · split at hs
      · obtain ⟨_, hstart, rfl⟩ := Option.map_eq_some_iff.mp hs
        obtain ⟨store, hstore, rfl⟩ := Option.map_eq_some_iff.mp hstart
        exact .relay hstore nofun fun r' hr' => drained_of_mem_set (by simp) hr'
      · cases hs
    · cases hs
  | leave w =>
    simp only [Draining.next] at hs
    split at hs
    · rename_i r hw
      split at hs
      · rename_i hr
        obtain rfl := Option.some.inj hs
        refine .left fun r' hr' => ?_
        rcases List.mem_or_eq_of_mem_set hr' with hr' | heq
        · exact .inl hr'
        · obtain rfl := Worker.drained.inj heq
          exact .inr hr
      · obtain rfl := Option.some.inj hs
        exact .left fun r' hr' => .inl (drained_of_mem_set (by simp) hr')
      · obtain rfl := Option.some.inj hs
        exact .left fun r' hr' => .inl (drained_of_mem_set (by simp) hr')
      · cases hs
    · cases hs

/-- The drain loops run on the store. -/
theorem drainLoops_simulates : System.Simulation (drainLoops P) (system P) Draining.store where
  init := by
    rintro _ rfl
    rfl
  next loops a loops' _ _ hs := by
    cases drainEffect_of_next hs with
    | @call c step _ hstore => exact .inr ⟨.call c step, hstore⟩
    | @relay _ r step _ _ hstore => exact .inr ⟨.relay r step, hstore⟩
    | left => exact .inl rfl

/-! ### Every run -/

/-- A call that has returned stays so. -/
lemma returned_next {a : Action P} {result : Except String Bool} (hs : σ.next a = some σ')
    (hr : σ.relays r = .returned result) : σ'.relays r = .returned result := by
  cases a with
  | call c step => rw [(callEffect_of_next hs).relays_eq, hr]
  | relay q step =>
    have he := relayEffect_of_next hs
    by_cases hq : r = q
    · subst hq
      cases he with
      | ended => rw [State.putRelay_relays_self, hr]
      | failed context hcontext => simp [hr, relayErrors] at hcontext
      | crashed hnot => exact absurd hr (hnot result)
      | started h => simp [h] at hr
      | drained h => simp [h] at hr
      | selected _ _ h => simp [h] at hr
      | published _ h => simp [h] at hr
      | refused _ h => simp [h] at hr
      | marked _ _ _ h => simp [h] at hr
      | committed _ _ h => simp [h] at hr
    · rw [he.relays_ne hq, hr]

/-- Whatever was committed when a call found nothing had been dispatched, and a worker is at its
end by a call that found nothing. -/
structure DrainInv (loops : Draining P) : Prop where
  seen : ∀ r, loops.store.relays r = .returned (.ok false) →
    ∀ o ∈ loops.seen r, o.dispatched = true
  workers : ∀ r, .drained r ∈ loops.workers → loops.store.relays r = .returned (.ok false)

lemma DrainInv.next {a : DrainStep P} (h : DrainInv loops)
    (hreach : (system P).Reachable loops.store) (hC : SelectsUnheld loops a)
    (hs : loops.next a = some loops') : DrainInv loops' := by
  cases drainEffect_of_next hs with
  | @call c step store hstore =>
    have hnext : loops.store.next (.call c step) = some store := hstore
    refine ⟨fun r hr => h.seen r ?_, fun r hr => returned_next hnext (h.workers r hr)⟩
    rwa [← (callEffect_of_next hstore).relays_eq]
  | @relay _ r step store workers hstore hselect hstays =>
    have hnext : loops.store.next (.relay r step) = some store := hstore
    refine ⟨fun r' hr' => ?_, fun r' hr' => returned_next hnext (h.workers r' (hstays r' hr'))⟩
    by_cases hr : r' = r
    · subst hr
      rcases returned_false_next hstore hr' with ⟨hstep, hold⟩ | ⟨rfl, hnone⟩
      · have hseen : loops.seenAfter r' step = loops.seen := by
          cases step with
          | select => exact absurd rfl hstep
          | _ => rfl
        rw [hseen]
        exact h.seen r' hold
      · -- the call has found no row
        obtain ⟨w, rfl, hw⟩ := hselect rfl
        have hunheld : Unheld loops.store r' := hC (.calling r') hw (by simp [hnone])
        have hseen : loops.seenAfter r' .select r' = loops.store.db.outbox :=
          Function.update_self _ _ _
        simp only [hseen]
        exact (drained_iff_unheld hreach hnone).mpr hunheld
    · rw [(relayEffect_of_next hstore).relays_ne hr] at hr'
      have hseen : loops.seenAfter r step r' = loops.seen r' := by
        cases step with
        | select => exact Function.update_of_ne hr _ _
        | _ => rfl
      simp only [hseen]
      exact h.seen r' hr'
  | left hstays =>
    refine ⟨h.seen, fun r hr => ?_⟩
    rcases hstays r hr with hr | hr
    · exact h.workers r hr
    · exact hr

lemma drainInv_of_reachBy (h : (drainLoops P).ReachBy SelectsUnheld loops) : DrainInv loops := by
  refine System.ReachBy.invariant (P := DrainInv) ?_ ?_ h
  · rintro _ rfl
    refine ⟨fun r hr => ?_, fun r hr => ?_⟩
    · cases hr
    · cases hr
  · intro loops a loops' hreach hinv hC hs
    exact hinv.next (drainLoops_simulates.reachable hreach.reachable) hC hs

/-- A call of any number of relay workers that returns `false` has found everything committed
dispatched if and only if no other relay transaction held a pending entry. In runs of drain
loops in which this holds of every call that returns `false`, a worker that has stopped has left
no entry behind. -/
theorem false_iff_unheld :
    (∀ (σ σ' : State P) (r : ℕ), (system P).Reachable σ → σ.next (.relay r .select) = some σ' →
      σ'.relays r = .returned (.ok false) → (σ.Drained ↔ Unheld σ r)) ∧
    ∀ loops : Draining P, (drainLoops P).ReachBy SelectsUnheld loops →
      ∀ r, .drained r ∈ loops.workers → ∀ o ∈ loops.seen r, o.dispatched = true := by
  refine ⟨fun σ σ' r h hs hfalse => ?_, fun loops h r hr => ?_⟩
  · have hs : σ.relayNext r .select = some σ' := hs
    rcases returned_false_next hs hfalse with ⟨hnot, -⟩ | ⟨-, hnone⟩
    · exact absurd rfl hnot
    · exact drained_iff_unheld h hnone
  · have hinv := drainInv_of_reachBy h
    exact hinv.seen r (hinv.workers r hr)

/-- One event with its entry. -/
def appendOneRun : List (DrainStep ℕ) :=
  [.call 0 (.invoke ⟨.appendWithOutbox, "order-1", "OrderPlaced", 1, some 0⟩),
    .call 0 .advanceVersion, .call 0 (.drawPosition 1), .call 0 (.insertEvent "e0" "t"),
    .call 0 .insertOutbox, .call 0 (.commit true)]

/-- Two workers; the second runs its `SELECT` when the first has committed. -/
def drainedRun : List (DrainStep ℕ) :=
  appendOneRun ++ [.join 0, .join 1, .relay 0 .select, .relay 0 (.publish true),
    .relay 0 (.mark "t"), .relay 0 (.commit true), .relay 1 .select, .leave 1, .again 0 2,
    .relay 0 .select, .leave 0]

/-- The first of two workers has taken the entry. -/
def takenRun : List (DrainStep ℕ) := appendOneRun ++ [.join 0, .join 1, .relay 0 .select]

/-- The second worker stops while the first has taken the entry, whose publish then fails. -/
def abandonedRun : List (DrainStep ℕ) :=
  takenRun ++ [.relay 1 .select, .leave 1, .relay 0 (.publish false), .rollback 0, .leave 0]

theorem false_iff_unheld_drained :
    ((drainLoops ℕ).after drainedRun .initial).workers = [.drained 2, .drained 1] ∧
      ∀ o ∈ ((drainLoops ℕ).after drainedRun .initial).seen 2, o.dispatched = true := by
  have hreach := System.reachBy_after (C := SelectsUnheld) (M := drainLoops ℕ) drainedRun
    rfl (by decide) (by decide)
  have hworkers : ((drainLoops ℕ).after drainedRun .initial).workers
      = [.drained 2, .drained 1] := by decide
  exact ⟨hworkers, false_iff_unheld.2 _ hreach 2 (by simp [hworkers])⟩

/-- The entry stays pending, and no worker is left that would publish it. -/
theorem false_iff_unheld_fails :
    (¬ ∀ (σ σ' : State ℕ) (r : ℕ), (system ℕ).Reachable σ →
      σ.next (.relay r .select) = some σ' → σ'.relays r = .returned (.ok false) → σ.Drained) ∧
    ¬ ∀ loops : Draining ℕ, (drainLoops ℕ).Reachable loops →
      ∀ r, .drained r ∈ loops.workers → ∀ o ∈ loops.seen r, o.dispatched = true := by
  constructor
  · intro hclaim
    have hreach := drainLoops_simulates.reachable
      (System.reachable_after (M := drainLoops ℕ) takenRun rfl (by decide))
    have hdrained := hclaim _ _ 1 hreach rfl rfl
    exact absurd hdrained (by decide)
  · intro hclaim
    have hreach := System.reachable_after (M := drainLoops ℕ) abandonedRun rfl (by decide)
    have hleft := hclaim _ hreach 1 (by decide)
    exact absurd hleft (by decide)

end EventSourcing.Postgres
