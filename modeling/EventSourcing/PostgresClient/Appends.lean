import EventSourcing.Concurrency.Ledger
import EventSourcing.PostgresClient.Versions

/-!
# Concurrent calls of `append_batch_versioned`

A single event is one statement: the upsert locks the row of the counter, the `INSERT` draws a
position, and the commit releases the row. A batch commits its counter update first; its
`INSERT` draws its positions afterwards, while other calls on the stream may run. The identity
column gives each row a position above those it has given before, and a failed statement loses
the positions it has drawn.
-/

namespace EventSourcing.PostgresClient.Appends

open Concurrency
open scoped List

variable {P : Type}

/-- How far a call of `append_batch_versioned` has come. -/
inductive Call (P : Type) where
  | invoked (batch : Batch P)
  /-- the statement of a single event, which holds the row of the counter -/
  | single (batch : Batch P) (positions : List Int)
  /-- the `INSERT` of a batch, after its counter update -/
  | inserting (batch : Batch P) (startVersion : Int) (positions : List Int)
  | returned

namespace Call

/-- The positions that the rows of an open `INSERT` have drawn. -/
def positions : Call P → List Int
  | single _ positions => positions
  | inserting _ _ positions => positions
  | _ => []

/-- The stream the call appends to, while it is open. -/
def streamId? : Call P → Option String
  | invoked batch => some batch.streamId
  | single batch _ => some batch.streamId
  | inserting batch _ _ => some batch.streamId
  | returned => none

/-- The call holds the row of the counter of `s`. -/
def Locks (s : String) : Call P → Prop
  | single batch _ => batch.streamId = s
  | _ => False

instance (s : String) : (call : Call P) → Decidable (call.Locks s)
  | single _ _ => inferInstanceAs (Decidable (_ = s))
  | invoked _ => isFalse id
  | inserting _ _ _ => isFalse id
  | returned => isFalse id

/-- The next row of the `INSERT` draws its position. -/
def draw (globalPosition : Int) : Call P → Option (Call P)
  | single batch positions =>
    if positions.length < batch.payloads.length then
      some (single batch (positions ++ [globalPosition]))
    else none
  | inserting batch startVersion positions =>
    if positions.length < batch.payloads.length then
      some (inserting batch startVersion (positions ++ [globalPosition]))
    else none
  | _ => none

/-- The tables at the commit of the `INSERT`. -/
def insert (db : Tables P) (eventId : ℕ → String) : Call P → Option (Tables P)
  | single batch positions =>
    if positions.length = batch.payloads.length then
      db.upsertAndInsert batch ⟨eventId, fun i => positions.getD i 0⟩
    else none
  | inserting batch startVersion positions =>
    if positions.length = batch.payloads.length then
      db.insertBatch batch startVersion ⟨eventId, fun i => positions.getD i 0⟩
    else none
  | _ => none

end Call

structure State (P : Type) where
  db : Tables P
  /-- the last value the identity column has drawn -/
  identity : Int
  calls : List (Call P)

inductive Action (P : Type) where
  | invoke (batch : Batch P)
  | upsert (k : ℕ)
  | draw (k : ℕ) (globalPosition : Int)
  | commit (k : ℕ) (eventId : ℕ → String)
  | fail (k : ℕ)

namespace State

variable (σ : State P)

/-- An open statement holds the row of the counter of `s`. -/
def Locked (s : String) : Prop := ∃ call ∈ σ.calls, call.Locks s

instance (s : String) : Decidable (σ.Locked s) :=
  inferInstanceAs (Decidable (∃ call ∈ σ.calls, _))

/-- The positions of the committed rows. -/
def stored : List Int := σ.db.benchEvents.map (·.globalPosition)

def next : Action P → Option (State P)
  | .invoke batch =>
    some { σ with
      calls := σ.calls ++ [if batch.payloads.isEmpty then .returned else .invoked batch] }
  | .upsert k =>
    match σ.calls[k]? with
    | some (.invoked batch) =>
      if σ.Locked batch.streamId then none
      else if batch.payloads.length = 1 then
        some { σ with calls := σ.calls.set k (.single batch []) }
      else
        some { σ with
          db := σ.db.upsertVersion batch.streamId batch.payloads.length
          calls := σ.calls.set k (.inserting batch (σ.db.version batch.streamId) []) }
    | _ => none
  | .draw k globalPosition =>
    if σ.identity < globalPosition then
      (σ.calls[k]?.bind (Call.draw globalPosition)).map fun call =>
        { σ with identity := globalPosition, calls := σ.calls.set k call }
    else none
  | .commit k eventId =>
    (σ.calls[k]?.bind (Call.insert σ.db eventId)).map fun db =>
      { σ with db := db, calls := σ.calls.set k .returned }
  | .fail k =>
    match σ.calls[k]? with
    | none => none
    | some .returned => none
    | some _ => some { σ with calls := σ.calls.set k .returned }

end State

variable (P) in
/-- Any number of calls; rows from before have positions of their own. -/
def system : System (State P) (Action P) where
  init σ := 0 ≤ σ.identity ∧ σ.stored.Nodup ∧ (∀ g ∈ σ.stored, 0 < g ∧ g ≤ σ.identity) ∧
    σ.calls = []
  next := State.next

/-! ### What a step does -/

variable {σ σ' : State P} {k : ℕ}

lemma Call.draw_eq_some {call call' : Call P} {g : Int} (h : call.draw g = some call') :
    call'.positions = call.positions ++ [g] ∧ call'.streamId? = call.streamId? ∧
      (∀ s, call'.Locks s ↔ call.Locks s) := by
  cases call with
  | single batch positions =>
    simp only [Call.draw] at h
    split_ifs at h
    obtain rfl := Option.some.inj h
    exact ⟨rfl, rfl, fun _ => Iff.rfl⟩
  | inserting batch startVersion positions =>
    simp only [Call.draw] at h
    split_ifs at h
    obtain rfl := Option.some.inj h
    exact ⟨rfl, rfl, fun _ => Iff.rfl⟩
  | _ => cases h

lemma positions_rows {batch : Batch P} {v : Int} {eventId : ℕ → String} {positions : List Int}
    (h : positions.length = batch.payloads.length) :
    (batch.rows v ⟨eventId, fun i => positions.getD i 0⟩).map (·.globalPosition) = positions := by
  apply List.ext_getElem
  · simp [Batch.rows, h]
  · intro i hi hi'
    simp [Batch.rows, List.getElem?_eq_getElem hi']

/-- A commit adds rows of the call's stream with the positions the call has drawn. -/
lemma Call.insert_eq_some {db db' : Tables P} {eventId : ℕ → String} {call : Call P}
    (h : call.insert db eventId = some db') :
    ∃ rows : List (BenchEvent P), db'.benchEvents = db.benchEvents ++ rows ∧
      rows.map (·.globalPosition) = call.positions ∧
      ∀ e ∈ rows, some e.streamId = call.streamId? := by
  cases call with
  | single batch positions =>
    simp only [Call.insert] at h
    split_ifs at h with hlength
    rw [Tables.upsertAndInsert] at h
    obtain ⟨-, rfl⟩ := Tables.insert_eq_some h
    exact ⟨_, rfl, positions_rows hlength, fun e he => congrArg some (Batch.streamId_of_mem he)⟩
  | inserting batch startVersion positions =>
    simp only [Call.insert] at h
    split_ifs at h with hlength
    rw [Tables.insertBatch] at h
    split_ifs at h
    obtain ⟨-, rfl⟩ := Tables.insert_eq_some h
    exact ⟨_, rfl, positions_rows hlength, fun e he => congrArg some (Batch.streamId_of_mem he)⟩
  | _ => cases h

/-- What each action does, with what it requires. -/
inductive Step (σ : State P) : Action P → State P → Prop where
  | invoke (batch : Batch P) {call : Call P} (hpositions : call.positions = [])
      (hlocks : ∀ s, ¬ call.Locks s)
      (hstream : ∀ s ∈ call.streamId?, call = .invoked batch ∧ batch.payloads ≠ []) :
      Step σ (.invoke batch) { σ with calls := σ.calls ++ [call] }
  | single {k : ℕ} {batch : Batch P} (hk : σ.calls[k]? = some (.invoked batch))
      (hfree : ¬ σ.Locked batch.streamId) (hlength : batch.payloads.length = 1) :
      Step σ (.upsert k) { σ with calls := σ.calls.set k (.single batch []) }
  | batch {k : ℕ} {batch : Batch P} (hk : σ.calls[k]? = some (.invoked batch))
      (hfree : ¬ σ.Locked batch.streamId) (hlength : batch.payloads.length ≠ 1) :
      Step σ (.upsert k)
        { σ with
          db := σ.db.upsertVersion batch.streamId batch.payloads.length
          calls := σ.calls.set k (.inserting batch (σ.db.version batch.streamId) []) }
  | draw {k : ℕ} {g : Int} {call call' : Call P} (hg : σ.identity < g)
      (hk : σ.calls[k]? = some call) (hdraw : call.draw g = some call') :
      Step σ (.draw k g) { σ with identity := g, calls := σ.calls.set k call' }
  | commit {k : ℕ} {eventId : ℕ → String} {call : Call P} {db : Tables P}
      (hk : σ.calls[k]? = some call) (hinsert : call.insert σ.db eventId = some db) :
      Step σ (.commit k eventId) { σ with db := db, calls := σ.calls.set k .returned }
  | fail {k : ℕ} {call : Call P} (hk : σ.calls[k]? = some call) :
      Step σ (.fail k) { σ with calls := σ.calls.set k .returned }

lemma step_of_next {a : Action P} (hs : σ.next a = some σ') : Step σ a σ' := by
  cases a with
  | invoke batch =>
    obtain rfl := Option.some.inj hs
    cases hempty : batch.payloads.isEmpty with
    | true => exact .invoke batch rfl (fun _ => id) (by simp [Call.streamId?])
    | false => exact .invoke batch rfl (fun _ => id) (fun _ _ => ⟨rfl, by simpa using hempty⟩)
  | upsert k =>
    simp only [State.next] at hs
    split at hs
    · rename_i batch hk
      split_ifs at hs with hlocked hlength
      · obtain rfl := Option.some.inj hs
        exact .single hk hlocked hlength
      · obtain rfl := Option.some.inj hs
        exact .batch hk hlocked hlength
    · cases hs
  | draw k g =>
    simp only [State.next] at hs
    split_ifs at hs with hg
    obtain ⟨call', hcall', rfl⟩ := Option.map_eq_some_iff.mp hs
    obtain ⟨call, hk, hdraw⟩ := Option.bind_eq_some_iff.mp hcall'
    exact .draw hg hk hdraw
  | commit k eventId =>
    obtain ⟨db, hdb, rfl⟩ := Option.map_eq_some_iff.mp hs
    obtain ⟨call, hk, hinsert⟩ := Option.bind_eq_some_iff.mp hdb
    exact .commit hk hinsert
  | fail k =>
    simp only [State.next] at hs
    split at hs
    · cases hs
    · cases hs
    · rename_i call _ hk
      obtain rfl := Option.some.inj hs
      exact .fail hk

/-! ### Positions -/

/-- No two rows, stored or still to be stored, share a position. -/
abbrev Inv (σ : State P) : Prop := Drawn Call.positions 0 σ.identity σ.stored σ.calls

lemma inv_next {a : Action P} (h : Inv σ) (hs : σ.next a = some σ') : Inv σ' := by
  cases step_of_next hs with
  | invoke batch hpositions => exact h.start hpositions
  | single hk => exact h.keep hk rfl
  | batch hk => exact h.keep hk rfl
  | @draw k g call call' hg hk hdraw =>
    have hpositions : call'.positions ~ call.positions ++ [g] := by
      rw [(Call.draw_eq_some hdraw).1]
    refine h.draw hk hpositions (List.nodup_singleton g) hg.le ?_
    · intro g' hg'
      obtain rfl := List.mem_singleton.mp hg'
      exact ⟨hg, le_refl _⟩
  | commit hk hinsert =>
    obtain ⟨rows, hrows, hpositions, -⟩ := Call.insert_eq_some hinsert
    rw [Inv, State.stored, hrows, List.map_append, hpositions]
    exact h.store hk rfl
  | fail hk => exact h.drop hk rfl

lemma inv_of_reachable (h : (system P).Reachable σ) : Inv σ := by
  refine System.ReachBy.invariant (P := Inv) ?_ (fun _ _ _ _ hinv _ hs => inv_next hinv hs) h
  rintro σ ⟨hnonneg, hnodup, hstored, hcalls⟩
  have hledger : ledger Call.positions σ.stored σ.calls = σ.stored := by simp [ledger, hcalls]
  exact ⟨hnonneg, by rwa [hledger], by rwa [hledger]⟩

end EventSourcing.PostgresClient.Appends
