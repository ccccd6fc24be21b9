import EventSourcing.Mongo.Rehydrate
import EventSourcing.Postgres.Rehydrate

/-!
# Read, decide, append

`rehydrate` gives a client the last version of a stream, but `append` takes the version of the
event from the counter, whatever the client has seen. Two clients that have seen the same
version therefore both succeed, and no call returns a concurrency conflict. An append follows
the state it is based on where nobody else commits to the stream in the meantime.
-/

namespace EventSourcing

open Concurrency

/-- In every run of clients of either store in which no operation of the append call of client
`k` fails and nobody else commits to the stream between the last read that client `k` makes of
it and the return of the call: if the append succeeds, it has stored its event at the version
after the one the client has seen. -/
theorem append_follows_rehydrate (P A : Type) (k : ℕ) (s : String) (state : A) (v : Int) :
    (∀ (apply : A → Mongo.EventEnvelope P → A) (default : A)
      (p : Mongo.State P × List (Mongo.Client P A)),
      ((Mongo.system P).observe (Mongo.clients apply default)).ReachBy
        (fun p a => Mongo.Rehydrated p a ∧ Mongo.NoFailure k p a ∧ Mongo.NoOtherCommit k p a) p →
      p.2[k]? = some (.rehydrated s state v) →
        Guarded (p.1.calls k) p.1.db.events p.1.commits k s v) ∧
    ∀ (apply : A → Postgres.EventEnvelope P → A) (default : A)
      (p : Postgres.State P × List (Postgres.Client P A)),
      ((Postgres.system P).observe (Postgres.clients apply default)).ReachBy
        (fun p a =>
          Postgres.Rehydrated p a ∧ Postgres.NoFailure k p a ∧ Postgres.NoOtherCommit k p a) p →
      p.2[k]? = some (.rehydrated s state v) →
        Guarded (p.1.calls k) p.1.db.events p.1.commits k s v := by
  constructor
  · intro apply default p h hk
    exact (Mongo.clientAt_of_reachBy h).guarded hk
  · intro apply default p h hk
    exact (Postgres.clientAt_of_reachBy h).guarded hk

/-! ### Two clients that have seen the same version -/

namespace Mongo

/-- Client `k` rehydrates stream `s`, of which there are fewer than `n` events. -/
def clientReads (k : ℕ) (s : String) (n : ℕ) : List (Action ℕ ⊕ ClientStep) :=
  [.inr (.find s), .inr (.fetch k n)] ++ List.replicate (n - 1) (.inr (.next k)) ++
    [.inr (.finish k)]

/-- Client `k` appends to stream `s`. -/
def clientAppends (k : ℕ) (s : String) : List (Action ℕ ⊕ ClientStep) :=
  [.inl (.call k (.invoke ⟨.append, s, "OrderPlaced", 1, some k⟩)),
    .inl (.call k .advanceVersion), .inl (.call k .advanceSeq),
    .inl (.call k (.insertEvent (toString k) "t")), .inl (.call k (.commit true))]

end Mongo

namespace Postgres

/-- Client `k` appends to stream `s`. -/
def clientAppends (k : ℕ) (s : String) : List (Action ℕ ⊕ String) :=
  [.inl (.call k (.invoke ⟨.append, s, "OrderPlaced", 1, some k⟩)),
    .inl (.call k .advanceVersion), .inl (.call k (.drawPosition (k + 1))),
    .inl (.call k (.insertEvent (toString k) "t")), .inl (.call k (.commit true))]

end Postgres

def lostUpdateMongo : List (Mongo.Action ℕ ⊕ Mongo.ClientStep) :=
  Mongo.clientReads 0 "order-1" 1 ++ Mongo.clientReads 1 "order-1" 1 ++
    Mongo.clientAppends 0 "order-1" ++ Mongo.clientAppends 1 "order-1"

def lostUpdatePostgres : List (Postgres.Action ℕ ⊕ String) :=
  [.inr "order-1", .inr "order-1"] ++ Postgres.clientAppends 0 "order-1" ++
    Postgres.clientAppends 1 "order-1"

/-- Without the condition the second of two clients that have both seen version `-1` succeeds
at version `1`, in either store, though nothing fails. -/
theorem append_follows_rehydrate_fails :
    (¬ ∀ p, ((Mongo.system ℕ).observe (Mongo.clients (fun n _ => n + 1) 0)).ReachBy
        (fun p a => Mongo.Rehydrated p a ∧ Mongo.NoFailure 0 p a ∧ Mongo.NoFailure 1 p a) p →
      ∀ k s state v, p.2[k]? = some (.rehydrated s state v) →
        Guarded (p.1.calls k) p.1.db.events p.1.commits k s v) ∧
    ¬ ∀ p, ((Postgres.system ℕ).observe (Postgres.clients (fun n _ => n + 1) 0)).ReachBy
        (fun p a => Postgres.Rehydrated p a ∧ Postgres.NoFailure 0 p a ∧ Postgres.NoFailure 1 p a)
        p →
      ∀ k s state v, p.2[k]? = some (.rehydrated s state v) →
        Guarded (p.1.calls k) p.1.db.events p.1.commits k s v := by
  constructor
  · intro hclaim
    have hreach := System.reachBy_after
      (M := (Mongo.system ℕ).observe (Mongo.clients (fun n _ => n + 1) 0))
      (C := fun p a => Mongo.Rehydrated p a ∧ Mongo.NoFailure 0 p a ∧ Mongo.NoFailure 1 p a)
      lostUpdateMongo (s := (.initial, [])) ⟨rfl, rfl⟩ (by decide) (by decide)
    exact absurd ((hclaim _ hreach 1 "order-1" 0 (-1) (by rfl)).version rfl) (by decide)
  · intro hclaim
    have hreach := System.reachBy_after
      (M := (Postgres.system ℕ).observe (Postgres.clients (fun n _ => n + 1) 0))
      (C := fun p a =>
        Postgres.Rehydrated p a ∧ Postgres.NoFailure 0 p a ∧ Postgres.NoFailure 1 p a)
      lostUpdatePostgres (s := (.initial, [])) ⟨rfl, rfl⟩ (by decide) (by decide)
    exact absurd ((hclaim _ hreach 1 "order-1" 0 (-1) (by rfl)).version rfl) (by decide)

/-! ### Clients of two streams at once, and a third after them -/

def followingMongo : List (Mongo.Action ℕ ⊕ Mongo.ClientStep) :=
  Mongo.clientReads 0 "order-1" 1 ++ Mongo.clientReads 1 "order-2" 1 ++
    Mongo.clientAppends 0 "order-1" ++ Mongo.clientAppends 1 "order-2" ++
    Mongo.clientReads 2 "order-1" 2 ++ Mongo.clientAppends 2 "order-1"

def followingPostgres : List (Postgres.Action ℕ ⊕ String) :=
  [.inr "order-1", .inr "order-2"] ++ Postgres.clientAppends 0 "order-1" ++
    Postgres.clientAppends 1 "order-2" ++ [.inr "order-1"] ++ Postgres.clientAppends 2 "order-1"

theorem append_follows_rehydrate_third :
    let p := ((Mongo.system ℕ).observe (Mongo.clients (fun n _ => n + 1) 0)).after followingMongo
      (.initial, [])
    let q := ((Postgres.system ℕ).observe (Postgres.clients (fun n _ => n + 1) 0)).after
      followingPostgres (.initial, [])
    (p.1.db.events.length = 3 ∧
      Guarded (p.1.calls 2) p.1.db.events p.1.commits 2 "order-1" 0) ∧
      q.1.db.events.length = 3 ∧
      Guarded (q.1.calls 2) q.1.db.events q.1.commits 2 "order-1" 0 := by
  have hp := System.reachBy_after
    (M := (Mongo.system ℕ).observe (Mongo.clients (fun n _ => n + 1) 0))
    (C := fun p a => Mongo.Rehydrated p a ∧ Mongo.NoFailure 2 p a ∧ Mongo.NoOtherCommit 2 p a)
    followingMongo (s := (.initial, [])) ⟨rfl, rfl⟩ (by decide) (by decide)
  have hq := System.reachBy_after
    (M := (Postgres.system ℕ).observe (Postgres.clients (fun n _ => n + 1) 0))
    (C := fun p a =>
      Postgres.Rehydrated p a ∧ Postgres.NoFailure 2 p a ∧ Postgres.NoOtherCommit 2 p a)
    followingPostgres (s := (.initial, [])) ⟨rfl, rfl⟩ (by decide) (by decide)
  exact ⟨⟨by decide, (append_follows_rehydrate ℕ ℕ 2 "order-1" 1 0).1 _ _ _ hp (by rfl)⟩,
    by decide, (append_follows_rehydrate ℕ ℕ 2 "order-1" 1 0).2 _ _ _ hq (by rfl)⟩

end EventSourcing
