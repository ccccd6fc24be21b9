import EventSourcing.Concurrency.SessionLock
import EventSourcing.Concurrency.System

/-!
# The leases of `PgEventStore`

`try_acquire_lease` and `release_lease` are one statement each. The advisory lock they take and
give back belongs to the session of the pooled connection that the statement runs on, and a
label names that connection; the consumer that makes the call is not told. Every process has a
pool of its own. A call that fails has not reached the server, or its session has ended
(`close`).

The standard library's hash of the group is a parameter: groups may share a key.
-/

namespace EventSourcing.Postgres.AdvisoryLease

open Concurrency

/-- The size of the pool of `connect`. -/
abbrev maxConnections : ℕ := 16

structure Session where
  process : ℕ
  connection : Fin maxConnections
  deriving DecidableEq

structure Consumer where
  process : ℕ
  consumerId : String
  deriving DecidableEq

/-- The session a consumer's call runs on, if it is given this connection of its pool. -/
def Consumer.session (consumer : Consumer) (connection : Fin maxConnections) : Session where
  process := consumer.process
  connection := connection

@[simp] lemma Consumer.session_process (consumer : Consumer) (connection : Fin maxConnections) :
    (consumer.session connection).process = consumer.process := rfl

structure State where
  locks : SessionLocks Session Int64
  /-- history: the consumers that a call of `try_acquire_lease` for the group has given `true`
  and that have not released the lease since -/
  leased : String → List Consumer

inductive Action where
  | tryAcquireLease (consumer : Consumer) (groupId : String) (connection : Fin maxConnections)
  | releaseLease (consumer : Consumer) (groupId : String) (connection : Fin maxConnections)
  | close (session : Session)

namespace State

variable (stableHash : String → Int64)

def initial : State where
  locks _ := none
  leased _ := []

/-- `SELECT pg_try_advisory_lock($1)` -/
def tryAcquireLease (σ : State) (consumer : Consumer) (groupId : String)
    (connection : Fin maxConnections) : Bool × State :=
  let (acquired, locks) := σ.locks.tryLock (consumer.session connection) (stableHash groupId)
  (acquired,
    { locks := locks
      leased :=
        if acquired then
          Function.update σ.leased groupId ((σ.leased groupId).insert consumer)
        else σ.leased })

/-- `SELECT pg_advisory_unlock($1)`; what it answers is not looked at. -/
def releaseLease (σ : State) (consumer : Consumer) (groupId : String)
    (connection : Fin maxConnections) : State where
  locks := (σ.locks.unlock (consumer.session connection) (stableHash groupId)).2
  leased := Function.update σ.leased groupId ((σ.leased groupId).filter (· ≠ consumer))

def next (σ : State) : Action → Option State
  | .tryAcquireLease consumer groupId connection =>
    some (σ.tryAcquireLease stableHash consumer groupId connection).2
  | .releaseLease consumer groupId connection =>
    some (σ.releaseLease stableHash consumer groupId connection)
  | .close session => some { σ with locks := σ.locks.close session }

end State

/-- Every run of the two calls, on any connections of any number of pools. -/
def system (stableHash : String → Int64) : System State Action where
  init σ := σ = .initial
  next := State.next stableHash

variable {stableHash : String → Int64} {σ σ' : State} {consumer c : Consumer}
  {groupId g : String} {connection : Fin maxConnections}

/-! ### One consumer at a time -/

/-- The lock of the group is neither shared nor freed while another consumer has the lease. -/
def KeepsLease (stableHash : String → Int64) (groupId : String) (σ : State) : Action → Prop
  | .tryAcquireLease consumer g connection => g = groupId →
      σ.locks.Holds (consumer.session connection) (stableHash groupId) →
      ∀ c ∈ σ.leased groupId, c = consumer
  | .releaseLease consumer g connection => stableHash g = stableHash groupId →
      σ.locks.HoldsOnce (consumer.session connection) (stableHash groupId) →
      ∀ c ∈ σ.leased groupId, g = groupId ∧ c = consumer
  | .close session => σ.locks.Holds session (stableHash groupId) → σ.leased groupId = []

instance (stableHash : String → Int64) (groupId : String) (σ : State) :
    (a : Action) → Decidable (KeepsLease stableHash groupId σ a)
  | .tryAcquireLease _ _ _ => inferInstanceAs (Decidable (_ → _ → _))
  | .releaseLease _ _ _ => inferInstanceAs (Decidable (_ → _ → _))
  | .close _ => inferInstanceAs (Decidable (_ → _))

/-- At most one consumer has the lease, and then a session holds the lock. -/
structure Exclusive (stableHash : String → Int64) (groupId : String) (σ : State) : Prop where
  locked : σ.leased groupId ≠ [] → σ.locks (stableHash groupId) ≠ none
  one : ∀ c ∈ σ.leased groupId, ∀ c' ∈ σ.leased groupId, c = c'

/-- A call that is turned away changes nothing. -/
lemma tryAcquireLease_of_false
    (h : (σ.tryAcquireLease stableHash consumer g connection).1 = false) :
    (σ.tryAcquireLease stableHash consumer g connection).2 = σ := by
  simp only [State.tryAcquireLease] at h ⊢
  simp [SessionLocks.tryLock_of_false h, h]

/-- A call that takes the lock leaves it to its session. -/
lemma tryAcquireLease_of_true
    (h : (σ.tryAcquireLease stableHash consumer g connection).1 = true) :
    let σ' := (σ.tryAcquireLease stableHash consumer g connection).2
    σ'.locks.Holds (consumer.session connection) (stableHash g) ∧
      (∀ k ≠ stableHash g, σ'.locks k = σ.locks k) ∧
      σ'.leased = Function.update σ.leased g ((σ.leased g).insert consumer) := by
  simp only [State.tryAcquireLease] at h ⊢
  exact ⟨SessionLocks.holds_of_tryLock h, fun k hk => SessionLocks.tryLock_of_ne hk, by simp [h]⟩

lemma mem_leased_tryAcquireLease (h : c ∈ σ.leased groupId) :
    c ∈ (σ.tryAcquireLease stableHash consumer g connection).2.leased groupId := by
  cases hacq : (σ.tryAcquireLease stableHash consumer g connection).1 with
  | false => rwa [tryAcquireLease_of_false hacq]
  | true =>
    rw [(tryAcquireLease_of_true hacq).2.2, Function.update_apply]
    split_ifs with hg
    · exact List.mem_insert_of_mem (hg ▸ h)
    · exact h

lemma Exclusive.tryAcquireLease (h : Exclusive stableHash groupId σ)
    (hC : KeepsLease stableHash groupId σ (.tryAcquireLease consumer g connection)) :
    Exclusive stableHash groupId (σ.tryAcquireLease stableHash consumer g connection).2 := by
  cases hacq : (σ.tryAcquireLease stableHash consumer g connection).1 with
  | false => rwa [tryAcquireLease_of_false hacq]
  | true =>
    obtain ⟨hholds, hother, hleased⟩ := tryAcquireLease_of_true hacq
    constructor
    · intro hne
      by_cases hkey : stableHash groupId = stableHash g
      · obtain ⟨hold, hlock, -⟩ := hholds
        rw [hkey, hlock]
        exact Option.some_ne_none hold
      · have hg : groupId ≠ g := fun hg => hkey (congrArg stableHash hg)
        rw [hother _ hkey]
        exact h.locked (by simpa [hleased, hg] using hne)
    · by_cases hg : groupId = g
      · subst hg
        -- nobody but the caller can have had the lease
        have hold : ∀ c ∈ σ.leased groupId, c = consumer := by
          rcases SessionLocks.tryLock_eq_true.mp hacq with hfree | hmine
          · have hnil : σ.leased groupId = [] := by
              by_contra hne
              exact h.locked hne hfree
            simp [hnil]
          · exact hC rfl hmine
        have hnew : ∀ c ∈ (σ.tryAcquireLease stableHash consumer groupId connection).2.leased
            groupId, c = consumer := by
          intro c hc
          rw [hleased, Function.update_self, List.mem_insert_iff] at hc
          exact hc.elim id (hold c)
        exact fun c hc c' hc' => (hnew c hc).trans (hnew c' hc').symm
      · simpa [hleased, hg] using h.one

lemma leased_releaseLease :
    (σ.releaseLease stableHash consumer g connection).leased groupId
      = if groupId = g then (σ.leased g).filter (· ≠ consumer) else σ.leased groupId := by
  simp only [State.releaseLease, Function.update_apply]

lemma Exclusive.releaseLease (h : Exclusive stableHash groupId σ)
    (hC : KeepsLease stableHash groupId σ (.releaseLease consumer g connection)) :
    Exclusive stableHash groupId (σ.releaseLease stableHash consumer g connection) := by
  have hsub : ∀ c ∈ (σ.releaseLease stableHash consumer g connection).leased groupId,
      c ∈ σ.leased groupId ∧ (g = groupId → c ≠ consumer) := by
    intro c hc
    rw [leased_releaseLease] at hc
    split_ifs at hc with hg
    · subst hg
      simpa using hc
    · exact ⟨hc, fun heq => absurd heq.symm hg⟩
  constructor
  · intro hne
    obtain ⟨c, hc⟩ := List.exists_mem_of_ne_nil _ hne
    obtain ⟨hmem, hkept⟩ := hsub c hc
    have hlocked := h.locked (List.ne_nil_of_mem hmem)
    by_cases hkey : stableHash groupId = stableHash g
    · refine hkey ▸ SessionLocks.unlock_ne_none (hkey ▸ hlocked) ?_
      intro honce
      obtain ⟨hg, hself⟩ := hC hkey.symm (hkey ▸ honce) c hmem
      exact hkept hg hself
    · simpa only [State.releaseLease, SessionLocks.unlock_of_ne hkey] using hlocked
  · exact fun c hc c' hc' => h.one c (hsub c hc).1 c' (hsub c' hc').1

lemma Exclusive.close {session : Session} (h : Exclusive stableHash groupId σ)
    (hC : KeepsLease stableHash groupId σ (.close session)) :
    Exclusive stableHash groupId { σ with locks := σ.locks.close session } where
  locked hne := SessionLocks.close_ne_none (h.locked hne) fun hholds => hne (hC hholds)
  one := h.one

/-- In every run that keeps the lease of the group, at most one consumer has it at a time: no
call of another consumer returns `true` before the release. -/
theorem advisory_lease_exclusive (groupId : String)
    (h : (system stableHash).ReachBy (KeepsLease stableHash groupId) σ) :
    ∀ c ∈ σ.leased groupId, ∀ c' ∈ σ.leased groupId, c = c' := by
  refine (System.ReachBy.invariant (P := Exclusive stableHash groupId) ?_ ?_ h).one
  · rintro σ rfl
    exact ⟨fun hne => absurd rfl hne, by simp [State.initial]⟩
  · intro σ a σ' _ hexclusive hC hs
    cases a with
    | tryAcquireLease consumer g connection =>
      obtain rfl := Option.some.inj hs
      exact hexclusive.tryAcquireLease hC
    | releaseLease consumer g connection =>
      obtain rfl := Option.some.inj hs
      exact hexclusive.releaseLease hC
    | close session =>
      obtain rfl := Option.some.inj hs
      exact hexclusive.close hC

/-! ### Two consumers on one connection -/

/-- The key of group `order-processors`. -/
def orderProcessorsKey : Int64 := -6274055759000541697

/-- Two consumers of one process are given the same connection. -/
def sharedRun : List Action :=
  [.tryAcquireLease ⟨0, "a"⟩ "order-processors" 0, .tryAcquireLease ⟨0, "b"⟩ "order-processors" 0]

/-- Without the condition both of them have the lease. -/
theorem advisory_lease_exclusive_fails :
    ¬ ∀ (stableHash : String → Int64) (σ : State) (groupId : String),
      (system stableHash).Reachable σ →
        ∀ c ∈ σ.leased groupId, ∀ c' ∈ σ.leased groupId, c = c' := by
  intro hclaim
  have hreach := System.reachable_after (M := system fun _ => orderProcessorsKey) sharedRun
    (s := .initial) rfl rfl
  have hone := hclaim _ _ "order-processors" hreach ⟨0, "a"⟩ (by decide) ⟨0, "b"⟩ (by decide)
  exact absurd hone (by decide)

/-- A consumer of another process is turned away until the release. -/
def handoverRun : List Action :=
  [.tryAcquireLease ⟨0, "a"⟩ "order-processors" 0, .tryAcquireLease ⟨1, "b"⟩ "order-processors" 0,
    .releaseLease ⟨0, "a"⟩ "order-processors" 0, .tryAcquireLease ⟨1, "b"⟩ "order-processors" 3]

theorem advisory_lease_exclusive_handover :
    let σ := (system fun _ => orderProcessorsKey).after handoverRun .initial
    ⟨1, "b"⟩ ∈ σ.leased "order-processors" ∧
      ∀ c ∈ σ.leased "order-processors", ∀ c' ∈ σ.leased "order-processors", c = c' := by
  have hreach := System.reachBy_after (M := system fun _ => orderProcessorsKey)
    (C := KeepsLease (fun _ => orderProcessorsKey) "order-processors") handoverRun
    (s := .initial) rfl (by decide) rfl
  exact ⟨by decide, advisory_lease_exclusive "order-processors" hreach⟩

/-! ### What a release leaves behind -/

/-- No session of the pool of the process holds the lock of the group. -/
def PoolFree (stableHash : String → Int64) (groupId : String) (process : ℕ) (σ : State) : Prop :=
  ∀ hold ∈ σ.locks (stableHash groupId), hold.session.process ≠ process

/-- The session holds the lock once, where a session of its pool holds it at all. -/
def HeldOnce (stableHash : String → Int64) (groupId : String) (session : Session) (σ : State) :
    Prop :=
  ∀ hold ∈ σ.locks (stableHash groupId), hold.session.process = session.process →
    hold = ⟨session, 0⟩

/-- In its process only the consumer makes calls for the group or for one that shares its key,
and its releases run on the session that holds the lock, which holds it once. -/
def ReleasesHold (stableHash : String → Int64) (groupId : String) (consumer : Consumer)
    (σ : State) : Action → Prop
  | .tryAcquireLease c g _ => c.process = consumer.process → stableHash g = stableHash groupId →
      c = consumer ∧ g = groupId
  | .releaseLease c g connection =>
      c.process = consumer.process → stableHash g = stableHash groupId →
      (c = consumer ∧ g = groupId) ∧
        HeldOnce stableHash groupId (consumer.session connection) σ
  | .close _ => True

section Decidable

variable (stableHash : String → Int64) (groupId : String) (consumer : Consumer) (σ : State)

instance (process : ℕ) : Decidable (PoolFree stableHash groupId process σ) :=
  inferInstanceAs (Decidable (∀ hold ∈ σ.locks (stableHash groupId), _))

instance (session : Session) : Decidable (HeldOnce stableHash groupId session σ) :=
  inferInstanceAs (Decidable (∀ hold ∈ σ.locks (stableHash groupId), _))

instance : (a : Action) → Decidable (ReleasesHold stableHash groupId consumer σ a)
  | .tryAcquireLease _ _ _ => inferInstanceAs (Decidable (_ → _ → _))
  | .releaseLease _ _ _ => inferInstanceAs (Decidable (_ → _ → _))
  | .close _ => isTrue trivial

end Decidable

/-- A release leaves the pool without the lock just where its session holds the lock once or
no session of the pool holds it. -/
lemma poolFree_releaseLease :
    PoolFree stableHash groupId consumer.process
        (σ.releaseLease stableHash consumer groupId connection) ↔
      HeldOnce stableHash groupId (consumer.session connection) σ := by
  simp only [PoolFree, HeldOnce, State.releaseLease]
  cases hlock : σ.locks (stableHash groupId) with
  | none =>
    have hnot : ¬ σ.locks.Holds (consumer.session connection) (stableHash groupId) := by
      simp [SessionLocks.Holds, hlock]
    simp [SessionLocks.unlock_of_not_holds hnot, hlock]
  | some hold =>
    by_cases hs : hold.session = consumer.session connection
    · rw [SessionLocks.unlock_self hlock hs]
      cases hlower : SessionLocks.lower hold with
      | none =>
        have hzero := SessionLocks.lower_eq_none.mp hlower
        simp [← hs, ← hzero]
      | some rest =>
        have hrest : rest.session.process = consumer.process := by
          rw [SessionLocks.lower_session hlower, hs, Consumer.session_process]
        have hagain : hold ≠ ⟨consumer.session connection, 0⟩ := by
          rintro rfl
          cases hlower
        simp [hrest, hs, hagain]
    · have hnot : ¬ σ.locks.Holds (consumer.session connection) (stableHash groupId) :=
        fun hheld => hs ((SessionLocks.holds_iff hlock).mp hheld)
      have hother : hold ≠ ⟨consumer.session connection, 0⟩ := by
        rintro rfl
        exact hs rfl
      simp [SessionLocks.unlock_of_not_holds hnot, hlock, hother]

/-- The end of a session holds nothing. -/
lemma PoolFree.close {process : ℕ} (session : Session)
    (h : PoolFree stableHash groupId process σ) :
    PoolFree stableHash groupId process { σ with locks := σ.locks.close session } := by
  intro hold hhold
  exact h hold (Option.filter_eq_some_iff.mp hhold).1

/-- A call of another process leaves the pool as it is. -/
lemma PoolFree.tryAcquireLease {process : ℕ} (h : PoolFree stableHash groupId process σ)
    (hother : c.process = process → stableHash g ≠ stableHash groupId) :
    PoolFree stableHash groupId process (σ.tryAcquireLease stableHash c g connection).2 := by
  cases hacq : (σ.tryAcquireLease stableHash c g connection).1 with
  | false => rwa [tryAcquireLease_of_false hacq]
  | true =>
    obtain ⟨hholds, hkeys, -⟩ := tryAcquireLease_of_true hacq
    intro hold hhold hprocess
    by_cases hkey : stableHash groupId = stableHash g
    · obtain ⟨hold', hlock, hs⟩ := hholds
      obtain rfl : hold = hold' := Option.some.inj (hhold.symm.trans (hkey ▸ hlock))
      refine hother ?_ hkey.symm
      rw [← hprocess, hs, Consumer.session_process]
    · exact h hold (hkeys _ hkey ▸ hhold) hprocess

lemma PoolFree.releaseLease {process : ℕ} (h : PoolFree stableHash groupId process σ) :
    PoolFree stableHash groupId process (σ.releaseLease stableHash c g connection) := by
  intro hold hhold
  obtain ⟨hold', hlock, hs⟩ := SessionLocks.exists_of_unlock hhold
  exact hs ▸ h hold' hlock

/-- In every run of one consumer's calls whose releases run on the session that holds the lock
once, no session of the pool holds the lock while the consumer is without the lease; and any
release on another session, or of a lock that is held more often, leaves it held. -/
theorem advisory_lease_released (stableHash : String → Int64) (groupId : String)
    (consumer : Consumer) :
    (∀ σ, (system stableHash).ReachBy (ReleasesHold stableHash groupId consumer) σ →
      consumer ∉ σ.leased groupId → PoolFree stableHash groupId consumer.process σ) ∧
    ∀ σ connection, PoolFree stableHash groupId consumer.process
        (σ.releaseLease stableHash consumer groupId connection) ↔
      HeldOnce stableHash groupId (consumer.session connection) σ := by
  constructor
  · intro σ h
    refine System.ReachBy.invariant (P := fun σ : State => consumer ∉ σ.leased groupId →
      PoolFree stableHash groupId consumer.process σ) ?_ ?_ h
    · rintro σ rfl -
      simp [PoolFree, State.initial]
    · intro σ a σ' _ hfree hC hs hnot
      cases a with
      | tryAcquireLease c g connection =>
        obtain rfl := Option.some.inj hs
        by_cases hmine : c.process = consumer.process ∧ stableHash g = stableHash groupId
        · obtain ⟨rfl, rfl⟩ := hC hmine.1 hmine.2
          cases hacq : (σ.tryAcquireLease stableHash c g connection).1 with
          | false =>
            rw [tryAcquireLease_of_false hacq] at hnot ⊢
            exact hfree hnot
          | true => simp [(tryAcquireLease_of_true hacq).2.2] at hnot
        · have hbefore : consumer ∉ σ.leased groupId := fun hmem =>
            hnot (mem_leased_tryAcquireLease hmem)
          exact (hfree hbefore).tryAcquireLease fun hp hk => hmine ⟨hp, hk⟩
      | releaseLease c g connection =>
        obtain rfl := Option.some.inj hs
        by_cases hmine : c.process = consumer.process ∧ stableHash g = stableHash groupId
        · obtain ⟨⟨rfl, rfl⟩, honce⟩ := hC hmine.1 hmine.2
          exact poolFree_releaseLease.mpr honce
        · have hbefore : consumer ∉ σ.leased groupId := by
            rw [leased_releaseLease] at hnot
            split_ifs at hnot with hg
            · subst hg
              have hne : consumer ≠ c := fun hc => hmine ⟨congrArg _ hc.symm, rfl⟩
              simpa [hne] using hnot
            · exact hnot
          exact (hfree hbefore).releaseLease
      | close session =>
        obtain rfl := Option.some.inj hs
        exact (hfree hnot).close session
  · intro σ connection
    exact poolFree_releaseLease

/-- The lease is taken twice on one connection and released once. -/
def leakingRun : List Action :=
  [.tryAcquireLease ⟨0, "a"⟩ "order-processors" 0, .tryAcquireLease ⟨0, "a"⟩ "order-processors" 0,
    .releaseLease ⟨0, "a"⟩ "order-processors" 0]

/-- Without the condition the pool still holds the lock after the release. -/
theorem advisory_lease_released_fails :
    ¬ ∀ (stableHash : String → Int64) (σ : State) (groupId : String) (consumer : Consumer),
      (system stableHash).ReachBy
        (fun _ a => ∃ connection, a = .tryAcquireLease consumer groupId connection ∨
          a = .releaseLease consumer groupId connection) σ →
        consumer ∉ σ.leased groupId → PoolFree stableHash groupId consumer.process σ := by
  intro hclaim
  have hreach := System.reachBy_after (M := system fun _ => orderProcessorsKey)
    (C := fun _ a => ∃ connection,
      a = .tryAcquireLease ⟨0, "a"⟩ "order-processors" connection ∨
        a = .releaseLease ⟨0, "a"⟩ "order-processors" connection)
    leakingRun (s := .initial) rfl
    (System.along_of_forall (by simp [leakingRun])) rfl
  exact absurd (hclaim _ _ "order-processors" ⟨0, "a"⟩ hreach (by decide)) (by decide)

theorem advisory_lease_released_handover :
    let σ := (system fun _ => orderProcessorsKey).after handoverRun .initial
    PoolFree (fun _ => orderProcessorsKey) "order-processors" 0 σ := by
  have hreach := System.reachBy_after (M := system fun _ => orderProcessorsKey)
    (C := ReleasesHold (fun _ => orderProcessorsKey) "order-processors" ⟨0, "a"⟩) handoverRun
    (s := .initial) rfl (by decide) rfl
  exact (advisory_lease_released _ "order-processors" ⟨0, "a"⟩).1 _ hreach (by decide)

end EventSourcing.Postgres.AdvisoryLease
