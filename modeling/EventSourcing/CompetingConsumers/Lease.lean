import EventSourcing.Concurrency.System
import EventSourcing.CompetingConsumers.DateTime
import Mathlib.Data.Nat.Basic
import Mathlib.Logic.Function.Basic

/-!
# The leases of competing consumers

`try_acquire_lease` reads the clock and then updates one document of `_competing_consumers`,
with upsert; `release_lease` deletes it. Each is one atomic operation on the document of the
group, which the label of a step names. The clock never goes back; between reading it and the
update any time may pass.

What `chrono` makes of `now` plus the time to live is a parameter; it has no value where the
sum leaves the range and `chrono` panics.
-/

namespace EventSourcing.CompetingConsumers

open Concurrency

/-- A document of `_competing_consumers`. -/
structure Lease where
  consumerId : Option String
  acquiredAt : String
  expiresAt : String
  deriving DecidableEq

/-- The `$or` of the filter, for the document of the group. -/
def Lease.matches (lease : Lease) (consumerId now : String) : Prop :=
  lease.consumerId = none ∨ lease.expiresAt < now ∨ lease.consumerId = some consumerId

instance (lease : Lease) (consumerId now : String) : Decidable (lease.matches consumerId now) :=
  inferInstanceAs (Decidable (_ ∨ _ ∨ _))

/-- `update_one` of `try_acquire_lease`. Where no document matches, the upsert inserts one,
which fails on the `_id` of a document that is there. -/
def tryAcquireLease (doc : Option Lease) (consumerId : String) (now expiresAt : DateTime) :
    Except String Bool × Option Lease :=
  let lease : Lease := ⟨some consumerId, now.toRfc3339, expiresAt.toRfc3339⟩
  match doc with
  | none => (.ok true, some lease)
  | some held =>
    if held.matches consumerId now.toRfc3339 then (.ok true, some lease)
    else (.error "failed to update competing consumer lease", some held)

/-- `delete_one` of `release_lease`. -/
def releaseLease (doc : Option Lease) (consumerId : String) : Option Lease :=
  doc.filter fun lease => lease.consumerId ≠ some consumerId

/-! ### State -/

/-- A call of `try_acquire_lease`. -/
inductive Call where
  | idle
  /-- the clock has been read -/
  | acquiring (groupId consumerId : String) (now expiresAt : DateTime)
  /-- the sum of the clock and the time to live was out of range -/
  | panicked
  | returned (result : Except String Bool)

structure State where
  clock : DateTime
  leases : String → Option Lease
  calls : ℕ → Call
  /-- history: the expiry that the last `Ok(true)` call of a consumer wrote, until the consumer
  releases the lease -/
  grants : String → String → Option DateTime

inductive Action where
  | tick (now : DateTime)
  | invoke (c : ℕ) (groupId consumerId : String) (leaseTtlSecs : UInt32)
  | update (c : ℕ)
  /-- the update fails and has changed nothing; one that took effect and whose answer is lost is
  not among the steps -/
  | fail (c : ℕ)
  | release (groupId consumerId : String)

namespace State

/-- The grant of one consumer of one group. -/
def putGrant (σ : State) (groupId consumerId : String) (grant : Option DateTime) :
    String → String → Option DateTime :=
  Function.update σ.grants groupId (Function.update (σ.grants groupId) consumerId grant)

/-- The update of call `c`. -/
def update (σ : State) (c : ℕ) (groupId consumerId : String) (now expiresAt : DateTime) : State :=
  let (result, doc) := tryAcquireLease (σ.leases groupId) consumerId now expiresAt
  { σ with
    leases := Function.update σ.leases groupId doc
    calls := Function.update σ.calls c (.returned result)
    grants :=
      match result with
      | .ok true => σ.putGrant groupId consumerId (some expiresAt)
      | _ => σ.grants }

/-- The delete of a `release_lease` call. -/
def release (σ : State) (groupId consumerId : String) : State :=
  { σ with
    leases := Function.update σ.leases groupId (releaseLease (σ.leases groupId) consumerId)
    grants := σ.putGrant groupId consumerId none }

variable (plusSeconds : DateTime → UInt32 → Option DateTime)

def next (σ : State) : Action → Option State
  | .tick now => if σ.clock ≤ now then some { σ with clock := now } else none
  | .invoke c groupId consumerId leaseTtlSecs =>
    match σ.calls c with
    | .idle =>
      match plusSeconds σ.clock leaseTtlSecs with
      | none => some { σ with calls := Function.update σ.calls c .panicked }
      | some expiresAt =>
        some { σ with
          calls := Function.update σ.calls c (.acquiring groupId consumerId σ.clock expiresAt) }
    | _ => none
  | .update c =>
    match σ.calls c with
    | .acquiring groupId consumerId now expiresAt =>
      some (σ.update c groupId consumerId now expiresAt)
    | _ => none
  | .fail c =>
    match σ.calls c with
    | .acquiring _ _ _ _ =>
      some { σ with
        calls := Function.update σ.calls c
          (.returned (.error "failed to update competing consumer lease")) }
    | _ => none
  | .release groupId consumerId => some (σ.release groupId consumerId)

end State

/-- Every run of the two calls from an empty collection. -/
def system (plusSeconds : DateTime → UInt32 → Option DateTime) : System State Action where
  init σ := σ.leases = (fun _ => none) ∧ σ.calls = (fun _ => .idle) ∧ σ.grants = fun _ _ => none
  next := State.next plusSeconds

/-! ### One unexpired grant -/

/-- A grant has run out or is the lease that is stored. -/
def GrantHolds (σ : State) (groupId consumerId : String) (expiresAt : DateTime) : Prop :=
  expiresAt < σ.clock ∨ ∃ acquiredAt,
    σ.leases groupId = some ⟨some consumerId, acquiredAt, expiresAt.toRfc3339⟩

structure Inv (σ : State) : Prop where
  clock : ∀ c groupId consumerId now expiresAt,
    σ.calls c = .acquiring groupId consumerId now expiresAt → now ≤ σ.clock
  grants : ∀ groupId consumerId expiresAt,
    σ.grants groupId consumerId = some expiresAt → GrantHolds σ groupId consumerId expiresAt

variable {σ σ' : State} {groupId consumerId : String}

/-- What a call that leaves the lease alone keeps. -/
lemma Inv.putCall (h : Inv σ) {c : ℕ} {call : Call}
    (hcall : ∀ groupId consumerId now expiresAt,
      call = .acquiring groupId consumerId now expiresAt → now ≤ σ.clock) :
    Inv { σ with calls := Function.update σ.calls c call } where
  clock c' groupId consumerId now expiresAt hc := by
    by_cases heq : c' = c
    · subst heq
      exact hcall groupId consumerId now expiresAt (by simpa using hc)
    · exact h.clock c' groupId consumerId now expiresAt (by simpa [heq] using hc)
  grants := h.grants

/-- The grants of another group or consumer stay. -/
lemma putGrant_of_ne {g c : String} (h : ¬ (g = groupId ∧ c = consumerId))
    (grant : Option DateTime) : σ.putGrant groupId consumerId grant g c = σ.grants g c := by
  simp only [State.putGrant]
  by_cases hg : g = groupId
  · subst hg
    have hc : c ≠ consumerId := fun hc => h ⟨rfl, hc⟩
    simp [hc]
  · simp [hg]

@[simp] lemma putGrant_self (grant : Option DateTime) :
    σ.putGrant groupId consumerId grant groupId consumerId = grant := by
  simp [State.putGrant]

/-- Where the filter matches a lease that another consumer's grant wrote, that grant has run
out. -/
lemma lt_clock_of_matches {c acquiredAt : String} {now expiresAt : DateTime}
    (hm : Lease.matches ⟨some c, acquiredAt, expiresAt.toRfc3339⟩ consumerId now.toRfc3339)
    (hc : c ≠ consumerId) : expiresAt < now := by
  rcases hm with hm | hm | hm
  · cases hm
  · exact DateTime.toRfc3339_lt_iff.mp hm
  · exact absurd (Option.some.inj hm) hc

/-- Taking the lease over leaves the other grants, all of which have run out. -/
lemma Inv.acquired (h : Inv σ) {c : ℕ} {now expiresAt : DateTime} (hnow : now ≤ σ.clock)
    (hfree : ∀ held, σ.leases groupId = some held → held.matches consumerId now.toRfc3339)
    (result : Except String Bool) :
    Inv { σ with
      leases := Function.update σ.leases groupId
        (some ⟨some consumerId, now.toRfc3339, expiresAt.toRfc3339⟩)
      calls := Function.update σ.calls c (.returned result)
      grants := σ.putGrant groupId consumerId (some expiresAt) } where
  clock := by
    have hput : Inv { σ with calls := Function.update σ.calls c (.returned result) } :=
      h.putCall (by simp)
    exact hput.clock
  grants g c' x hx := by
    by_cases hself : g = groupId ∧ c' = consumerId
    · obtain ⟨rfl, rfl⟩ := hself
      obtain rfl : expiresAt = x := by simpa using hx
      exact .inr ⟨now.toRfc3339, by simp⟩
    · have hx : σ.grants g c' = some x := by
        simpa only [putGrant_of_ne hself] using hx
      rcases h.grants g c' x hx with hlt | ⟨acquiredAt, hdoc⟩
      · exact .inl hlt
      · by_cases hg : g = groupId
        · subst hg
          have hc : c' ≠ consumerId := fun hc => hself ⟨rfl, hc⟩
          exact .inl ((lt_clock_of_matches (hfree _ hdoc) hc).trans_le hnow)
        · exact .inr ⟨acquiredAt, by simpa [hg] using hdoc⟩

lemma Inv.update (h : Inv σ) {c : ℕ} {now expiresAt : DateTime}
    (hc : σ.calls c = .acquiring groupId consumerId now expiresAt) :
    Inv (σ.update c groupId consumerId now expiresAt) := by
  have hnow := h.clock c groupId consumerId now expiresAt hc
  cases hdoc : σ.leases groupId with
  | none =>
    simp only [State.update, tryAcquireLease, hdoc]
    exact h.acquired hnow (by simp [hdoc]) _
  | some held =>
    by_cases hm : held.matches consumerId now.toRfc3339
    · simp only [State.update, tryAcquireLease, hdoc, if_pos hm]
      exact h.acquired hnow (by simpa [hdoc] using hm) _
    · simp only [State.update, tryAcquireLease, hdoc, if_neg hm]
      have hsame : Function.update σ.leases groupId (some held) = σ.leases := by
        rw [← hdoc, Function.update_eq_self]
      rw [hsame]
      exact h.putCall (by simp)

/-- A release deletes no lease but the consumer's own. -/
lemma releaseLease_of_ne {lease : Lease} (h : lease.consumerId ≠ some consumerId) :
    releaseLease (some lease) consumerId = some lease := by
  simp [releaseLease, Option.filter, h]

lemma Inv.release (h : Inv σ) (groupId consumerId : String) :
    Inv (σ.release groupId consumerId) where
  clock := h.clock
  grants g c x hx := by
    by_cases hself : g = groupId ∧ c = consumerId
    · obtain ⟨rfl, rfl⟩ := hself
      simp [State.release] at hx
    · have hx : σ.grants g c = some x := by
        simpa only [State.release, putGrant_of_ne hself] using hx
      rcases h.grants g c x hx with hlt | ⟨acquiredAt, hdoc⟩
      · exact .inl hlt
      · refine .inr ⟨acquiredAt, ?_⟩
        by_cases hg : g = groupId
        · subst hg
          have hc : c ≠ consumerId := fun hc => hself ⟨rfl, hc⟩
          simp only [State.release, Function.update_self, hdoc]
          exact releaseLease_of_ne (by simpa using hc)
        · simpa [State.release, hg] using hdoc

variable {plusSeconds : DateTime → UInt32 → Option DateTime}

lemma inv_next {a : Action} (h : Inv σ) (hs : σ.next plusSeconds a = some σ') : Inv σ' := by
  cases a with
  | tick now =>
    simp only [State.next] at hs
    split_ifs at hs with hle
    obtain rfl := Option.some.inj hs
    constructor
    · intro c g i n x hc
      exact (h.clock c g i n x hc).trans hle
    · intro g i x hx
      exact (h.grants g i x hx).imp_left fun hlt => hlt.trans_le hle
  | invoke c groupId consumerId leaseTtlSecs =>
    simp only [State.next] at hs
    split at hs
    · split at hs
      · obtain rfl := Option.some.inj hs
        exact h.putCall (by simp)
      · obtain rfl := Option.some.inj hs
        exact h.putCall fun g i n x hc => by
          simp only [Call.acquiring.injEq] at hc
          exact hc.2.2.1 ▸ le_refl σ.clock
    · cases hs
  | update c =>
    simp only [State.next] at hs
    split at hs
    · rename_i hc
      obtain rfl := Option.some.inj hs
      exact h.update hc
    · cases hs
  | fail c =>
    simp only [State.next] at hs
    split at hs
    · obtain rfl := Option.some.inj hs
      exact h.putCall (by simp)
    · cases hs
  | release groupId consumerId =>
    obtain rfl := Option.some.inj hs
    exact h.release groupId consumerId

lemma inv_of_reachable (h : (system plusSeconds).Reachable σ) : Inv σ := by
  refine System.ReachBy.invariant (P := Inv) ?_ ?_ h
  · rintro σ ⟨hleases, hcalls, hgrants⟩
    exact ⟨by simp [hcalls], by simp [hgrants]⟩
  · exact fun _ _ _ _ hinv _ hs => inv_next hinv hs

/-- At every time at most one consumer of a group has a grant that has not run out, and a
release leaves a lease of another consumer as it is. -/
theorem lease_exclusive (h : (system plusSeconds).Reachable σ) (groupId : String) :
    (∀ c c' x x', σ.grants groupId c = some x → σ.grants groupId c' = some x' →
      σ.clock ≤ x → σ.clock ≤ x' → c = c') ∧
    ∀ consumerId lease, σ.leases groupId = some lease → lease.consumerId ≠ some consumerId →
      (σ.release groupId consumerId).leases = σ.leases := by
  have hinv := inv_of_reachable h
  constructor
  · intro c c' x x' hx hx' hle hle'
    obtain ⟨acquiredAt, hdoc⟩ := (hinv.grants groupId c x hx).resolve_left (not_lt.mpr hle)
    obtain ⟨acquiredAt', hdoc'⟩ := (hinv.grants groupId c' x' hx').resolve_left (not_lt.mpr hle')
    rw [hdoc, Option.some.injEq, Lease.mk.injEq, Option.some.injEq] at hdoc'
    exact hdoc'.1
  · intro consumerId lease hlease hne
    simp only [State.release, hlease, releaseLease_of_ne hne]
    rw [← hlease, Function.update_eq_self]

/-! ### A takeover -/

/-- Noon and so many seconds. -/
def noon (second : ℕ) (h : second < 60) : DateTime where
  year := 2024
  month := 2
  day := 29
  hour := 12
  minute := 0
  second := second
  nano := 0
  date := by decide
  time := ⟨by decide, by decide, h, by decide⟩

/-- `now` plus the time to live, where the sum stays within the minute. -/
def withinMinute (now : DateTime) (leaseTtlSecs : UInt32) : Option DateTime :=
  if h : now.second + leaseTtlSecs.toNat < 60 then
    some { now with
      second := now.second + leaseTtlSecs.toNat
      time := ⟨now.time.1, now.time.2.1, h, now.time.2.2.2⟩ }
  else none

/-- `a` holds the lease, `b` is turned away and takes over after the expiry, and `a` releases
late. -/
def takeoverRun : List Action :=
  [.invoke 0 "projector" "a" 5, .update 0, .invoke 1 "projector" "b" 5, .update 1,
    .tick (noon 6 (by decide)), .invoke 2 "projector" "b" 5, .update 2, .release "projector" "a"]

/-- No lease and no call yet, at noon. -/
def State.atNoon : State where
  clock := noon 0 (by decide)
  leases _ := none
  calls _ := .idle
  grants _ _ := none

theorem lease_exclusive_takeover :
    let σ := (system withinMinute).after takeoverRun .atNoon
    (σ.leases "projector").map (·.consumerId) = some (some "b") ∧
      ∀ c x, σ.grants "projector" c = some x → σ.clock ≤ x → c = "b" := by
  have hgrant : ((system withinMinute).after takeoverRun .atNoon).grants "projector" "b"
      = some (noon 11 (by decide)) := by decide
  have hclock : ((system withinMinute).after takeoverRun .atNoon).clock
      ≤ noon 11 (by decide) := by decide
  have hrun : ((system withinMinute).run takeoverRun .atNoon).isSome := by decide
  have h := (lease_exclusive (System.reachable_after _ ⟨rfl, rfl, rfl⟩ hrun) "projector").1
  exact ⟨by decide, fun c x hx hle => h c "b" x _ hx hgrant hle hclock⟩

end EventSourcing.CompetingConsumers
