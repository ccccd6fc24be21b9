import EventSourcing.CompetingConsumers.Elapsed
import EventSourcing.CompetingConsumers.Lease
import EventSourcing.Text.Bytes

/-!
# When a lease is acquired

`try_acquire_lease` compares the stored expiry with the clock as texts, byte by byte, which is
the order of time (`rfc3339_takeover`). Where another consumer holds an unexpired lease the
filter matches no document, the upsert inserts one under the `_id` that is there, and the call
returns the duplicate-key error instead of `Ok(false)` (`acquire_outcome`).
-/

namespace EventSourcing

open Text

/-! ### The texts as bytes -/

namespace DateTime

lemma ascii_digits (w n : ℕ) : Ascii (digits w n) := by
  induction w generalizing n with
  | zero => exact ascii_nil
  | succ w ih =>
    have hdigit : ∀ i < 10, i.digitChar.val ≤ 0x7f := by decide
    rw [digits, ascii_append, ascii_cons]
    exact ⟨ih _, hdigit _ (Nat.mod_lt _ (by decide)), ascii_nil⟩

lemma ascii_fraction (nano : ℕ) : Ascii (fraction nano) := by
  simp only [fraction]
  split_ifs
  · exact ascii_nil
  · exact ascii_cons.mpr ⟨by decide, ascii_digits _ _⟩
  · exact ascii_cons.mpr ⟨by decide, ascii_digits _ _⟩
  · exact ascii_cons.mpr ⟨by decide, ascii_digits _ _⟩

lemma ascii_toRfc3339 (t : DateTime) : Ascii t.toRfc3339.toList := by
  have hoffset : Ascii offset := by simp [offset]
  simp [toRfc3339, ascii_digits, ascii_fraction, hoffset]

end DateTime

namespace CompetingConsumers

open Concurrency

/-- The bytes of the texts of two instants compare like their times, whatever the lengths of
their fractions, and so a lease of another consumer is taken over exactly when its expiry lies
in the past of the caller's clock. -/
theorem rfc3339_takeover (e n : DateTime) :
    (bytes e.toRfc3339 < bytes n.toRfc3339 ↔ e.elapsed < n.elapsed) ∧
    ∀ (holder consumerId acquiredAt : String) (expiresAt : DateTime), holder ≠ consumerId →
      (tryAcquireLease (some ⟨some holder, acquiredAt, e.toRfc3339⟩) consumerId n expiresAt
          = (.ok true, some ⟨some consumerId, n.toRfc3339, expiresAt.toRfc3339⟩) ↔
        e.elapsed < n.elapsed) := by
  constructor
  · rw [bytes_lt_iff e.ascii_toRfc3339 n.ascii_toRfc3339, DateTime.toRfc3339_lt_iff,
      DateTime.elapsed_lt_iff]
  · intro holder consumerId acquiredAt expiresAt hne
    have hmatches : Lease.matches ⟨some holder, acquiredAt, e.toRfc3339⟩ consumerId n.toRfc3339 ↔
        e.elapsed < n.elapsed := by
      rw [DateTime.elapsed_lt_iff, ← DateTime.toRfc3339_lt_iff, Lease.matches]
      constructor
      · rintro (hm | hm | hm)
        · cases hm
        · exact hm
        · exact absurd (Option.some.inj hm) hne
      · exact fun hlt => .inr (.inl hlt)
    rw [← hmatches, tryAcquireLease]
    split_ifs with hm
    · simp [hm]
    · simp [hm]

/-! ### The leases that are stored -/

/-- Every lease has a holder and the text of an instant as its expiry. -/
def Written (σ : State) : Prop :=
  ∀ groupId lease, σ.leases groupId = some lease → ∃ holder acquiredAt expiresAt,
    lease = ⟨some holder, acquiredAt, DateTime.toRfc3339 expiresAt⟩

variable {σ σ' : State} {c : ℕ} {groupId consumerId : String}
  {plusSeconds : DateTime → UInt32 → Option DateTime}

lemma Written.put (h : Written σ) {doc : Option Lease}
    (hdoc : ∀ lease, doc = some lease → ∃ holder acquiredAt expiresAt,
      lease = ⟨some holder, acquiredAt, DateTime.toRfc3339 expiresAt⟩)
    (hleases : σ'.leases = Function.update σ.leases groupId doc) : Written σ' := by
  intro g lease hlease
  rw [hleases] at hlease
  by_cases hg : g = groupId
  · subst hg
    exact hdoc lease (by simpa using hlease)
  · exact h g lease (by simpa [hg] using hlease)

lemma Written.tryAcquire (h : Written σ) (now expiresAt : DateTime) (lease : Lease)
    (hlease : (tryAcquireLease (σ.leases groupId) consumerId now expiresAt).2 = some lease) :
    ∃ holder acquiredAt expiresAt,
      lease = ⟨some holder, acquiredAt, DateTime.toRfc3339 expiresAt⟩ := by
  simp only [tryAcquireLease] at hlease
  split at hlease
  · obtain rfl := Option.some.inj hlease
    exact ⟨_, _, _, rfl⟩
  · rename_i held hheld
    split_ifs at hlease
    · obtain rfl := Option.some.inj hlease
      exact ⟨_, _, _, rfl⟩
    · obtain rfl := Option.some.inj hlease
      exact h groupId held hheld

lemma written_next {a : Action} (h : Written σ) (hs : σ.next plusSeconds a = some σ') :
    Written σ' := by
  cases a with
  | tick now =>
    simp only [State.next] at hs
    split_ifs at hs
    obtain rfl := Option.some.inj hs
    exact h
  | invoke c groupId consumerId leaseTtlSecs =>
    simp only [State.next] at hs
    split at hs
    · split at hs
      · obtain rfl := Option.some.inj hs
        exact h
      · obtain rfl := Option.some.inj hs
        exact h
    · cases hs
  | update c =>
    simp only [State.next] at hs
    split at hs
    · rename_i groupId consumerId now expiresAt _
      obtain rfl := Option.some.inj hs
      exact h.put (h.tryAcquire now expiresAt) rfl
    · cases hs
  | fail c =>
    simp only [State.next] at hs
    split at hs
    · obtain rfl := Option.some.inj hs
      exact h
    · cases hs
  | release groupId consumerId =>
    obtain rfl := Option.some.inj hs
    refine h.put (fun lease hlease => ?_) rfl
    exact h groupId lease (Option.eq_some_of_filter_eq_some hlease)

lemma written_of_reachable (h : (system plusSeconds).Reachable σ) : Written σ := by
  refine System.ReachBy.invariant (P := Written) ?_ ?_ h
  · rintro σ ⟨hleases, -, -⟩
    simp [Written, hleases]
  · exact fun _ _ _ _ hwritten _ hs => written_next hwritten hs

/-! ### A call that nobody disturbs -/

/-- A step of another call that leaves the group alone. -/
def LeavesGroup (c : ℕ) (groupId : String) (σ : State) : Action → Prop
  | .tick _ => True
  | .invoke c' _ _ _ => c' ≠ c
  | .update c' => c' ≠ c ∧
    match σ.calls c' with
    | .acquiring g _ _ _ => g ≠ groupId
    | _ => True
  | .fail c' => c' ≠ c
  | .release g _ => g ≠ groupId

/-- The group has no lease, its lease has expired, or the consumer holds it. -/
def Free (σ : State) (groupId consumerId : String) : Prop :=
  σ.leases groupId = none ∨
    (∃ lease expiresAt, σ.leases groupId = some lease ∧
      lease.expiresAt = DateTime.toRfc3339 expiresAt ∧ expiresAt < σ.clock) ∨
    ∃ lease, σ.leases groupId = some lease ∧ lease.consumerId = some consumerId

/-- What the call is to come to: `Ok(true)` and a lease of the consumer where the group is free,
and otherwise `Ok(false)` and the lease that was there. -/
def Outcome (before after : State) (c : ℕ) (groupId consumerId : String)
    (expiresAt : Option DateTime) : Prop :=
  (after.calls c = .returned (.ok true) ∧
      (∃ x ∈ expiresAt, after.leases groupId
        = some ⟨some consumerId, before.clock.toRfc3339, x.toRfc3339⟩) ↔
    Free before groupId consumerId) ∧
  (¬ Free before groupId consumerId →
    after.calls c = .returned (.ok false) ∧ after.leases groupId = before.leases groupId)

/-- The lease and the call stay as they are. -/
lemma leaves_next {a : Action} (hC : LeavesGroup c groupId σ a)
    (hs : σ.next plusSeconds a = some σ') :
    σ'.leases groupId = σ.leases groupId ∧ σ'.calls c = σ.calls c := by
  cases a with
  | tick now =>
    simp only [State.next] at hs
    split_ifs at hs
    obtain rfl := Option.some.inj hs
    exact ⟨rfl, rfl⟩
  | invoke c' g i leaseTtlSecs =>
    have hne : c' ≠ c := hC
    simp only [State.next] at hs
    split at hs
    · split at hs
      · obtain rfl := Option.some.inj hs
        exact ⟨rfl, by simp [hne.symm]⟩
      · obtain rfl := Option.some.inj hs
        exact ⟨rfl, by simp [hne.symm]⟩
    · cases hs
  | update c' =>
    obtain ⟨hne, hg⟩ := hC
    simp only [State.next] at hs
    split at hs
    · rename_i g i now expiresAt hcall
      obtain rfl := Option.some.inj hs
      have hg : g ≠ groupId := by simpa [hcall] using hg
      exact ⟨by simp [State.update, hg.symm], by simp [State.update, hne.symm]⟩
    · cases hs
  | fail c' =>
    have hne : c' ≠ c := hC
    simp only [State.next] at hs
    split at hs
    · obtain rfl := Option.some.inj hs
      exact ⟨rfl, by simp [hne.symm]⟩
    · cases hs
  | release g i =>
    have hne : g ≠ groupId := hC
    obtain rfl := Option.some.inj hs
    exact ⟨by simp [State.release, hne.symm], rfl⟩

/-- The filter of the call matches exactly where the group is free. -/
lemma matches_iff_free (h : Written σ) {held : Lease} (hheld : σ.leases groupId = some held) :
    held.matches consumerId σ.clock.toRfc3339 ↔ Free σ groupId consumerId := by
  obtain ⟨holder, acquiredAt, expiresAt, rfl⟩ := h groupId held hheld
  simp only [Lease.matches, Free, hheld]
  constructor
  · rintro (hm | hm | hm)
    · cases hm
    · exact .inr (.inl ⟨_, expiresAt, rfl, rfl, DateTime.toRfc3339_lt_iff.mp hm⟩)
    · exact .inr (.inr ⟨_, rfl, hm⟩)
  · rintro (hm | ⟨lease, x, heq, hx, hlt⟩ | ⟨lease, heq, hm⟩)
    · cases hm
    · obtain rfl := Option.some.inj heq
      refine .inr (.inl ?_)
      dsimp only at hx ⊢
      rw [hx]
      exact DateTime.toRfc3339_lt_iff.mpr hlt
    · obtain rfl := Option.some.inj heq
      exact .inr (.inr hm)

lemma leaves_later {σ σ' : State}
    (hl : (system plusSeconds).LaterBy (LeavesGroup c groupId) σ σ') :
    σ'.leases groupId = σ.leases groupId ∧ σ'.calls c = σ.calls c := by
  induction hl with
  | refl => exact ⟨rfl, rfl⟩
  | tail _ hs ih =>
    obtain ⟨a, hC, hs⟩ := hs
    obtain ⟨hlease, hcall⟩ := leaves_next hC hs
    exact ⟨hlease.trans ih.1, hcall.trans ih.2⟩

/-- What such a call makes of the lease it met. -/
lemma completed {σ₀ σ₁ σ₂ σ₃ : State} {leaseTtlSecs : UInt32}
    (hinvoke : σ₀.next plusSeconds (.invoke c groupId consumerId leaseTtlSecs) = some σ₁)
    (hl : (system plusSeconds).LaterBy (LeavesGroup c groupId) σ₁ σ₂)
    (hupdate : σ₂.next plusSeconds (.update c) = some σ₃) :
    ∃ x, plusSeconds σ₀.clock leaseTtlSecs = some x ∧
      σ₃.calls c = .returned (tryAcquireLease (σ₀.leases groupId) consumerId σ₀.clock x).1 ∧
      σ₃.leases groupId = (tryAcquireLease (σ₀.leases groupId) consumerId σ₀.clock x).2 := by
  obtain ⟨hlease, hcall⟩ := leaves_later hl
  simp only [State.next] at hinvoke
  split at hinvoke
  · split at hinvoke
    · -- the panic has ended the call
      obtain rfl := Option.some.inj hinvoke
      simp [State.next, hcall] at hupdate
    · rename_i x hx
      obtain rfl := Option.some.inj hinvoke
      simp only [Function.update_self] at hcall
      dsimp only at hlease
      rw [← hlease]
      simp only [State.next, hcall] at hupdate
      obtain rfl := Option.some.inj hupdate
      exact ⟨x, hx, by simp [State.update], by simp [State.update]⟩
  · cases hinvoke

/-- In every reachable state, for every call that no other call on the group disturbs: the call
comes to what it is to come to exactly when the group has no lease, its lease has expired, or
the consumer holds it. -/
theorem acquire_outcome {σ₀ σ₁ σ₂ σ₃ : State} {leaseTtlSecs : UInt32}
    (h : (system plusSeconds).Reachable σ₀)
    (hinvoke : σ₀.next plusSeconds (.invoke c groupId consumerId leaseTtlSecs) = some σ₁)
    (hl : (system plusSeconds).LaterBy (LeavesGroup c groupId) σ₁ σ₂)
    (hupdate : σ₂.next plusSeconds (.update c) = some σ₃) :
    Outcome σ₀ σ₃ c groupId consumerId (plusSeconds σ₀.clock leaseTtlSecs) ↔
      Free σ₀ groupId consumerId := by
  obtain ⟨x, hx, hcall, hlease⟩ := completed hinvoke hl hupdate
  simp only [tryAcquireLease] at hcall hlease
  cases hdoc : σ₀.leases groupId with
  | none =>
    have hfree : Free σ₀ groupId consumerId := .inl hdoc
    rw [hdoc] at hcall hlease
    refine iff_of_true ⟨iff_of_true ⟨hcall, x, hx, hlease⟩ hfree, ?_⟩ hfree
    exact fun hnot => absurd hfree hnot
  | some held =>
    have hmatches : held.matches consumerId σ₀.clock.toRfc3339 ↔ Free σ₀ groupId consumerId :=
      matches_iff_free (written_of_reachable h) hdoc
    rw [hdoc] at hcall hlease
    dsimp only at hcall hlease
    by_cases hfree : Free σ₀ groupId consumerId
    · rw [if_pos (hmatches.mpr hfree)] at hcall hlease
      refine iff_of_true ⟨iff_of_true ⟨hcall, x, hx, hlease⟩ hfree, ?_⟩ hfree
      exact fun hnot => absurd hfree hnot
    · rw [if_neg (hmatches.not.mpr hfree)] at hcall
      refine iff_of_false (fun houtcome => ?_) hfree
      have hfalse := (houtcome.2 hfree).1
      rw [hcall] at hfalse
      cases hfalse

/-- The lease of `a`, which has five seconds. -/
def State.heldByA : State :=
  (system withinMinute).after [.invoke 0 "projector" "a" 5, .update 0] .atNoon

lemma reachable_heldByA : (system withinMinute).Reachable .heldByA :=
  System.reachable_after _ ⟨rfl, rfl, rfl⟩ (by decide)

/-- `a` renews its lease. -/
theorem acquire_outcome_renewal :
    let σ := (system withinMinute).after [.invoke 1 "projector" "a" 5, .update 1] .heldByA
    Outcome .heldByA σ 1 "projector" "a" (withinMinute State.heldByA.clock 5) := by
  have hfree : Free .heldByA "projector" "a" := .inr (.inr ⟨_, rfl, rfl⟩)
  exact (acquire_outcome reachable_heldByA rfl .refl rfl).mpr hfree

/-- `b` asks for the lease that `a` holds for five more seconds. -/
theorem acquire_outcome_fails :
    let σ := (system withinMinute).after [.invoke 1 "projector" "b" 5, .update 1] .heldByA
    (system withinMinute).Reachable .heldByA ∧ ¬ Free .heldByA "projector" "b" ∧
      σ.calls 1 = .returned (.error "failed to update competing consumer lease") ∧
      ¬ Outcome .heldByA σ 1 "projector" "b" (withinMinute State.heldByA.clock 5) := by
  have hheld : State.heldByA.leases "projector" = some ⟨some "a",
      (noon 0 (by decide)).toRfc3339, (noon 5 (by decide)).toRfc3339⟩ := rfl
  have hfree : ¬ Free .heldByA "projector" "b" := by
    rw [← matches_iff_free (written_of_reachable reachable_heldByA) hheld]
    rintro (hm | hm | hm)
    · cases hm
    · exact absurd (DateTime.toRfc3339_lt_iff.mp hm) (by decide)
    · simp at hm
  refine ⟨reachable_heldByA, hfree, rfl, fun houtcome => ?_⟩
  cases (houtcome.2 hfree).1

end CompetingConsumers

end EventSourcing
