import EventSourcing.Store.Upcast
import Mathlib.Data.List.MinMax
import Mathlib.Order.Lattice.Nat

/-!
# Registries and their histories

A registry is what a history of `register` calls makes of the empty one. Its two maps are
written independently; the functions are those registered last for their keys and the current
version is one above the largest version registered (`fns_ofHistory`, `topVersion_ofHistory`), so
`upcast` follows the history (`upcast_ofHistory`).
-/

namespace EventSourcing

open Text

/-- A `register` call; the version above the one it is for is in range. -/
structure Registration where
  eventType : String
  fromVersion : UInt32
  f : Json → Json
  inRange : fromVersion.toNat + 1 < UInt32.size

namespace Registration

def key (r : Registration) : String × UInt32 := (r.eventType, r.fromVersion)

/-- The version the upcaster leads to. -/
def toVersion (r : Registration) : ℕ := r.fromVersion.toNat + 1

end Registration

/-! ### What a history says -/

/-- The function registered last for a version of an event type. -/
def lastRegistered (history : List Registration) (eventType : String) (version : ℕ) :
    Option (Json → Json) :=
  (history.reverse.find? fun r => r.eventType = eventType ∧ r.fromVersion.toNat = version).map (·.f)

/-- One above the largest version registered for an event type, if there is one. -/
def currentVersion (history : List Registration) (eventType : String) : WithBot ℕ :=
  ((history.filter fun r => r.eventType = eventType).map (·.toVersion)).maximum

/-- The functions registered last for the versions from `v` up to but not including `m` take
payload `p` to `q`. -/
inductive Passes (history : List Registration) (eventType : String) : ℕ → Json → ℕ → Json → Prop
  | refl (v : ℕ) (p : Json) : Passes history eventType v p v p
  | step {v m : ℕ} {p q : Json} {f : Json → Json} (hf : lastRegistered history eventType v = some f)
      (h : Passes history eventType (v + 1) (f p) m q) : Passes history eventType v p m q

namespace UpcastRegistry

def ofHistory (history : List Registration) : UpcastRegistry :=
  history.foldl (fun reg r => reg.register r.eventType r.fromVersion r.f) .new

variable {history : List Registration} {r r' : Registration} {reg : UpcastRegistry}
  {eventType : String} {v m : ℕ} {p q : Json}

@[ext] lemma ext {reg reg' : UpcastRegistry} (hfns : reg.fns = reg'.fns)
    (hcurrent : reg.current = reg'.current) : reg = reg' := by
  cases reg
  cases reg'
  simp_all

@[simp] lemma ofHistory_snoc : ofHistory (history ++ [r])
    = (ofHistory history).register r.eventType r.fromVersion r.f := by
  simp [ofHistory]

/-! ### The two maps -/

lemma lastRegistered_append (history history' : List Registration) :
    lastRegistered (history ++ history') eventType v
      = (lastRegistered history' eventType v).or (lastRegistered history eventType v) := by
  simp [lastRegistered, List.find?_append, Option.map_or]

lemma lastRegistered_singleton : lastRegistered [r] eventType v
    = if r.eventType = eventType ∧ r.fromVersion.toNat = v then some r.f else none := by
  simp only [lastRegistered, List.reverse_singleton, List.find?_singleton]
  split_ifs with h <;> simp_all

lemma currentVersion_append (history history' : List Registration) :
    currentVersion (history ++ history') eventType
      = max (currentVersion history eventType) (currentVersion history' eventType) := by
  simp [currentVersion, List.maximum_append]

lemma currentVersion_singleton : currentVersion [r] eventType
    = if r.eventType = eventType then WithBot.some r.toVersion else ⊥ := by
  simp only [currentVersion, List.filter_singleton]
  split_ifs with h <;> simp_all

lemma fns_ofHistory (version : UInt32) : (ofHistory history).fns (eventType, version)
    = lastRegistered history eventType version.toNat := by
  induction history using List.reverseRecOn with
  | nil => rfl
  | append_singleton history r ih =>
    rw [ofHistory_snoc, lastRegistered_append, lastRegistered_singleton, ← ih]
    by_cases h : r.eventType = eventType ∧ r.fromVersion = version
    · obtain ⟨rfl, rfl⟩ := h
      simp [register]
    · have hkey : ¬ (eventType, version) = (r.eventType, r.fromVersion) := by
        rintro heq
        exact h ⟨(Prod.mk.inj heq).1.symm, (Prod.mk.inj heq).2.symm⟩
      rw [← UInt32.toNat_inj] at h
      simp [register, hkey, h]

/-- What a registry takes for the current version of an event type. -/
def topVersion (reg : UpcastRegistry) (eventType : String) : WithBot ℕ :=
  match reg.current eventType with
  | some c => WithBot.some c.toNat
  | none => ⊥

lemma toNat_succ {version : UInt32} (h : version.toNat + 1 < UInt32.size) :
    (version + 1).toNat = version.toNat + 1 := by
  rw [UInt32.toNat_add]
  exact Nat.mod_eq_of_lt h

lemma topVersion_register (fromVersion : UInt32) (f : Json → Json)
    (h : fromVersion.toNat + 1 < UInt32.size) (t : String) :
    (reg.register eventType fromVersion f).topVersion t
      = if eventType = t then max (reg.topVersion t) (WithBot.some (fromVersion.toNat + 1))
        else reg.topVersion t := by
  have hnext : (fromVersion + 1).toNat = fromVersion.toNat + 1 := toNat_succ h
  by_cases ht : eventType = t
  · subst ht
    cases hc : reg.current eventType with
    | none => simp [topVersion, register, hc, hnext]
    | some c =>
      have hmax : (max c (fromVersion + 1)).toNat = max c.toNat (fromVersion.toNat + 1) := by
        rw [← hnext]
        by_cases hle : c ≤ fromVersion + 1
        · rw [max_eq_right (UInt32.le_iff_toNat_le.mp hle)]
          exact congrArg UInt32.toNat (if_pos hle)
        · rw [max_eq_left (Nat.le_of_lt (UInt32.lt_iff_toNat_lt.mp (UInt32.not_le.mp hle)))]
          exact congrArg UInt32.toNat (if_neg hle)
      simp [topVersion, register, hc, hmax]
  · simp [topVersion, register, ht, Ne.symm ht]

lemma topVersion_ofHistory : (ofHistory history).topVersion eventType
    = currentVersion history eventType := by
  induction history using List.reverseRecOn with
  | nil => rfl
  | append_singleton history r ih =>
    rw [ofHistory_snoc, topVersion_register _ _ r.inRange, currentVersion_append,
      currentVersion_singleton, ih]
    split_ifs
    · rfl
    · exact (max_bot_right _).symm

lemma current_eq_of_topVersion {reg reg' : UpcastRegistry}
    (h : reg.topVersion eventType = reg'.topVersion eventType) :
    reg.current eventType = reg'.current eventType := by
  simp only [topVersion] at h
  cases hc : reg.current eventType with
  | none =>
    cases hc' : reg'.current eventType with
    | none => rfl
    | some c' => simp [hc, hc'] at h
  | some c =>
    cases hc' : reg'.current eventType with
    | none => simp [hc, hc'] at h
    | some c' => simpa [hc, hc', UInt32.toNat_inj] using h

/-- Histories that say the same make the same registry. -/
lemma ofHistory_eq {history' : List Registration}
    (hfns : ∀ t v, lastRegistered history t v = lastRegistered history' t v)
    (hcurrent : ∀ t, currentVersion history t = currentVersion history' t) :
    ofHistory history = ofHistory history' := by
  refine ext (funext fun key => ?_) (funext fun t => ?_)
  · rw [← Prod.mk.eta (p := key), fns_ofHistory, fns_ofHistory, hfns]
  · refine current_eq_of_topVersion ?_
    rw [topVersion_ofHistory, topVersion_ofHistory, hcurrent]

/-- `register` calls for distinct keys commute. -/
lemma ofHistory_swap (before after : List Registration) (h : r.key ≠ r'.key) :
    ofHistory (before ++ r :: r' :: after) = ofHistory (before ++ r' :: r :: after) := by
  have hsplit : ∀ a b : Registration, before ++ a :: b :: after
      = before ++ ([a] ++ ([b] ++ after)) := fun _ _ => rfl
  rw [hsplit, hsplit]
  refine ofHistory_eq (fun t v => ?_) (fun t => ?_)
  · simp only [lastRegistered_append, lastRegistered_singleton]
    have hne : r.eventType = t ∧ r.fromVersion.toNat = v →
        ¬ (r'.eventType = t ∧ r'.fromVersion.toNat = v) := by
      rintro ⟨ht, hv⟩ ⟨ht', hv'⟩
      exact h (Prod.ext (ht.trans ht'.symm) (UInt32.toNat_inj.mp (hv.trans hv'.symm)))
    split_ifs with hr' hr
    · exact absurd hr' (hne hr)
    · simp
    · simp
    · simp
  · simp only [currentVersion_append]
    rw [max_left_comm (currentVersion [r] t)]

/-- A later call for the same key replaces an earlier one. -/
lemma ofHistory_replace (before between after : List Registration) (h : r.key = r'.key) :
    ofHistory (before ++ r :: (between ++ r' :: after))
      = ofHistory (before ++ (between ++ r' :: after)) := by
  obtain ⟨htype, hversion⟩ := Prod.mk.inj h
  have hsplit : before ++ r :: (between ++ r' :: after)
      = before ++ ([r] ++ (between ++ ([r'] ++ after))) := rfl
  have hsplit' : before ++ (between ++ r' :: after)
      = before ++ (between ++ ([r'] ++ after)) := rfl
  rw [hsplit, hsplit']
  refine ofHistory_eq (fun t v => ?_) (fun t => ?_)
  · simp only [lastRegistered_append, lastRegistered_singleton, htype, hversion]
    split_ifs with hr
    · simp
    · simp
  · simp only [currentVersion_append, currentVersion_singleton, htype, Registration.toVersion,
      hversion]
    split_ifs with hr
    · have hle (x y z : WithBot ℕ) : max x (max y (max x z)) = max y (max x z) :=
        max_eq_right (le_max_of_le_right (le_max_left x z))
      rw [hle]
    · simp

lemma migrate_congr {reg reg' : UpcastRegistry}
    (hfns : ∀ version, reg.fns (eventType, version) = reg'.fns (eventType, version)) (steps : ℕ)
    (ver : UInt32) (p : Json) :
    reg.migrate eventType steps ver p = reg'.migrate eventType steps ver p := by
  induction steps generalizing ver p with
  | zero => rfl
  | succ steps ih =>
    simp only [migrate, hfns]
    cases reg'.fns (eventType, ver) with
    | none => rfl
    | some f => exact ih (ver + 1) (f p)

/-- `register` calls for other event types do not matter. -/
lemma upcast_filter (history : List Registration) (storedVersion : UInt32) (payload : Json) :
    (ofHistory (history.filter fun r => r.eventType = eventType)).upcast eventType storedVersion
        payload = (ofHistory history).upcast eventType storedVersion payload := by
  have hfns : ∀ version, (ofHistory (history.filter fun r => r.eventType = eventType)).fns
      (eventType, version) = (ofHistory history).fns (eventType, version) := by
    intro version
    rw [fns_ofHistory, fns_ofHistory, lastRegistered, lastRegistered, ← List.filter_reverse,
      List.find?_filter]
    congr 2
    funext r
    simp
  have hcurrent : (ofHistory (history.filter fun r => r.eventType = eventType)).current eventType
      = (ofHistory history).current eventType := by
    refine current_eq_of_topVersion ?_
    rw [topVersion_ofHistory, topVersion_ofHistory, currentVersion, currentVersion,
      List.filter_filter]
    simp
  rw [upcast, upcast, target, target, hcurrent, migrate_congr hfns]

/-! ### The chain -/

/-- The version a type should reach from version `v`. -/
lemma toNat_target (history : List Registration) (eventType : String) (storedVersion : UInt32) :
    ((ofHistory history).target eventType storedVersion).toNat
      = (currentVersion history eventType).unbotD storedVersion.toNat := by
  rw [← topVersion_ofHistory, topVersion, target]
  cases (ofHistory history).current eventType with
  | none => rfl
  | some c => rfl

/-- No function is registered from the current version on. -/
lemma lastRegistered_of_le (h : currentVersion history eventType ≤ WithBot.some v) :
    lastRegistered history eventType v = none := by
  simp only [lastRegistered, Option.map_eq_none_iff, List.find?_eq_none, List.mem_reverse,
    decide_eq_true_eq]
  rintro r hr ⟨htype, rfl⟩
  have hmem : r.toVersion ∈ (history.filter fun r => r.eventType = eventType).map (·.toVersion) :=
    List.mem_map_of_mem (List.mem_filter.mpr ⟨hr, by simp [htype]⟩)
  have hle := (List.le_maximum_of_mem' hmem).trans h
  exact absurd (WithBot.coe_le_coe.mp hle) (Nat.not_succ_le_self _)

/-- The loop of `upcast` passes through the functions registered last, until one is missing or
there are no more versions. -/
lemma passes_migrate (history : List Registration) (eventType : String) (steps : ℕ) (ver : UInt32)
    (h : ver.toNat + steps < UInt32.size) (p : Json) :
    ∃ m ≤ ver.toNat + steps, Passes history eventType ver.toNat p m
        ((ofHistory history).migrate eventType steps ver p) ∧
      (m = ver.toNat + steps ∨ lastRegistered history eventType m = none) := by
  induction steps generalizing ver p with
  | zero => exact ⟨ver.toNat, le_refl _, .refl _ _, .inl rfl⟩
  | succ steps ih =>
    rw [migrate, fns_ofHistory]
    cases hf : lastRegistered history eventType ver.toNat with
    | none => exact ⟨ver.toNat, by omega, .refl _ _, .inr hf⟩
    | some f =>
      have hnext : (ver + 1).toNat = ver.toNat + 1 := toNat_succ (by omega)
      obtain ⟨m, hle, hpasses, hend⟩ := ih (ver + 1) (by omega) (f p)
      rw [hnext] at hle hpasses hend
      exact ⟨m, by omega, .step hf hpasses, by rwa [Nat.add_right_comm] at hend⟩

/-- `upcast` returns the payload as it is from the current version on, and what the chain makes
of it below. -/
lemma upcast_ofHistory (history : List Registration) (eventType : String) (storedVersion : UInt32)
    (payload : Json) :
    (currentVersion history eventType ≤ WithBot.some storedVersion.toNat →
      (ofHistory history).upcast eventType storedVersion payload = .current payload) ∧
    ∀ c : ℕ, currentVersion history eventType = WithBot.some c → storedVersion.toNat < c →
      ∃ m q, (ofHistory history).upcast eventType storedVersion payload
          = .migrated storedVersion q ∧
        Passes history eventType storedVersion.toNat payload m q ∧ m ≤ c ∧
        (m = c ∨ lastRegistered history eventType m = none) := by
  have htarget := toNat_target history eventType storedVersion
  constructor
  · intro hle
    refine if_pos (UInt32.le_iff_toNat_le.mpr ?_)
    rw [htarget]
    cases hc : currentVersion history eventType with
    | bot => exact le_refl _
    | coe c => exact WithBot.coe_le_coe.mp (hc ▸ hle)
  · intro c hc hlt
    rw [hc, WithBot.unbotD_coe] at htarget
    have hnot : ¬ (ofHistory history).target eventType storedVersion ≤ storedVersion := by
      rw [UInt32.le_iff_toNat_le, htarget]
      omega
    have hsteps : ((ofHistory history).target eventType storedVersion - storedVersion).toNat
        = c - storedVersion.toNat := by
      rw [UInt32.toNat_sub_of_le _ _ (UInt32.le_of_lt (UInt32.not_le.mp hnot)), htarget]
    have hrange : c < UInt32.size := by
      rw [← htarget]
      exact UInt32.toNat_lt _
    obtain ⟨m, hle, hpasses, hend⟩ := passes_migrate history eventType
      (c - storedVersion.toNat) storedVersion (by omega) payload
    rw [Nat.add_sub_cancel' hlt.le] at hle hend
    refine ⟨m, _, ?_, hpasses, hle, hend⟩
    rw [upcast, if_neg hnot, hsteps]

/-! ### Starting in the middle -/

/-- A chain that has ended continues every shorter one. -/
lemma passes_rest {m' : ℕ} {q' : Json} (h : Passes history eventType v p m q)
    (h' : Passes history eventType v p m' q') (hend : lastRegistered history eventType m' = none) :
    Passes history eventType m q m' q' := by
  induction h with
  | refl => exact h'
  | step hf _ ih =>
    cases h' with
    | refl => simp [hf] at hend
    | step hf' h' =>
      obtain rfl := Option.some.inj (hf.symm.trans hf')
      exact ih h'

/-- A chain ends in one payload. -/
lemma passes_unique {m' : ℕ} {q' : Json} (h : Passes history eventType v p m q)
    (hm : lastRegistered history eventType m = none) (h' : Passes history eventType v p m' q')
    (hend : lastRegistered history eventType m' = none) : q = q' := by
  cases passes_rest h h' hend with
  | refl => rfl
  | step hf => simp [hm] at hf

/-- The payload a result carries. -/
def resultPayload : UpcastResult Json → Json
  | .current event => event
  | .migrated _ event => event
  | .unrecognised raw => raw

lemma passes_upcast (history : List Registration) (eventType : String) (storedVersion : UInt32)
    (payload : Json) : ∃ m, Passes history eventType storedVersion.toNat payload m
        (resultPayload ((ofHistory history).upcast eventType storedVersion payload)) ∧
      lastRegistered history eventType m = none := by
  obtain ⟨hcurrent, hmigrated⟩ := upcast_ofHistory history eventType storedVersion payload
  rcases le_or_gt (currentVersion history eventType) (WithBot.some storedVersion.toNat)
    with hle | hlt
  · rw [hcurrent hle]
    exact ⟨storedVersion.toNat, .refl _ _, lastRegistered_of_le hle⟩
  · obtain ⟨c, hc⟩ := WithBot.ne_bot_iff_exists.mp (ne_bot_of_gt hlt)
    obtain ⟨m, q, hq, hpasses, -, hend⟩ := hmigrated c hc.symm
      (WithBot.coe_lt_coe.mp (hc ▸ hlt))
    rw [hq]
    refine ⟨m, hpasses, ?_⟩
    rcases hend with rfl | hend
    · exact lastRegistered_of_le hc.ge
    · exact hend

end UpcastRegistry

/-! ### Every history -/

/-- Whatever calls have made the registry: `upcast` leaves a payload that is at the current
version or above as it is and takes an older one through the functions registered last, up to
the first version without one or the current version. Calls for distinct keys commute, calls for
other types do not matter, a later call for a key replaces an earlier one, and from any version
in the middle of the chain the payload reached there comes to the same. -/
theorem upcast_follows_history (history : List Registration) (eventType : String)
    (storedVersion : UInt32) (payload : Json) :
    (currentVersion history eventType ≤ WithBot.some storedVersion.toNat →
      (UpcastRegistry.ofHistory history).upcast eventType storedVersion payload
        = .current payload) ∧
    (∀ c : ℕ, currentVersion history eventType = WithBot.some c → storedVersion.toNat < c →
      ∃ m q, (UpcastRegistry.ofHistory history).upcast eventType storedVersion payload
          = .migrated storedVersion q ∧
        Passes history eventType storedVersion.toNat payload m q ∧ m ≤ c ∧
        (m = c ∨ lastRegistered history eventType m = none)) ∧
    (∀ before after r r', Registration.key r ≠ r'.key →
      UpcastRegistry.ofHistory (before ++ r :: r' :: after)
        = UpcastRegistry.ofHistory (before ++ r' :: r :: after)) ∧
    (UpcastRegistry.ofHistory (history.filter fun r => r.eventType = eventType)).upcast eventType
        storedVersion payload
      = (UpcastRegistry.ofHistory history).upcast eventType storedVersion payload ∧
    (∀ before between after r r', Registration.key r = r'.key →
      UpcastRegistry.ofHistory (before ++ r :: (between ++ r' :: after))
        = UpcastRegistry.ofHistory (before ++ (between ++ r' :: after))) ∧
    ∀ (m : UInt32) (q : Json), Passes history eventType storedVersion.toNat payload m.toNat q →
      UpcastRegistry.resultPayload ((UpcastRegistry.ofHistory history).upcast eventType m q)
        = UpcastRegistry.resultPayload
          ((UpcastRegistry.ofHistory history).upcast eventType storedVersion payload) := by
  obtain ⟨hcurrent, hmigrated⟩ :=
    UpcastRegistry.upcast_ofHistory history eventType storedVersion payload
  refine ⟨hcurrent, hmigrated, ?_, ?_, ?_, ?_⟩
  · intro before after r r' h
    exact UpcastRegistry.ofHistory_swap before after h
  · exact UpcastRegistry.upcast_filter history storedVersion payload
  · intro before between after r r' h
    exact UpcastRegistry.ofHistory_replace before between after h
  · intro m q hpasses
    obtain ⟨n, hn, hend⟩ := UpcastRegistry.passes_upcast history eventType storedVersion payload
    obtain ⟨n', hn', hend'⟩ := UpcastRegistry.passes_upcast history eventType m q
    have hrest := UpcastRegistry.passes_rest hpasses hn hend
    exact UpcastRegistry.passes_unique hn' hend' hrest hend

/-- Version `2` is registered before version `1`, and version `1` a second time. -/
example :
    let history : List Registration :=
      [⟨"OrderPlaced", 2, fun v => .array [v], by decide⟩, ⟨"OrderPlaced", 1, id, by decide⟩,
        ⟨"OrderPlaced", 1, fun v => .array [.null, v], by decide⟩]
    (UpcastRegistry.ofHistory history).upcast "OrderPlaced" 1 .null
      = .migrated 1 (.array [.array [.null, .null]]) := by rfl

end EventSourcing
