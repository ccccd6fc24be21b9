import EventSourcing.Concurrency.Numbering
import EventSourcing.Concurrency.System
import EventSourcing.Store.Envelope

/-!
# The event log

What an event store is for, without databases and transactions: a log of envelopes in commit
order that only grows, where an event joins under the next version of its stream. Both stores
are shown to simulate this system; what holds of every log then holds of every committed
state of the stores.
-/

namespace EventSourcing

open Concurrency

variable {V P : Type}

namespace EventLog

/-- The number of events of a stream. -/
def streamLength (log : List (EventEnvelope V P)) (s : String) : ℕ :=
  classCount EventEnvelope.streamId log s

/-- In every stream the versions are `0, 1, …` in commit order. -/
def StreamsNumbered (log : List (EventEnvelope V P)) : Prop :=
  Numbered EventEnvelope.streamId EventEnvelope.streamVersion log

/-- The positions over all streams are `0, 1, …` in commit order. -/
def PositionsNumbered (log : List (EventEnvelope V P)) : Prop :=
  Numbered (fun _ => ()) EventEnvelope.globalPosition log

variable (V P) in
/-- The log as a system: one label for each event that joins. -/
def system : System (List (EventEnvelope V P)) (EventEnvelope V P) where
  init log := log = []
  next log e := if e.streamVersion = streamLength log e.streamId then some (log ++ [e]) else none

variable {log log' : List (EventEnvelope V P)} {e : EventEnvelope V P}

lemma next_eq_some : (system V P).next log e = some log' ↔
    e.streamVersion = streamLength log e.streamId ∧ log ++ [e] = log' := by
  simp only [system]
  split_ifs with h <;> simp [h]

@[simp] lemma streamLength_nil (s : String) :
    streamLength ([] : List (EventEnvelope V P)) s = 0 := rfl

lemma streamLength_snoc (s : String) :
    streamLength (log ++ [e]) s = streamLength log s + if e.streamId = s then 1 else 0 := by
  simp [streamLength, classCount_singleton]

lemma positionsNumbered_iff : PositionsNumbered log ↔
    log.map EventEnvelope.globalPosition = (List.range log.length).map fun i : ℕ => (i : ℤ) := by
  simp [PositionsNumbered, Numbered, classCount]

/-- Where the positions of each stream ascend, the event of the smaller version has the smaller
position. -/
lemma StreamsNumbered.position_lt (h : StreamsNumbered log)
    (hpositions : ∀ s, (log.filter (·.streamId = s)).Pairwise fun e e' =>
      e.globalPosition < e'.globalPosition)
    {e e' : EventEnvelope V P} (he : e ∈ log) (he' : e' ∈ log) (hs : e.streamId = e'.streamId)
    (hv : e.streamVersion < e'.streamVersion) : e.globalPosition < e'.globalPosition := by
  have hascends := (List.pairwise_map.mp (Numbered.sorted h e'.streamId)).and
    (hpositions e'.streamId)
  have hmem : e ∈ log.filter (·.streamId = e'.streamId) :=
    List.mem_filter.mpr ⟨he, decide_eq_true hs⟩
  have hmem' : e' ∈ log.filter (·.streamId = e'.streamId) :=
    List.mem_filter.mpr ⟨he', decide_eq_true rfl⟩
  refine List.Pairwise.forall_of_forall_of_flip
    (R := fun d d' : EventEnvelope V P =>
      d.streamVersion < d'.streamVersion → d.globalPosition < d'.globalPosition)
    ?_ (hascends.imp fun hlt _ => hlt.2) ?_ hmem hmem' hv
  · intro d _ hlt
    exact absurd hlt (Int.lt_irrefl _)
  · exact hascends.imp fun hlt hgt => absurd hgt (Int.lt_asymm hlt.1)

/-- Every log the system reaches numbers its streams. -/
theorem streamsNumbered_of_reachable (h : (system V P).Reachable log) : StreamsNumbered log := by
  refine System.ReachBy.invariant (P := StreamsNumbered) ?_ ?_ h
  · rintro _ rfl
    exact numbered_nil
  · intro log e log' _ hlog _ hs
    obtain ⟨hv, rfl⟩ := next_eq_some.mp hs
    exact Numbered.snoc hlog hv

/-- A log only grows. -/
theorem prefix_of_later (h : (system V P).Later log log') : log <+: log' := by
  induction h with
  | refl => exact List.prefix_refl log
  | tail _ hs ih =>
    obtain ⟨e, hs⟩ := hs
    obtain ⟨-, rfl⟩ := next_eq_some.mp hs
    exact ih.trans (List.prefix_append _ _)

/-- The log of a system that simulates this one only grows. -/
theorem prefix_of_simulation {S A : Type} {M : System S A} {f : S → List (EventEnvelope V P)}
    (hf : System.Simulation M (system V P) f) {s s' : S} (h : M.Reachable s)
    (hl : M.Later s s') : f s <+: f s' :=
  prefix_of_later (hf.later h hl)

end EventLog

end EventSourcing
