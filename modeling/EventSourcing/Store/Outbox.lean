import EventSourcing.Store.Calls
import Mathlib.Data.List.Nodup

/-!
# Events, outbox entries and the commits behind them

`Mirrors` ties the committed events and the outbox to the commits of the append calls: one
event for each commit and, for the commits of `append_with_outbox`, one entry with the content
of its event.
-/

namespace EventSourcing

variable {V P : Type}

/-- The commits that write an outbox entry. -/
def outboxCommits (commits : List (Commit V P)) : List (Commit V P) :=
  commits.filter fun commit => commit.kind = .appendWithOutbox

/-- The entry a commit writes next to its event. -/
def Commit.entries (commit : Commit V P) : List (OutboxEntry P) :=
  match commit.kind with
  | .append => []
  | .appendWithOutbox => [.ofEnvelope commit.envelope]

/-- The entry a commit writes carries its event, and only `append_with_outbox` writes one. -/
lemma Commit.eq_of_entry (commit : Commit V P) {o : OutboxEntry P} (ho : o ∈ commit.entries) :
    commit.kind = .appendWithOutbox ∧ o = .ofEnvelope commit.envelope := by
  cases hk : commit.kind
  · simp [Commit.entries, hk] at ho
  · exact ⟨rfl, by simpa [Commit.entries, hk] using ho⟩

/-- The entry a commit writes is pending. -/
lemma Commit.entries_pending (commit : Commit V P) {o : OutboxEntry P} (ho : o ∈ commit.entries) :
    o.dispatched = false := by
  obtain ⟨-, rfl⟩ := commit.eq_of_entry ho
  rfl

/-- The events are those of the commits, and the outbox holds the entries of the commits that
write one, whatever their dispatch. -/
structure Mirrors (commits : List (Commit V P)) (events : List (EventEnvelope V P))
    (outbox : List (OutboxEntry P)) : Prop where
  events_eq : events = commits.map Commit.envelope
  ids : (events.map EventEnvelope.eventId).Nodup
  outbox_eq : outbox.map OutboxEntry.content
    = (outboxCommits commits).map fun commit => (OutboxEntry.ofEnvelope commit.envelope).content

variable {commits : List (Commit V P)} {events : List (EventEnvelope V P)}
  {outbox : List (OutboxEntry P)}

lemma mirrors_nil : Mirrors ([] : List (Commit V P)) [] [] := ⟨rfl, by simp, rfl⟩

/-- A commit adds its event and its entry. -/
lemma Mirrors.commit (h : Mirrors commits events outbox) {commit : Commit V P}
    (hnew : events.filter (·.eventId = commit.envelope.eventId) = []) :
    Mirrors (commits ++ [commit]) (events ++ [commit.envelope]) (outbox ++ commit.entries) where
  events_eq := by simp [h.events_eq]
  ids := by
    have hnot : commit.envelope.eventId ∉ events.map EventEnvelope.eventId := by
      simpa [List.filter_eq_nil_iff] using hnew
    rw [List.map_append, List.map_singleton, ← List.concat_eq_append]
    exact h.ids.concat hnot
  outbox_eq := by
    simp only [outboxCommits, List.map_append, List.filter_append, h.outbox_eq]
    cases hk : commit.kind
    · simp [Commit.entries, hk]
    · simp [Commit.entries, hk]

/-- Dispatching entries keeps their content. -/
lemma Mirrors.setDispatched (h : Mirrors commits events outbox) (eventId now : String) :
    Mirrors commits events (outbox.map (OutboxEntry.setDispatched eventId now)) where
  events_eq := h.events_eq
  ids := h.ids
  outbox_eq := by
    rw [← h.outbox_eq, List.map_map]
    exact List.map_congr_left fun o _ => OutboxEntry.content_setDispatched eventId now o

/-! ### One entry for each commit that writes one -/

/-- Under distinct keys the elements with the key of `a` are `a` alone. -/
lemma filter_eq_singleton {α : Type} {f : α → String} {l : List α} (h : (l.map f).Nodup) {a : α}
    (ha : a ∈ l) : (l.filter fun b => f b = f a) = [a] := by
  induction l with
  | nil => cases ha
  | cons b l ih =>
    rw [List.map_cons, List.nodup_cons] at h
    rcases List.mem_cons.mp ha with rfl | ha
    · have hrest : (l.filter fun b => f b = f a) = [] := by
        simp only [List.filter_eq_nil_iff, decide_eq_true_eq]
        exact fun b hb heq => h.1 (heq ▸ List.mem_map_of_mem hb)
      simp [hrest]
    · have hne : f b ≠ f a := fun heq => h.1 (heq ▸ List.mem_map_of_mem ha)
      simp [hne, ih h.2 ha]

/-- The entries under an id have the content of the commits under it. -/
lemma Mirrors.content_filter (h : Mirrors commits events outbox) (id : String) :
    (outbox.filter (·.eventId = id)).map OutboxEntry.content
      = ((outboxCommits commits).filter (·.envelope.eventId = id)).map
          fun commit => (OutboxEntry.ofEnvelope commit.envelope).content := by
  have hleft : (outbox.filter (·.eventId = id)).map OutboxEntry.content
      = (outbox.map OutboxEntry.content).filter (·.1 = id) := by
    rw [List.filter_map]
    rfl
  rw [hleft, h.outbox_eq, List.filter_map]
  rfl

lemma Mirrors.commit_ids (h : Mirrors commits events outbox) :
    (commits.map fun commit => commit.envelope.eventId).Nodup := by
  have hids := h.ids
  rwa [h.events_eq, List.map_map] at hids

/-- The outbox has one entry for each id. -/
lemma Mirrors.outbox_ids (h : Mirrors commits events outbox) :
    (outbox.map OutboxEntry.eventId).Nodup := by
  have heq : outbox.map OutboxEntry.eventId = (outbox.map OutboxEntry.content).map (·.1) := by
    rw [List.map_map]
    rfl
  rw [heq, h.outbox_eq, List.map_map]
  exact h.commit_ids.sublist (List.filter_sublist.map _)

/-- A commit of `append_with_outbox` has exactly one entry, with the content of its event. -/
theorem Mirrors.entry_of_commit (h : Mirrors commits events outbox) {commit : Commit V P}
    (hc : commit ∈ commits) (hk : commit.kind = .appendWithOutbox) :
    ∃ o, outbox.filter (·.eventId = commit.envelope.eventId) = [o] ∧
      o.content = (OutboxEntry.ofEnvelope commit.envelope).content := by
  have hmem : commit ∈ outboxCommits commits := List.mem_filter.mpr ⟨hc, by simp [hk]⟩
  have hids : ((outboxCommits commits).map fun commit => commit.envelope.eventId).Nodup :=
    h.commit_ids.sublist (List.filter_sublist.map _)
  have hcontent := h.content_filter commit.envelope.eventId
  rw [filter_eq_singleton hids hmem, List.map_singleton] at hcontent
  obtain ⟨o, ho, heq⟩ := List.map_eq_singleton_iff.mp hcontent
  exact ⟨o, ho, heq⟩

/-- A commit of `append` has no entry. -/
theorem Mirrors.no_entry_of_append (h : Mirrors commits events outbox) {commit : Commit V P}
    (hc : commit ∈ commits) (hk : commit.kind = .append) :
    outbox.filter (·.eventId = commit.envelope.eventId) = [] := by
  have hcontent := h.content_filter commit.envelope.eventId
  have hnone : (outboxCommits commits).filter (·.envelope.eventId = commit.envelope.eventId)
      = [] := by
    have hself := filter_eq_singleton h.commit_ids hc
    rw [outboxCommits, List.filter_comm, hself]
    simp [hk]
  rw [hnone, List.map_nil] at hcontent
  exact List.map_eq_nil_iff.mp hcontent

/-- Every entry belongs to a commit of `append_with_outbox` and has the content of its event. -/
theorem Mirrors.commit_of_entry (h : Mirrors commits events outbox) {o : OutboxEntry P}
    (ho : o ∈ outbox) : ∃ commit ∈ commits, commit.kind = .appendWithOutbox ∧
      o.content = (OutboxEntry.ofEnvelope commit.envelope).content := by
  have hmem : o.content ∈ outbox.map OutboxEntry.content := List.mem_map_of_mem ho
  rw [h.outbox_eq] at hmem
  obtain ⟨commit, hc, heq⟩ := List.mem_map.mp hmem
  obtain ⟨hc, hk⟩ := List.mem_filter.mp hc
  exact ⟨commit, hc, by simpa using hk, heq.symm⟩

/-- An entry has the id, the stream and the position of a committed event. -/
lemma Mirrors.envelope_of_entry (h : Mirrors commits events outbox) {o : OutboxEntry P}
    (ho : o ∈ outbox) : ∃ e ∈ events, e.eventId = o.eventId ∧ e.streamId = o.streamId ∧
      e.globalPosition = o.globalPosition := by
  obtain ⟨commit, hc, -, hcontent⟩ := h.commit_of_entry ho
  obtain ⟨hid, hstream, hposition⟩ := OutboxEntry.eq_of_content hcontent
  refine ⟨commit.envelope, ?_, hid.symm, hstream.symm, hposition.symm⟩
  rw [h.events_eq]
  exact List.mem_map_of_mem hc

/-- An entry has the id of a committed event. -/
lemma Mirrors.event_of_entry (h : Mirrors commits events outbox) {o : OutboxEntry P}
    (ho : o ∈ outbox) : ∃ e ∈ events, e.eventId = o.eventId := by
  obtain ⟨e, he, hid, -⟩ := h.envelope_of_entry ho
  exact ⟨e, he, hid⟩

end EventSourcing
