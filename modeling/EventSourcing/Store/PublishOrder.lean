import EventSourcing.Concurrency.Delivery
import EventSourcing.Store.Outbox

/-!
# The order of the entries of a stream

The entries of one stream stand in the order of their positions (`Precedes`). A step of a store
keeps the content of the entries there are, or adds the entry of a commit behind those of its
stream, so it puts nothing before an entry that is there.

A relay takes an entry and publishes it later. If nothing that stands before an entry is left when
it is taken, the entries of each stream are published in the order of their versions
(`StreamOrdered.by_version`).
-/

namespace EventSourcing

open Concurrency

variable {V P : Type}

/-- The entry of id `id` stands before that of id `id'` in their stream. -/
def Precedes (outbox : List (OutboxEntry P)) (id id' : String) : Prop :=
  ∃ o ∈ outbox, ∃ o' ∈ outbox, o.eventId = id ∧ o'.eventId = id' ∧
    o.streamId = o'.streamId ∧ o.globalPosition < o'.globalPosition

/-- What a step of a store makes of its outbox. -/
inductive OutboxStep (V : Type) (outbox : List (OutboxEntry P)) : List (OutboxEntry P) → Prop where
  | kept (f : OutboxEntry P → OutboxEntry P) (hf : ∀ o, (f o).content = o.content) :
      OutboxStep V outbox (outbox.map f)
  | commit (commit : Commit V P)
      (hafter : ∀ o ∈ outbox, o.streamId = commit.envelope.streamId →
        o.globalPosition < commit.envelope.globalPosition) :
      OutboxStep V outbox (outbox ++ commit.entries)

variable {outbox outbox' : List (OutboxEntry P)} {o : OutboxEntry P}

lemma OutboxStep.refl : OutboxStep V outbox outbox := by
  have hstep : OutboxStep V outbox (outbox.map id) := .kept id fun _ => rfl
  rwa [List.map_id] at hstep

lemma OutboxStep.setDispatched (eventId now : String) :
    OutboxStep V outbox (outbox.map (OutboxEntry.setDispatched eventId now)) :=
  .kept _ fun o => OutboxEntry.content_setDispatched eventId now o

/-- An entry stays in the outbox under its id. -/
lemma OutboxStep.entry (h : OutboxStep V outbox outbox') (ho : o ∈ outbox) :
    ∃ o' ∈ outbox', o'.eventId = o.eventId := by
  cases h with
  | kept f hf => exact ⟨f o, List.mem_map_of_mem ho, (OutboxEntry.eq_of_content (hf o)).1⟩
  | commit commit => exact ⟨o, List.mem_append_left _ ho, rfl⟩

/-- A step puts nothing before an entry that is there. -/
lemma OutboxStep.precedes (h : OutboxStep V outbox outbox')
    (hids : (outbox'.map OutboxEntry.eventId).Nodup) (ho : o ∈ outbox) {id : String}
    (hp : Precedes outbox' id o.eventId) : Precedes outbox id o.eventId := by
  obtain ⟨o₁, ho₁, o₂, ho₂, rfl, hid, hstream, hlt⟩ := hp
  cases h with
  | kept f hf =>
    obtain ⟨p₁, hp₁, rfl⟩ := List.mem_map.mp ho₁
    obtain ⟨p₂, hp₂, rfl⟩ := List.mem_map.mp ho₂
    have hf₁ := OutboxEntry.eq_of_content (hf p₁)
    have hf₂ := OutboxEntry.eq_of_content (hf p₂)
    refine ⟨p₁, hp₁, p₂, hp₂, hf₁.1.symm, hf₂.1.symm.trans hid, ?_, ?_⟩
    · rw [← hf₁.2.1, ← hf₂.2.1, hstream]
    · rw [← hf₁.2.2, ← hf₂.2.2]
      exact hlt
  | commit commit hafter =>
    rw [List.map_append, List.nodup_append] at hids
    rw [List.mem_append] at ho₁ ho₂
    have hold₂ : o₂ ∈ outbox := by
      refine ho₂.resolve_right fun hnew => ?_
      -- a new entry has an id of its own
      exact hids.2.2 _ (List.mem_map_of_mem ho) _ (List.mem_map_of_mem hnew) hid.symm
    have hold₁ : o₁ ∈ outbox := by
      refine ho₁.resolve_right fun hnew => ?_
      obtain ⟨-, rfl⟩ := commit.eq_of_entry hnew
      exact absurd hlt (Int.lt_asymm (hafter o₂ hold₂ hstream.symm))
    exact ⟨o₁, hold₁, o₂, hold₂, rfl, hid, hstream, hlt⟩

/-- What has been published in the order of the streams stays so. -/
lemma OutboxStep.inOrder (h : OutboxStep V outbox outbox')
    (hids : (outbox'.map OutboxEntry.eventId).Nodup) {published : List String}
    (hentries : ∀ id ∈ published, ∃ o ∈ outbox, o.eventId = id)
    (horder : Delivery.InOrder (Precedes outbox) published) :
    Delivery.InOrder (Precedes outbox') published := by
  refine horder.mono fun id hid id' hp => ?_
  obtain ⟨o, ho, rfl⟩ := hentries id hid
  exact h.precedes hids ho hp

/-! ### What relays take and publish -/

/-- Whatever stands before the entry that a relay has taken, or before one that is published, has
been published. -/
structure StreamOrdered (outbox : List (OutboxEntry P)) (Taken : ℕ → OutboxEntry P → Prop)
    (published : List String) : Prop where
  taken : ∀ r o, Taken r o → ∀ id, Precedes outbox id o.eventId → id ∈ published
  published : Delivery.InOrder (Precedes outbox) published

variable {Taken Taken' : ℕ → OutboxEntry P → Prop} {published published' : List String}
  {commits : List (Commit V P)} {events : List (EventEnvelope V P)}

/-- A step in which a relay may take an entry that is first of what is left in its stream, or
publish what it has taken. -/
lemma StreamOrdered.next (h : StreamOrdered outbox Taken published)
    (hstep : OutboxStep V outbox outbox') (hids : (outbox'.map OutboxEntry.eventId).Nodup)
    (hentries : ∀ id ∈ published, ∃ o ∈ outbox, o.eventId = id)
    (hmem : ∀ r o, Taken r o → o ∈ outbox)
    (htakes : ∀ r o, Taken' r o → Taken r o ∨
      o ∈ outbox ∧ ∀ id, Precedes outbox id o.eventId → id ∈ published)
    (hpublishes : published' = published ∨
      ∃ r o, Taken r o ∧ published' = published ++ [o.eventId]) :
    StreamOrdered outbox' Taken' published' where
  taken r o ho id hp := by
    have hid : id ∈ published := by
      rcases htakes r o ho with hold | ⟨hnew, hfirst⟩
      · exact h.taken r o hold id (hstep.precedes hids (hmem r o hold) hp)
      · exact hfirst id (hstep.precedes hids hnew hp)
    rcases hpublishes with rfl | ⟨_, _, -, rfl⟩
    · exact hid
    · exact List.mem_append_left _ hid
  published := by
    have hold := hstep.inOrder hids hentries h.published
    rcases hpublishes with rfl | ⟨r, o, hr, rfl⟩
    · exact hold
    · refine hold.snoc fun id hp => ?_
      exact h.taken r o hr id (hstep.precedes hids (hmem r o hr) hp)

/-- What is published is the entry of a committed event, and the entries of its stream with a
smaller version have been published before. -/
lemma StreamOrdered.by_version (h : StreamOrdered outbox Taken published)
    (hm : Mirrors commits events outbox)
    (hpositions : ∀ e ∈ events, ∀ e' ∈ events, e.streamId = e'.streamId →
      e.streamVersion < e'.streamVersion → e.globalPosition < e'.globalPosition)
    (hentries : ∀ id ∈ published, ∃ o ∈ outbox, o.eventId = id)
    {earlier later : List String} {id : String} (heq : published = earlier ++ id :: later) :
    ∃ e' ∈ events, e'.eventId = id ∧
      ∀ e ∈ events, (∃ o ∈ outbox, o.eventId = e.eventId) → e.streamId = e'.streamId →
        e.streamVersion < e'.streamVersion → e.eventId ∈ earlier := by
  obtain ⟨o', ho', rfl⟩ := hentries id (by simp [heq])
  obtain ⟨e', he', hid', hstream', hposition'⟩ := hm.envelope_of_entry ho'
  refine ⟨e', he', hid', ?_⟩
  rintro e he ⟨o, ho, hid⟩ hs hv
  obtain ⟨e₁, he₁, hid₁, hstream, hposition⟩ := hm.envelope_of_entry ho
  obtain rfl := List.inj_on_of_nodup_map hm.ids he₁ he (hid₁.trans hid)
  refine h.published earlier o'.eventId later heq e₁.eventId ⟨o, ho, o', ho', hid, rfl, ?_, ?_⟩
  · rw [← hstream, ← hstream', hs]
  · rw [← hposition, ← hposition']
    exact hpositions e₁ he e' he' hs hv

end EventSourcing
