import EventSourcing.Bench.Consumers
import EventSourcing.Mongo.Subscription

/-!
# The catch-up consumers of MongoDB

`MongoEventStore::catch_up_subscribe`, the projector and the indexer drain a cursor and open a
change stream after that. A document that is added between the last read of the cursor and the
opening of the change stream is lost to all three, and one that is added behind the cursor to
the two that read in the order of `_id`. These two take an error of the cursor for its end, or
pass over it, and go on to the change stream without what was not read. Where no document is
added or left there, each is handled exactly once.
-/

namespace EventSourcing

open Concurrency

variable {P : Type} [DecidableEq P]

/-- In every run in which no document is added where it is lost, no error ends the cursor of the
projector or the indexer before it has read everything, and for the indexer every `index_batch`
succeeds: a consumer that has drained its change stream has handled every document beyond its
starting checkpoint exactly once. -/
theorem catch_up_once (checkpoint : Option Int) (viewSize : ℕ)
    (p : Mongo.State P × Mongo.Subscription P) (q : List Bench.Document × Bench.Projector)
    (r : List Bench.Document × Bench.Indexer) :
    (((Mongo.system P).observe (Mongo.subscription P checkpoint)).ReachBy
        (fun p a => Mongo.Uninterrupted a ∧ Mongo.GapClosed checkpoint p a) p →
      p.2.subscriber = .streaming p.1.db.events.length →
      ∀ e ∈ p.1.db.events, checkpoint.getD (-1) < e.globalPosition →
        p.2.handled.count e = 1) ∧
    ((Bench.collection.observe (Bench.projector viewSize)).ReachBy Bench.ProjectorAwaits q →
      q.2.source = .stream q.1.length → ∀ doc ∈ q.1, q.2.handled.count doc = 1) ∧
    ((Bench.collection.observe Bench.indexer).ReachBy
        (fun p a => Bench.Indexed a ∧ Bench.IndexerAwaits p a) r →
      r.2.source = .stream r.1.length → ∀ doc ∈ r.1, r.2.handled.count doc = 1) := by
  refine ⟨?_, ?_, ?_⟩
  · intro h hdrained
    exact Mongo.handled_once h hdrained
  · intro h hdrained
    exact Bench.projected_once h hdrained
  · intro h hdrained
    exact Bench.indexed_once h hdrained

/-! ### A document lost in the gap -/

/-- The second event commits after the last read of the cursor. -/
def lostEventRun : List (Mongo.Action ℕ ⊕ Mongo.SubscriberStep) :=
  (Mongo.appendSteps 0).map .inl ++
    [.inr .load, .inr .find, .inr (.fetch 2), .inr .handle, .inr .save] ++
    (Mongo.appendSteps 1).map .inl ++ [.inr .watch]

/-- The seed event is counted, the live event is written, and then the change stream opens. -/
def lostDocumentRun : List (Bench.Insert ⊕ Source.Step) :=
  [.inl ("a", ⟨1, 0⟩), .inr .find, .inr (.fetch 2), .inr .take, .inl ("b", ⟨2, 0⟩), .inr .watch]

def lostIndexRun : List (Bench.Insert ⊕ Bench.IndexerStep) :=
  [.inl ("a", ⟨1, 0⟩), .inr (.read .find true), .inr (.read (.fetch 2) true),
    .inr (.read .take true), .inr (.flush true), .inl ("b", ⟨2, 0⟩), .inr (.read .watch true)]

/-- The second read of the cursor fails, after both documents have been inserted. -/
def failedReadRun : List (Bench.Insert ⊕ Source.Step) :=
  [.inl ("a", ⟨1, 0⟩), .inl ("b", ⟨2, 0⟩), .inr .find, .inr (.fetch 1), .inr .take,
    .inr (.fail true), .inr .watch]

def failedIndexRun : List (Bench.Insert ⊕ Bench.IndexerStep) :=
  [.inl ("a", ⟨1, 0⟩), .inl ("b", ⟨2, 0⟩), .inr (.read .find true), .inr (.read (.fetch 1) true),
    .inr (.read .take true), .inr (.read (.fail true) true), .inr (.flush true),
    .inr (.read .watch true)]

/-- Without the condition each of the three consumers loses a document, though nothing fails; and
the two of the benches lose one where a read of the cursor fails, though every insert is still
read. -/
theorem catch_up_once_fails :
    (¬ ∀ p, ((Mongo.system ℕ).observe (Mongo.subscription ℕ none)).ReachBy
        (fun _ a => Mongo.Uninterrupted a) p →
      p.2.subscriber = .streaming p.1.db.events.length →
      ∀ e ∈ p.1.db.events, -1 < e.globalPosition → p.2.handled.count e = 1) ∧
    (¬ ∀ p, (Bench.collection.observe (Bench.projector 10)).Reachable p →
      p.2.source = .stream p.1.length → ∀ doc ∈ p.1, p.2.handled.count doc = 1) ∧
    (¬ ∀ p, (Bench.collection.observe Bench.indexer).ReachBy (fun _ a => Bench.Indexed a) p →
      p.2.source = .stream p.1.length → ∀ doc ∈ p.1, p.2.handled.count doc = 1) ∧
    (¬ ∀ p, (Bench.collection.observe (Bench.projector 10)).ReachBy
        (fun p a => Bench.InsertAwaited p.2.source p.1 a) p →
      p.2.source = .stream p.1.length → ∀ doc ∈ p.1, p.2.handled.count doc = 1) ∧
    ¬ ∀ p, (Bench.collection.observe Bench.indexer).ReachBy
        (fun p a => Bench.Indexed a ∧ Bench.InsertAwaited p.2.source p.1 a) p →
      p.2.source = .stream p.1.length → ∀ doc ∈ p.1, p.2.handled.count doc = 1 := by
  refine ⟨?_, ?_, ?_, ?_, ?_⟩
  · intro hclaim
    have hreach := System.reachBy_after
      (M := (Mongo.system ℕ).observe (Mongo.subscription ℕ none))
      (C := fun _ a => Mongo.Uninterrupted a) lostEventRun
      (s := (.initial, ⟨none, .idle, []⟩)) ⟨rfl, rfl⟩ (by decide) (by decide)
    exact absurd (hclaim _ hreach (by rfl)) (by decide)
  · intro hclaim
    have hreach := System.reachable_after
      (M := Bench.collection.observe (Bench.projector 10)) lostDocumentRun
      (s := ([], .initial)) ⟨rfl, rfl⟩ (by decide)
    exact absurd (hclaim _ hreach (by rfl)) (by decide)
  · intro hclaim
    have hreach := System.reachBy_after (M := Bench.collection.observe Bench.indexer)
      (C := fun _ a => Bench.Indexed a) lostIndexRun
      (s := ([], .initial)) ⟨rfl, rfl⟩ (by decide) (by decide)
    exact absurd (hclaim _ hreach (by rfl)) (by decide)
  · intro hclaim
    have hreach := System.reachBy_after (M := Bench.collection.observe (Bench.projector 10))
      (C := fun p a => Bench.InsertAwaited p.2.source p.1 a) failedReadRun
      (s := ([], .initial)) ⟨rfl, rfl⟩ (by decide) (by decide)
    exact absurd (hclaim _ hreach (by rfl)) (by decide)
  · intro hclaim
    have hreach := System.reachBy_after (M := Bench.collection.observe Bench.indexer)
      (C := fun p a => Bench.Indexed a ∧ Bench.InsertAwaited p.2.source p.1 a) failedIndexRun
      (s := ([], .initial)) ⟨rfl, rfl⟩ (by decide) (by decide)
    exact absurd (hclaim _ hreach (by rfl)) (by decide)

/-! ### A document read ahead of the cursor, one behind it in the change stream -/

def handledEventRun : List (Mongo.Action ℕ ⊕ Mongo.SubscriberStep) :=
  [.inr .load, .inr .find] ++ (Mongo.appendSteps 0).map .inl ++
    [.inr (.fetch 2), .inr .handle, .inr .save, .inr .watch] ++
    (Mongo.appendSteps 1).map .inl ++ [.inr .handle, .inr .save]

def handledDocumentRun : List (Bench.Insert ⊕ Source.Step) :=
  [.inl ("b", ⟨1, 0⟩), .inr .find, .inr (.fetch 1), .inr .take, .inl ("c", ⟨2, 0⟩),
    .inr (.fail false), .inr (.fetch 2), .inr .take, .inr .watch, .inl ("a", ⟨3, 0⟩), .inr .receive]

def handledIndexRun : List (Bench.Insert ⊕ Bench.IndexerStep) :=
  [.inl ("b", ⟨1, 0⟩), .inr (.read .find true), .inr (.read (.fetch 2) true),
    .inr (.read .take true), .inr (.flush true), .inr (.read .watch true),
    .inl ("a", ⟨2, 0⟩), .inr (.read .receive true)]

def handledEvent : Mongo.State ℕ × Mongo.Subscription ℕ :=
  ((Mongo.system ℕ).observe (Mongo.subscription ℕ none)).after handledEventRun
    (.initial, ⟨none, .idle, []⟩)

def handledDocument : List Bench.Document × Bench.Projector :=
  (Bench.collection.observe (Bench.projector 10)).after handledDocumentRun ([], .initial)

def handledIndex : List Bench.Document × Bench.Indexer :=
  (Bench.collection.observe Bench.indexer).after handledIndexRun ([], .initial)

theorem catch_up_once_handled :
    (handledEvent.1.db.events.length = 2 ∧
      ∀ e ∈ handledEvent.1.db.events, (none : Option Int).getD (-1) < e.globalPosition →
        handledEvent.2.handled.count e = 1) ∧
      (handledDocument.1.length = 3 ∧
        ∀ doc ∈ handledDocument.1, handledDocument.2.handled.count doc = 1) ∧
      handledIndex.1.length = 2 ∧
        ∀ doc ∈ handledIndex.1, handledIndex.2.handled.count doc = 1 := by
  have hevent := System.reachBy_after
    (M := (Mongo.system ℕ).observe (Mongo.subscription ℕ none))
    (C := fun p a => Mongo.Uninterrupted a ∧ Mongo.GapClosed none p a) handledEventRun
    (s := (.initial, ⟨none, .idle, []⟩)) ⟨rfl, rfl⟩ (by decide) (by decide)
  have hdocument := System.reachBy_after (M := Bench.collection.observe (Bench.projector 10))
    (C := Bench.ProjectorAwaits) handledDocumentRun
    (s := ([], .initial)) ⟨rfl, rfl⟩ (by decide) (by decide)
  have hindex := System.reachBy_after (M := Bench.collection.observe Bench.indexer)
    (C := fun p a => Bench.Indexed a ∧ Bench.IndexerAwaits p a) handledIndexRun
    (s := ([], .initial)) ⟨rfl, rfl⟩ (by decide) (by decide)
  have h := catch_up_once none 10 handledEvent handledDocument handledIndex
  exact ⟨⟨by decide, h.1 hevent (by rfl)⟩, ⟨by decide, h.2.1 hdocument (by rfl)⟩,
    by decide, h.2.2 hindex (by rfl)⟩

end EventSourcing
