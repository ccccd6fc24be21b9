import EventSourcing.Concurrency.CatchUp
import EventSourcing.Concurrency.Observer
import Mathlib.Data.String.Basic

/-!
# The projector and the indexer of the MongoDB benches

`projection_bench` and `search_bench` write `BenchmarkEvent`s to a plain collection and read
them with a task of their own: a cursor over everything in the order of `_id`, then a change
stream. The projector pushes one document at a time into the view; the indexer sends the
documents of the cursor to the search index in batches and those of the change stream one by
one.
-/

namespace EventSourcing.Bench

open Concurrency

/-! ### The collection -/

structure BenchmarkEvent where
  seq : UInt64
  taskId : UInt64
  deriving DecidableEq

structure Document where
  id : String
  seq : Int
  taskId : Int
  deriving DecidableEq

/-- BSON has no unsigned 64-bit integers: a `u64` is stored as an `i64` if it is one. -/
def toInt64 (n : UInt64) : Option Int := if n.toNat < 2 ^ 63 then some n.toNat else none

/-- `to_document`, with the `_id` the client adds. -/
def toDocument (id : String) (event : BenchmarkEvent) : Option Document := do
  let seq ← toInt64 event.seq
  let taskId ← toInt64 event.taskId
  return { id, seq, taskId }

/-- `MongoClient::append`, and one document of `append_batch`: an event that cannot be stored
and an `_id` in use are errors. -/
def inserting (docs : List Document) (id : String) (event : BenchmarkEvent) : Option Document :=
  (toDocument id event).filter fun doc => doc.id ∉ docs.map (·.id)

/-- An insert, by the `_id` that is drawn for it and its event. -/
abbrev Insert := String × BenchmarkEvent

/-- The collection of a bench, empty at the start. -/
def collection : System (List Document) Insert where
  init docs := docs = []
  next docs a := some (docs ++ (inserting docs a.1 a.2).toList)

lemma ids_nodup {docs : List Document} (h : collection.Reachable docs) :
    (docs.map (·.id)).Nodup := by
  refine System.ReachBy.invariant (P := fun docs => (docs.map (·.id)).Nodup) ?_ ?_ h
  · rintro _ rfl
    exact .nil
  · intro docs a docs' _ hnodup _ hs
    obtain rfl := Option.some.inj hs
    cases hdoc : inserting docs a.1 a.2 with
    | none => simpa using hnodup
    | some doc =>
      have hnew : doc.id ∉ docs.map (·.id) := by
        simpa using (Option.filter_eq_some_iff.mp hdoc).2
      simp only [Option.toList_some, List.map_append, List.map_singleton]
      exact hnodup.append (List.nodup_singleton _) (by simpa using hnew)

/-! ### The projector -/

/-- `push_to_view` -/
def pushToView (view : List UInt64) (seq : UInt64) (capacity : ℕ) : List UInt64 :=
  (if view.length = capacity then view.drop 1 else view) ++ [seq]

/-- The projector task of `projection_bench::run_mongo`. -/
structure Projector where
  source : Source Document String
  view : List UInt64
  processed : ℕ
  /-- history: the documents pushed to the view -/
  handled : List Document

namespace Projector

def initial : Projector where
  source := .opening
  view := []
  processed := 0
  handled := []

def push (viewSize : ℕ) (doc : Document) (t : Projector) : Projector :=
  { t with
    view := pushToView t.view (.ofInt doc.seq) viewSize
    processed := t.processed + 1
    handled := t.handled ++ [doc] }

/-- The loop over the cursor passes over an error and asks again; the driver may have ended the
cursor with it. -/
def next (viewSize : ℕ) (docs : List Document) (t : Projector) (step : Source.Step) :
    Option Projector :=
  (t.source.next (·.id) ⊥ docs step).map fun (doc, source) =>
    { doc.elim t (push viewSize · t) with source := source }

end Projector

def projector (viewSize : ℕ) : Observer (List Document) Projector Source.Step where
  init t := t = .initial
  next := Projector.next viewSize

/-! ### The indexer -/

/-- The indexer task of `search_bench::run_mongo`. -/
structure Indexer where
  source : Source Document String
  /-- documents that wait for `index_batch`, with their positions -/
  buf : List (Int × Document)
  gpos : Int
  processed : ℕ
  /-- history: the documents that `index_batch` has written -/
  handled : List Document

inductive IndexerStep where
  /-- a step of the source; `indexed` tells whether an `index_batch` it leads to succeeds -/
  | read (step : Source.Step) (indexed : Bool)
  /-- the rest of the buffer after the end of the cursor -/
  | flush (indexed : Bool)
  deriving DecidableEq

namespace Indexer

def initial : Indexer where
  source := .opening
  buf := []
  gpos := 0
  processed := 0
  handled := []

/-- `index_batch`, whose error is dropped, over the buffer. -/
def indexBatch (indexed : Bool) (t : Indexer) : Indexer :=
  { t with
    buf := []
    processed := t.processed + t.buf.length
    handled := if indexed then t.handled ++ t.buf.map (·.2) else t.handled }

/-- The next document of the cursor joins the buffer, which is sent when it holds 200. -/
def bufferDoc (indexed : Bool) (doc : Document) (t : Indexer) : Indexer :=
  let t := { t with gpos := t.gpos + 1, buf := t.buf ++ [(t.gpos + 1, doc)] }
  if 200 ≤ t.buf.length then t.indexBatch indexed else t

/-- A document of the change stream is sent on its own. -/
def indexDoc (indexed : Bool) (doc : Document) (t : Indexer) : Indexer :=
  { t with
    gpos := t.gpos + 1
    processed := t.processed + 1
    handled := if indexed then t.handled ++ [doc] else t.handled }

def next (docs : List Document) (t : Indexer) : IndexerStep → Option Indexer
  | .read step indexed =>
    -- what is left in the buffer is sent before the change stream is opened; the first error of
    -- the cursor ends its loop
    if t.source.Drained ∧ t.buf ≠ [] ∨ step = .fail false then none
    else
      (t.source.next (·.id) ⊥ docs step).map fun (doc, source) =>
        let index := if step = .receive then indexDoc indexed else bufferDoc indexed
        { doc.elim t (index · t) with source := source }
  | .flush indexed =>
    if t.source.Drained ∧ t.buf ≠ [] then some (t.indexBatch indexed) else none

end Indexer

def indexer : Observer (List Document) Indexer IndexerStep where
  init t := t = .initial
  next := Indexer.next

/-! ### Every document once -/

/-- The document that an insert adds is still read by `source`. -/
def Awaited (source : Source Document String) (docs : List Document) (a : Insert) : Prop :=
  ∀ doc ∈ inserting docs a.1 a.2, source.Awaits (·.id) doc

instance (source : Source Document String) (docs : List Document) (a : Insert) :
    Decidable (Awaited source docs a) := inferInstanceAs (Decidable (∀ doc ∈ inserting _ _ _, _))

/-- An insert is still read. -/
def InsertAwaited {B : Type} (source : Source Document String) (docs : List Document) :
    Insert ⊕ B → Prop
  | .inl a => Awaited source docs a
  | .inr _ => True

instance {B : Type} (source : Source Document String) (docs : List Document) :
    (a : Insert ⊕ B) → Decidable (InsertAwaited source docs a)
  | .inl a => inferInstanceAs (Decidable (Awaited source docs a))
  | .inr _ => isTrue trivial

/-- Every insert is still read by the projector, and no error of the cursor leaves a document
out. -/
def ProjectorAwaits (p : List Document × Projector) : Insert ⊕ Source.Step → Prop
  | .inl a => Awaited p.2.source p.1 a
  | .inr step => ¬ p.2.source.Loses (·.id) p.1 step

instance (p : List Document × Projector) (a : Insert ⊕ Source.Step) :
    Decidable (ProjectorAwaits p a) :=
  match a with
  | .inl a => inferInstanceAs (Decidable (Awaited p.2.source p.1 a))
  | .inr step => inferInstanceAs (Decidable (¬ p.2.source.Loses (·.id) p.1 step))

/-- Every insert is still read by the indexer, and no error of the cursor leaves a document
out. -/
def IndexerAwaits (p : List Document × Indexer) : Insert ⊕ IndexerStep → Prop
  | .inl a => Awaited p.2.source p.1 a
  | .inr (.read step _) => ¬ p.2.source.Loses (·.id) p.1 step
  | .inr (.flush _) => True

instance (p : List Document × Indexer) (a : Insert ⊕ IndexerStep) :
    Decidable (IndexerAwaits p a) :=
  match a with
  | .inl a => inferInstanceAs (Decidable (Awaited p.2.source p.1 a))
  | .inr (.read step _) => inferInstanceAs (Decidable (¬ p.2.source.Loses (·.id) p.1 step))
  | .inr (.flush _) => isTrue trivial

/-- Every `index_batch` succeeds. -/
def Indexed (a : Insert ⊕ IndexerStep) : Prop :=
  match a with
  | .inl _ => True
  | .inr (.read _ indexed) => indexed = true
  | .inr (.flush indexed) => indexed = true

instance (a : Insert ⊕ IndexerStep) : Decidable (Indexed a) :=
  match a with
  | .inl _ => isTrue trivial
  | .inr (.read _ indexed) => inferInstanceAs (Decidable (indexed = true))
  | .inr (.flush indexed) => inferInstanceAs (Decidable (indexed = true))

section Invariant

variable {docs docs' : List Document} {source : Source Document String} {taken : List Document}

/-- An insert that is still read keeps what the source gives. -/
lemma gives_insert {a : Insert} (h : source.Gives Document.id ⊥ docs taken)
    (ha : Awaited source docs a) (hs : collection.next docs a = some docs') :
    source.Gives Document.id ⊥ docs' taken := by
  obtain rfl := Option.some.inj hs
  exact h.append fun d hd _ => ha d (by simpa using hd)

lemma once_of_drained (h : source.Gives Document.id ⊥ docs taken)
    (hdrained : source = .stream docs.length) : ∀ doc ∈ docs, taken.count doc = 1 := by
  subst hdrained
  exact fun doc hdoc => Follows.drained h doc hdoc (WithBot.bot_lt_coe _)

end Invariant

/-- In every run in which every insert is still read and no error of the cursor leaves a document
out, a projector that has drained its change stream has pushed every document to the view once. -/
lemma projected_once {viewSize : ℕ} {p : List Document × Projector}
    (h : (collection.observe (projector viewSize)).ReachBy ProjectorAwaits p)
    (hdrained : p.2.source = .stream p.1.length) : ∀ doc ∈ p.1, p.2.handled.count doc = 1 := by
  refine once_of_drained ?_ hdrained
  refine System.ReachBy.observed (P := fun p : List Document × Projector =>
    p.2.source.Gives Document.id ⊥ p.1 p.2.handled) ?_ ?_ ?_ h
  · rintro docs t - rfl
    rfl
  · intro docs t a docs' _ hgives hC hs
    exact gives_insert hgives hC hs
  · intro docs t step t' hreach hgives hC hs
    obtain ⟨⟨doc, source⟩, hsource, rfl⟩ := Option.map_eq_some_iff.mp hs
    have hnext := hgives.next (ids_nodup hreach.system) hC hsource
    cases doc with
    | none => simpa using hnext
    | some doc => simpa [Projector.push] using hnext

namespace Indexer

variable {docs : List Document} {t t' : Indexer}

/-- The documents the indexer has taken from its source. -/
def taken (t : Indexer) : List Document := t.handled ++ t.buf.map (·.2)

@[simp] lemma taken_source (source : Source Document String) :
    ({ t with source := source } : Indexer).taken = t.taken := rfl

lemma taken_indexBatch : (t.indexBatch true).taken = t.taken := by
  simp [indexBatch, taken]

lemma taken_bufferDoc (doc : Document) : (t.bufferDoc true doc).taken = t.taken ++ [doc] := by
  simp only [bufferDoc]
  split_ifs
  · rw [taken_indexBatch]
    simp [taken]
  · simp [taken]

lemma taken_indexDoc (doc : Document) (hbuf : t.buf = []) :
    (t.indexDoc true doc).taken = t.taken ++ [doc] := by
  simp [indexDoc, taken, hbuf]

/-- What the indexer was given is indexed or in the buffer, which is empty once the change
stream is open. -/
structure Inv (docs : List Document) (t : Indexer) : Prop where
  gives : t.source.Gives Document.id ⊥ docs t.taken
  buf : ∀ n, t.source = .stream n → t.buf = []

lemma Inv.read (h : Inv docs t) (hids : (docs.map (·.id)).Nodup) {step : Source.Step}
    (hloses : ¬ t.source.Loses (·.id) docs step)
    (hs : t.next docs (.read step true) = some t') : Inv docs t' := by
  simp only [next] at hs
  split_ifs at hs with hwait hreceive
  · obtain ⟨⟨doc, source⟩, hsource, rfl⟩ := Option.map_eq_some_iff.mp hs
    have hgives := h.gives.next hids hloses hsource
    subst hreceive
    obtain ⟨n, hn⟩ := Source.eq_stream_of_receive hsource
    have hbuf := h.buf n hn
    cases doc with
    | none => exact ⟨by simpa using hgives, fun _ _ => hbuf⟩
    | some doc =>
      refine ⟨?_, fun _ _ => hbuf⟩
      simpa [taken_indexDoc doc hbuf] using hgives
  · obtain ⟨⟨doc, source⟩, hsource, rfl⟩ := Option.map_eq_some_iff.mp hs
    have hgives := h.gives.next hids hloses hsource
    cases doc with
    | none =>
      refine ⟨by simpa using hgives, ?_⟩
      intro n hn
      subst hn
      rcases Source.next_eq_stream hsource with ⟨-, hdrained, -⟩ | rfl
      · by_contra hbuf
        exact hwait (.inl ⟨hdrained, hbuf⟩)
      · exact absurd rfl hreceive
    | some doc =>
      refine ⟨?_, fun n hn => ?_⟩
      · simpa [taken_bufferDoc doc] using hgives
      · subst hn
        rcases Source.next_eq_stream hsource with ⟨-, -, hdoc⟩ | rfl
        · cases hdoc
        · exact absurd rfl hreceive

lemma Inv.flush (h : Inv docs t) (hs : t.next docs (.flush true) = some t') : Inv docs t' := by
  simp only [next] at hs
  split_ifs at hs
  obtain rfl := Option.some.inj hs
  refine ⟨?_, fun _ _ => rfl⟩
  rw [taken_indexBatch]
  exact h.gives

end Indexer

/-- In every run in which every insert is still read, no error of the cursor leaves a document
out and every `index_batch` succeeds, an indexer that has drained its change stream has indexed
every document once. -/
lemma indexed_once {p : List Document × Indexer}
    (h : (collection.observe indexer).ReachBy (fun p a => Indexed a ∧ IndexerAwaits p a) p)
    (hdrained : p.2.source = .stream p.1.length) : ∀ doc ∈ p.1, p.2.handled.count doc = 1 := by
  have hinv : p.2.Inv p.1 := by
    refine System.ReachBy.observed (P := fun p : List Document × Indexer => p.2.Inv p.1) ?_ ?_ ?_ h
    · rintro docs t - rfl
      exact ⟨rfl, fun _ _ => rfl⟩
    · intro docs t a docs' _ hinv hC hs
      exact ⟨gives_insert hinv.gives hC.2 hs, hinv.buf⟩
    · intro docs t step t' hreach hinv hC hs
      cases step with
      | read step indexed =>
        obtain rfl : indexed = true := hC.1
        exact hinv.read (ids_nodup hreach.system) hC.2 hs
      | flush indexed =>
        obtain rfl : indexed = true := hC.1
        exact hinv.flush hs
  have hgives := hinv.gives
  simp only [Indexer.taken, hinv.buf _ hdrained, List.map_nil, List.append_nil] at hgives
  exact once_of_drained hgives hdrained

end EventSourcing.Bench
