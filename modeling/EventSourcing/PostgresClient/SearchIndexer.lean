import EventSourcing.Bench.SearchIndex
import EventSourcing.PostgresClient.Poll
import EventSourcing.PostgresClient.ReadLast

/-!
# The search indexer of PostgreSQL

The indexer of `search_bench::run_postgres` polls events above its checkpoint, writes them to
the index and moves on. It drops the result of `index_batch`, so a batch whose `INSERT` fails is
counted and passed like any other and never comes back: the checkpoint stands for the index only
as long as every `index_batch` takes effect.
-/

namespace EventSourcing.PostgresClient

open Bench Concurrency

/-- An event as `poll_events_for_indexing` returns it, with its position. -/
abbrev Polled := Int × Events.BenchmarkEvent

/-- `poll_events_for_indexing`; the column `created_at` is given by the primary key. -/
def Tables.pollEventsForIndexing (db : Tables (List UInt8)) (createdAt : String → DateTime)
    (streamId : String) (after : Int) (limit : ℕ) : List Polled :=
  let rows := (db.stream streamId).filter fun e => after < e.globalPosition
  ((rows.insertionSort fun e e' => e.globalPosition ≤ e'.globalPosition).take limit).map
    fun row => (row.globalPosition, TimedTables.eventOf ⟨db, createdAt⟩ row)

/-- What the loop of the indexer is about to do. -/
inductive Stage where
  | polling
  /-- `index_batch` is next -/
  | polled (rows : List Polled)
  /-- `index_batch` has returned -/
  | indexed (rows : List Polled)

/-- The rows of the last poll that the checkpoint has not passed. -/
def Stage.rows : Stage → List Polled
  | polling => []
  | polled rows => rows
  | indexed rows => rows

structure SearchIndexer where
  checkpoint : Int
  processed : ℕ
  index : List SearchRow
  stage : Stage
  /-- history: the events that the checkpoint has passed -/
  passed : List Polled
  /-- history: the events of the batches that have reached the index -/
  kept : List Polled
  /-- history: the events of the batches whose `INSERT` has had no effect -/
  lost : List Polled

inductive SearchIndexerStep where
  /-- a poll that fails is made again later -/
  | poll (answered : Bool)
  | index (outcome : Outcome)
  | advance
  deriving DecidableEq

namespace SearchIndexer

def next (createdAt : String → DateTime) (streamId : String) (σ : Appends.State (List UInt8))
    (u : SearchIndexer) : SearchIndexerStep → Option SearchIndexer
  | .poll answered =>
    match u.stage with
    | .polling =>
      if answered then
        match σ.db.pollEventsForIndexing createdAt streamId u.checkpoint 200 with
        | [] => some u
        | rows => some { u with stage := .polled rows }
      else some u
    | _ => none
  | .index outcome =>
    match u.stage with
    | .polled rows =>
      -- the result is dropped
      let (_, index) := outcome.run (some (indexBatch streamId rows u.index)) u.index
      let u := { u with index := index, stage := .indexed rows }
      if outcome = .rejected then some { u with lost := u.lost ++ rows }
      else some { u with kept := u.kept ++ rows }
    | _ => none
  | .advance =>
    match u.stage with
    | .indexed rows =>
      some { u with
        processed := u.processed + rows.length
        checkpoint := (rows.getLast?.map (·.1)).getD u.checkpoint
        stage := .polling
        passed := u.passed ++ rows }
    | _ => none

/-- The index is truncated before the indexer starts. -/
def initial : SearchIndexer where
  checkpoint := 0
  processed := 0
  index := []
  stage := .polling
  passed := []
  kept := []
  lost := []

/-- Every event that a poll has returned. -/
def polled (u : SearchIndexer) : List Polled := u.passed ++ u.stage.rows

/-- The event has its row in the index. -/
def Indexed (streamId : String) (u : SearchIndexer) (e : Polled) : Prop :=
  searchRow streamId e.1 e.2 ∈ u.index

instance (streamId : String) (u : SearchIndexer) (e : Polled) :
    Decidable (u.Indexed streamId e) := inferInstanceAs (Decidable (_ ∈ _))

/-- The polled events up to the checkpoint have their rows, and `processed` counts them. -/
structure Searchable (streamId : String) (u : SearchIndexer) : Prop where
  indexed : ∀ e ∈ u.polled, e.1 ≤ u.checkpoint → u.Indexed streamId e
  processed : u.processed
    = u.polled.countP fun e => decide (e.1 ≤ u.checkpoint ∧ u.Indexed streamId e)

end SearchIndexer

/-- The indexer next to the calls that write to the stream. -/
def searchIndexer (createdAt : String → DateTime) (streamId : String) :
    Observer (Appends.State (List UInt8)) SearchIndexer SearchIndexerStep where
  init u := u = .initial
  next := SearchIndexer.next createdAt streamId

/-- The runs of the indexer of a stream. -/
abbrev searchRun (createdAt : String → DateTime) (streamId : String) :
    System (Appends.State (List UInt8) × SearchIndexer)
      (Appends.Action (List UInt8) ⊕ SearchIndexerStep) :=
  (Appends.system (List UInt8)).observe (searchIndexer createdAt streamId)

/-! ### What the histories account for -/

namespace SearchIndexer

variable {createdAt : String → DateTime} {streamId : String} {σ : Appends.State (List UInt8)}
  {u u' : SearchIndexer}

/-- The events that `index_batch` has been called for. -/
def settled (u : SearchIndexer) : List Polled :=
  match u.stage with
  | .indexed rows => u.passed ++ rows
  | _ => u.passed

structure Inv (streamId : String) (u : SearchIndexer) : Prop where
  ascending : (u.polled.map (·.1)).Pairwise (· < ·)
  passed : ∀ e ∈ u.passed, e.1 ≤ u.checkpoint
  waiting : ∀ e ∈ u.stage.rows, u.checkpoint < e.1
  processed : u.processed = u.passed.length
  index : u.index = rowsOf streamId u.kept
  kept : u.kept.Sublist u.settled
  /-- a batch is kept or lost -/
  settled : ∀ e, e ∈ u.settled ↔ e ∈ u.kept ∨ e ∈ u.lost
  apart : ∀ e ∈ u.kept, e ∉ u.lost

lemma mem_polled_of_settled {e : Polled} (h : e ∈ u.settled) : e ∈ u.polled := by
  simp only [SearchIndexer.settled] at h
  simp only [SearchIndexer.polled]
  split at h
  · rename_i rows hstage
    rwa [hstage]
  · exact List.mem_append_left _ h

lemma Inv.polled_nodup (h : u.Inv streamId) : (u.polled.map (·.1)).Nodup :=
  h.ascending.imp ne_of_lt

/-- Of the polled events with a call of `index_batch`, those that were kept have their rows. -/
lemma Inv.indexed_iff (h : u.Inv streamId) {e : Polled} (he : e ∈ u.polled) :
    u.Indexed streamId e ↔ e ∈ u.kept := by
  rw [Indexed, h.index]
  refine mem_rowsOf h.polled_nodup he fun e' he' => ?_
  exact mem_polled_of_settled ((h.settled e').mpr (.inl he'))

/-- The polled events up to the checkpoint are those it has passed. -/
lemma Inv.le_checkpoint (h : u.Inv streamId) {e : Polled} (he : e ∈ u.polled) :
    e.1 ≤ u.checkpoint ↔ e ∈ u.passed := by
  constructor
  · intro hle
    rcases List.mem_append.mp he with he | he
    · exact he
    · exact absurd hle (not_le.mpr (h.waiting e he))
  · exact h.passed e

/-- The rows of a poll ascend above the checkpoint. -/
lemma poll_ascending (createdAt : String → DateTime)
    (hkeys : ((σ.db.stream streamId).map (·.globalPosition)).Nodup) (after : Int) (limit : ℕ) :
    ((σ.db.pollEventsForIndexing createdAt streamId after limit).map (·.1)).Pairwise (· < ·) ∧
      ∀ e ∈ σ.db.pollEventsForIndexing createdAt streamId after limit, after < e.1 := by
  have hfiltered : (((σ.db.stream streamId).filter fun e => after < e.globalPosition).map
      (·.globalPosition)).Nodup := hkeys.sublist (List.filter_sublist.map _)
  have hsorted := Cursor.insertionSort_ascending hfiltered
  constructor
  · rw [Tables.pollEventsForIndexing, List.map_map, List.map_take]
    exact hsorted.sublist (List.take_sublist _ _)
  · intro e he
    obtain ⟨row, hrow, rfl⟩ := List.mem_map.mp he
    have hmem := (List.mem_insertionSort _).mp (List.mem_of_mem_take hrow)
    simpa using (List.mem_filter.mp hmem).2

/-- The position of the last row of a batch, which becomes the checkpoint. -/
lemma le_last {rows : List Polled} {c : Int} (hasc : (rows.map (·.1)).Pairwise (· < ·))
    (habove : ∀ e ∈ rows, c < e.1) :
    c ≤ (rows.getLast?.map (·.1)).getD c ∧ ∀ e ∈ rows, e.1 ≤ (rows.getLast?.map (·.1)).getD c := by
  rcases List.eq_nil_or_concat rows with rfl | ⟨before, last, rfl⟩
  · exact ⟨le_refl c, fun e he => absurd he List.not_mem_nil⟩
  · simp only [List.concat_eq_append, List.getLast?_concat, Option.map_some, Option.getD_some,
      List.map_append, List.map_singleton, List.pairwise_append, List.mem_append,
      List.mem_singleton] at *
    refine ⟨(habove last (.inr rfl)).le, ?_⟩
    rintro e (he | rfl)
    · exact (hasc.2.2 _ (List.mem_map_of_mem he) _ rfl).le
    · exact le_refl _

lemma inv_initial : (SearchIndexer.initial).Inv streamId where
  ascending := .nil
  passed e he := absurd he List.not_mem_nil
  waiting e he := absurd he List.not_mem_nil
  processed := rfl
  index := rfl
  kept := .slnil
  settled e := by simp [SearchIndexer.settled, initial]
  apart e he := absurd he List.not_mem_nil

lemma Inv.poll (h : u.Inv streamId)
    (hkeys : ((σ.db.stream streamId).map (·.globalPosition)).Nodup)
    {answered : Bool} (hs : u.next createdAt streamId σ (.poll answered) = some u') :
    u'.Inv streamId := by
  simp only [SearchIndexer.next] at hs
  split at hs
  · rename_i hstage
    split at hs
    · split at hs
      · obtain rfl := Option.some.inj hs
        exact h
      obtain rfl := Option.some.inj hs
      obtain ⟨hasc, habove⟩ := poll_ascending createdAt hkeys u.checkpoint 200
      have hsettled : u.settled = u.passed := by simp [SearchIndexer.settled, hstage]
      refine ⟨?_, h.passed, habove, h.processed, h.index, ?_, ?_, h.apart⟩
      · rw [SearchIndexer.polled, List.map_append, List.pairwise_append]
        refine ⟨?_, hasc, ?_⟩
        · simpa [SearchIndexer.polled, hstage, Stage.rows] using h.ascending
        · simp only [List.forall_mem_map]
          intro e he e' he'
          exact (h.passed e he).trans_lt (habove e' he')
      · exact hsettled ▸ h.kept
      · exact hsettled ▸ h.settled
    · obtain rfl := Option.some.inj hs
      exact h
  · cases hs

lemma Inv.indexStep (h : u.Inv streamId) {outcome : Outcome}
    (hs : u.next createdAt streamId σ (.index outcome) = some u') : u'.Inv streamId := by
  simp only [SearchIndexer.next] at hs
  split at hs
  · rename_i rows hstage
    have hsettled : u.settled = u.passed := by simp [SearchIndexer.settled, hstage]
    have hpolled : u.polled = u.passed ++ rows := by simp [SearchIndexer.polled, hstage, Stage.rows]
    have hascending := h.ascending
    have hwaiting := h.waiting
    have hkept := h.kept
    rw [hpolled] at hascending
    rw [hstage] at hwaiting
    rw [hsettled] at hkept
    -- a row of this batch is not among the earlier ones
    have hnew : ∀ e ∈ rows, e ∉ u.passed := fun e he hpassed =>
      absurd (h.passed e hpassed) (not_le.mpr (hwaiting e he))
    split_ifs at hs with houtcome
    · subst houtcome
      obtain rfl := Option.some.inj hs
      refine ⟨hascending, h.passed, hwaiting, h.processed, h.index, ?_, ?_, ?_⟩
      · exact hkept.trans (List.sublist_append_left _ _)
      · intro e
        have hiff := h.settled e
        rw [hsettled] at hiff
        simp only [SearchIndexer.settled, List.mem_append, hiff]
        tauto
      · intro e he hlost
        rcases List.mem_append.mp hlost with hlost | hrows
        · exact h.apart e he hlost
        · exact hnew e hrows (hkept.subset he)
    · obtain rfl := Option.some.inj hs
      have hnodup : ((u.kept ++ rows).map (·.1)).Nodup :=
        (hascending.imp ne_of_lt).sublist ((hkept.append (List.Sublist.refl rows)).map _)
      refine ⟨hascending, h.passed, hwaiting, h.processed, ?_, ?_, ?_, ?_⟩
      · have hrun : (outcome.run (some (indexBatch streamId rows u.index)) u.index).2
            = indexBatch streamId rows u.index := by
          cases outcome with
          | rejected => exact absurd rfl houtcome
          | _ => rfl
        refine hrun.trans ?_
        rw [h.index]
        exact indexBatch_rowsOf hnodup
      · exact hkept.append (List.Sublist.refl rows)
      · intro e
        have hiff := h.settled e
        rw [hsettled] at hiff
        simp only [SearchIndexer.settled, List.mem_append, hiff]
        tauto
      · intro e he hlost
        rcases List.mem_append.mp he with he | hrows
        · exact h.apart e he hlost
        · have hpassed := (h.settled e).mpr (.inr hlost)
          rw [hsettled] at hpassed
          exact hnew e hrows hpassed
  · cases hs

lemma Inv.advance (h : u.Inv streamId)
    (hs : u.next createdAt streamId σ .advance = some u') : u'.Inv streamId := by
  simp only [SearchIndexer.next] at hs
  split at hs
  · rename_i rows hstage
    obtain rfl := Option.some.inj hs
    have hsettled : u.settled = u.passed ++ rows := by simp [SearchIndexer.settled, hstage]
    have hascending := h.ascending
    have hwaiting := h.waiting
    rw [SearchIndexer.polled, hstage] at hascending
    rw [hstage] at hwaiting
    have hrows : (rows.map (·.1)).Pairwise (· < ·) := by
      rw [List.map_append, List.pairwise_append] at hascending
      exact hascending.2.1
    obtain ⟨hle, hlast⟩ := le_last hrows hwaiting
    refine ⟨?_, ?_, fun e he => absurd he List.not_mem_nil, ?_, h.index, ?_, ?_, h.apart⟩
    · simpa [SearchIndexer.polled, Stage.rows] using hascending
    · intro e he
      rcases List.mem_append.mp he with he | he
      · exact (h.passed e he).trans hle
      · exact hlast e he
    · simp [h.processed]
    · exact hsettled ▸ h.kept
    · exact hsettled ▸ h.settled
  · cases hs

lemma Inv.next {b : SearchIndexerStep} (h : u.Inv streamId)
    (hkeys : ((σ.db.stream streamId).map (·.globalPosition)).Nodup)
    (hs : u.next createdAt streamId σ b = some u') : u'.Inv streamId := by
  cases b with
  | poll answered => exact h.poll hkeys hs
  | index outcome => exact h.indexStep hs
  | advance => exact h.advance hs

/-- Only an `index_batch` without effect loses events. -/
lemma lost_next {b : SearchIndexerStep} (hb : b ≠ .index .rejected)
    (hs : u.next createdAt streamId σ b = some u') : u'.lost = u.lost := by
  cases b with
  | poll answered =>
    simp only [SearchIndexer.next] at hs
    split at hs
    · split at hs
      · split at hs <;> obtain rfl := Option.some.inj hs <;> rfl
      · obtain rfl := Option.some.inj hs
        rfl
    · cases hs
  | index outcome =>
    simp only [SearchIndexer.next] at hs
    split at hs
    · split_ifs at hs with houtcome
      · exact absurd (congrArg _ houtcome) hb
      · obtain rfl := Option.some.inj hs
        rfl
    · cases hs
  | advance =>
    simp only [SearchIndexer.next] at hs
    split at hs
    · obtain rfl := Option.some.inj hs
      rfl
    · cases hs

/-- What the checkpoint has passed is searchable unless a batch of it was lost. -/
lemma Inv.searchable_iff (h : u.Inv streamId) :
    u.Searchable streamId ↔ ∀ e ∈ u.lost, u.checkpoint < e.1 := by
  have hpassed : ∀ e ∈ u.passed, e ∈ u.settled := by
    intro e he
    rw [SearchIndexer.settled]
    split
    · exact List.mem_append_left _ he
    · exact he
  constructor
  · intro hsearchable e he
    by_contra hle
    have hpolled := mem_polled_of_settled ((h.settled e).mpr (.inr he))
    have hindexed := hsearchable.indexed e hpolled (not_lt.mp hle)
    exact h.apart e ((h.indexed_iff hpolled).mp hindexed) he
  · intro hlost
    have hindexed : ∀ e ∈ u.polled, e.1 ≤ u.checkpoint → u.Indexed streamId e := by
      intro e he hle
      rw [h.indexed_iff he]
      rcases (h.settled e).mp (hpassed e ((h.le_checkpoint he).mp hle)) with hkept | hmem
      · exact hkept
      · exact absurd hle (not_le.mpr (hlost e hmem))
    refine ⟨hindexed, ?_⟩
    rw [h.processed, SearchIndexer.polled, List.countP_append]
    have hall : u.passed.countP (fun e => decide (e.1 ≤ u.checkpoint ∧ u.Indexed streamId e))
        = u.passed.length := by
      rw [List.countP_eq_length]
      intro e he
      have hle := h.passed e he
      simpa using ⟨hle, hindexed e (List.mem_append_left _ he) hle⟩
    have hnone : u.stage.rows.countP
        (fun e => decide (e.1 ≤ u.checkpoint ∧ u.Indexed streamId e)) = 0 := by
      rw [List.countP_eq_zero]
      intro e he
      have hlt := h.waiting e he
      simp [hlt]
    rw [hall, hnone, Nat.add_zero]

end SearchIndexer

/-! ### The runs -/

variable {createdAt : String → DateTime} {streamId : String}
  {p : Appends.State (List UInt8) × SearchIndexer}

/-- Every `index_batch` takes effect. -/
def IndexTakesEffect (_ : Appends.State (List UInt8) × SearchIndexer) :
    Appends.Action (List UInt8) ⊕ SearchIndexerStep → Prop
  | .inl _ => True
  | .inr step => step ≠ .index .rejected

instance (p : Appends.State (List UInt8) × SearchIndexer) :
    (a : Appends.Action (List UInt8) ⊕ SearchIndexerStep) → Decidable (IndexTakesEffect p a)
  | .inl _ => isTrue trivial
  | .inr step => inferInstanceAs (Decidable (step ≠ .index .rejected))

lemma searchIndexer_inv (h : (searchRun createdAt streamId).Reachable p) :
    p.2.Inv streamId := by
  refine System.ReachBy.observed (P := fun p => p.2.Inv streamId) ?_ ?_ ?_ h
  · rintro σ _ - rfl
    exact SearchIndexer.inv_initial
  · intro σ u a σ' _ hinv _ _
    exact hinv
  · intro σ u b u' hreach hinv _ hs
    exact hinv.next (stream_nodup (Appends.inv_of_reachable hreach.system)) hs

lemma lost_eq_nil (h : (searchRun createdAt streamId).ReachBy IndexTakesEffect p) :
    p.2.lost = [] := by
  refine System.ReachBy.observed (P := fun p => p.2.lost = []) ?_ ?_ ?_ h
  · rintro σ _ - rfl
    rfl
  · intro σ u a σ' _ hlost _ _
    exact hlost
  · intro σ u b u' _ hlost htakes hs
    exact (SearchIndexer.lost_next htakes hs).trans hlost

/-- In every reachable state the polled events up to the checkpoint are indexed and counted if
and only if the checkpoint has passed no batch whose `INSERT` had no effect; where every
`index_batch` takes effect that is always so. -/
theorem searchable_up_to_checkpoint (createdAt : String → DateTime) (streamId : String) :
    (∀ p, (searchRun createdAt streamId).Reachable p →
      (p.2.Searchable streamId ↔ ∀ e ∈ p.2.lost, p.2.checkpoint < e.1)) ∧
    ∀ p, (searchRun createdAt streamId).ReachBy IndexTakesEffect p →
      p.2.Searchable streamId := by
  constructor
  · intro p hreach
    exact (searchIndexer_inv hreach).searchable_iff
  · intro p hreach
    rw [(searchIndexer_inv hreach.reachable).searchable_iff, lost_eq_nil hreach]
    intro e he
    exact absurd he List.not_mem_nil

/-! ### One event -/

/-- One event is committed, polled and passed. -/
def searchedRun (outcome : Outcome) :
    List (Appends.Action (List UInt8) ⊕ SearchIndexerStep) :=
  [.inl (.invoke ⟨"search", "BenchmarkEvent", [[0]], 1, 0⟩), .inl (.upsert 0), .inl (.draw 0 1),
    .inl (.commit 0 fun _ => "a"), .inr (.poll true), .inr (.index outcome), .inr .advance]

def searchStart : Appends.State (List UInt8) × SearchIndexer :=
  (⟨⟨fun _ => none, []⟩, 0, []⟩, .initial)

/-- The instants of the rows. -/
def atEpoch (_ : String) : DateTime := .epoch

def searched (outcome : Outcome) : Appends.State (List UInt8) × SearchIndexer :=
  (searchRun atEpoch "search").after (searchedRun outcome) searchStart

/-- With an `INSERT` whose answer is lost the event is found; with one that fails it is not. -/
theorem searchable_up_to_checkpoint_single :
    (searched .unacknowledged).2.Searchable "search" ∧
      ((searched .rejected).2.Searchable "search" ↔
        ∀ e ∈ (searched .rejected).2.lost, (searched .rejected).2.checkpoint < e.1) := by
  have hinit : (searchRun atEpoch "search").init searchStart :=
    ⟨⟨by decide, by decide, by decide, rfl⟩, rfl⟩
  constructor
  · refine (searchable_up_to_checkpoint atEpoch "search").2 _ ?_
    exact System.reachBy_after (searchedRun .unacknowledged) hinit (by decide) (by decide)
  · refine (searchable_up_to_checkpoint atEpoch "search").1 _ ?_
    exact System.reachable_after (searchedRun .rejected) hinit (by decide)

/-- The event is passed and counted, and it is not in the index. -/
theorem searchable_up_to_checkpoint_fails :
    ¬ ∀ (createdAt : String → DateTime) (streamId : String) (p),
      (searchRun createdAt streamId).Reachable p → p.2.Searchable streamId := by
  intro hclaim
  have hreach := System.reachable_after (M := searchRun atEpoch "search")
    (searchedRun .rejected) (s := searchStart) ⟨⟨by decide, by decide, by decide, rfl⟩, rfl⟩
    (by decide)
  have hsearchable := hclaim atEpoch "search" (searched .rejected) hreach
  exact absurd hsearchable.processed (by decide)

end EventSourcing.PostgresClient
