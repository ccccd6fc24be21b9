import EventSourcing.Bench.Statement
import EventSourcing.Events
import EventSourcing.Fold.Keyed
import Mathlib

/-!
# The search index

The rows that `search_bench` writes for events. The key of a row is made of the stream and the
position of the event, so events at positions of their own never stand in each other's way.
-/

namespace EventSourcing.Bench

/-- A row of `search_index`, without the columns that the server derives. -/
structure SearchRow where
  id : String
  streamId : String
  eventType : String
  seq : Int64
  orderId : String
  productId : String
  status : String
  fullText : String
  eventTs : DateTime
  deriving DecidableEq

/-- The row of an event at a position. -/
def searchRow (streamId : String) (gpos : Int) (event : Events.BenchmarkEvent) : SearchRow :=
  let orderId := "ORD-" ++ toString (event.seq % 10000)
  let productId := "PROD-" ++ toString (event.seq % 1000)
  let status := if event.seq % 5 = 0 then "completed" else "active"
  { id := streamId ++ "-" ++ gpos.repr
    streamId := streamId
    eventType := "BenchmarkEvent"
    seq := event.seq.toInt64
    orderId := orderId
    productId := productId
    status := status
    fullText := "order " ++ orderId ++ " product " ++ productId ++ " status " ++ status ++ " task "
      ++ toString event.taskId
    eventTs := event.createdAt }

/-- What `index_batch` leads to; each row is an `INSERT … ON CONFLICT (id) DO NOTHING`. -/
def indexBatch (streamId : String) (events : List (Int × Events.BenchmarkEvent))
    (index : List SearchRow) : List SearchRow :=
  (events.map fun (gpos, event) => searchRow streamId gpos event).foldl
    (Fold.insertNew (·.id)) index

/-- The rows of events, in their order. -/
def rowsOf (streamId : String) (events : List (Int × Events.BenchmarkEvent)) : List SearchRow :=
  events.map fun (gpos, event) => searchRow streamId gpos event

variable {streamId : String} {index : List SearchRow}
  {events events' : List (Int × Events.BenchmarkEvent)}

lemma searchRow_id_inj {gpos gpos' : Int} {event event' : Events.BenchmarkEvent} :
    (searchRow streamId gpos event).id = (searchRow streamId gpos' event').id ↔ gpos = gpos' := by
  constructor
  · intro h
    exact Int.repr_injective ((String.append_right_inj _).mp h)
  · rintro rfl
    rfl

lemma rowsOf_append :
    rowsOf streamId (events ++ events') = rowsOf streamId events ++ rowsOf streamId events' :=
  List.map_append

/-- Rows at positions of their own are all added. -/
lemma indexBatch_rowsOf (h : ((events ++ events').map (·.1)).Nodup) :
    indexBatch streamId events' (rowsOf streamId events) = rowsOf streamId (events ++ events') := by
  induction events' generalizing events with
  | nil => simp [indexBatch]
  | cons e events' ih =>
    have hnew : (searchRow streamId e.1 e.2).id ∉ (rowsOf streamId events).map (·.id) := by
      rw [rowsOf, List.map_map, List.mem_map]
      rintro ⟨e', he', hid⟩
      rw [List.map_append, List.nodup_append] at h
      exact h.2.2 _ (List.mem_map_of_mem he') _ (List.mem_cons_self) (searchRow_id_inj.mp hid)
    have hstep : Fold.insertNew (·.id) (rowsOf streamId events) (searchRow streamId e.1 e.2)
        = rowsOf streamId (events ++ [e]) := by
      rw [Fold.insertNew_of_new hnew, rowsOf_append]
      rfl
    have hrest := @ih (events ++ [e]) (by simpa using h)
    rw [List.append_assoc, List.singleton_append] at hrest
    rw [← hrest, indexBatch, List.map_cons, List.foldl_cons, hstep]
    rfl

/-- The row of an event is in the index of events at positions of their own if and only if the
event is one of them. -/
lemma mem_rowsOf {e : Int × Events.BenchmarkEvent} {all : List (Int × Events.BenchmarkEvent)}
    (hall : (all.map (·.1)).Nodup) (he : e ∈ all) (hevents : ∀ e' ∈ events, e' ∈ all) :
    searchRow streamId e.1 e.2 ∈ rowsOf streamId events ↔ e ∈ events := by
  constructor
  · intro hmem
    obtain ⟨e', he', heq⟩ := List.mem_map.mp hmem
    have hpos : e'.1 = e.1 := searchRow_id_inj.mp (congrArg SearchRow.id heq)
    obtain rfl := List.inj_on_of_nodup_map hall (hevents e' he') he hpos
    exact he'
  · intro hmem
    exact List.mem_map.mpr ⟨e, hmem, rfl⟩

end EventSourcing.Bench
