import EventSourcing.Bench.SearchIndex
import EventSourcing.Fold.Keyed

/-!
# Batches of the search index

Calls of `index_batch` for any streams, with batches that overlap and repeat. The id of a row is
the stream, a dash and the position; the position has no dash, so the last dash of an id tells
both apart, whatever the stream is called.
-/

namespace EventSourcing.Bench

open Fold

/-- A batch: the stream, and the events with their positions. -/
abbrev IndexBatch := String × List (Int × Events.BenchmarkEvent)

/-- What calls of `index_batch` lead to, one after another. -/
def indexBatches (batches : List IndexBatch) (index : List SearchRow) : List SearchRow :=
  batches.foldl (fun index batch => indexBatch batch.1 batch.2 index) index

/-- The events of the batches are drawn from the events that `event` gives. -/
def DrawnFrom (event : String → Int → Option Events.BenchmarkEvent) (batches : List IndexBatch) :
    Prop :=
  ∀ batch ∈ batches, ∀ e ∈ batch.2, 0 ≤ e.1 ∧ event batch.1 e.1 = some e.2

instance (event : String → Int → Option Events.BenchmarkEvent) (batches : List IndexBatch) :
    Decidable (DrawnFrom event batches) :=
  inferInstanceAs (Decidable (∀ batch ∈ batches, ∀ e ∈ batch.2,
    0 ≤ e.1 ∧ event batch.1 e.1 = some e.2))

/-! ### Ids -/

/-- The last dash of a text tells what is before it and what is behind. -/
lemma split_last {c : Char} {s t d e : List Char} (hd : c ∉ d) (he : c ∉ e)
    (h : s ++ c :: d = t ++ c :: e) : s = t ∧ d = e := by
  rcases List.append_eq_append_iff.mp h with ⟨u, rfl, hu⟩ | ⟨u, rfl, hu⟩
  · cases u with
    | nil => simpa using hu
    | cons x u =>
      rw [List.cons_append, List.cons.injEq] at hu
      exact absurd (hu.2 ▸ List.mem_append_right u List.mem_cons_self) hd
  · cases u with
    | nil => simpa [eq_comm] using hu
    | cons x u =>
      rw [List.cons_append, List.cons.injEq] at hu
      exact absurd (hu.2 ▸ List.mem_append_right u List.mem_cons_self) he

lemma dash_notMem_repr {gpos : Int} (h : 0 ≤ gpos) : '-' ∉ gpos.repr.toList := by
  lift gpos to ℕ using h
  have hrepr : (gpos : Int).repr = gpos.repr := rfl
  intro hmem
  rw [hrepr, Nat.toList_repr] at hmem
  exact absurd (Nat.isDigit_of_mem_toDigits (by omega) (by omega) hmem) (by decide)

/-- Events of different streams, or at different positions of one, have different ids. -/
lemma searchRow_id_injective {streamId streamId' : String} {gpos gpos' : Int}
    {event event' : Events.BenchmarkEvent} (hgpos : 0 ≤ gpos) (hgpos' : 0 ≤ gpos')
    (h : (searchRow streamId gpos event).id = (searchRow streamId' gpos' event').id) :
    streamId = streamId' ∧ gpos = gpos' := by
  have hchars : streamId.toList ++ '-' :: gpos.repr.toList
      = streamId'.toList ++ '-' :: gpos'.repr.toList := by
    have := congrArg String.toList h
    simpa [searchRow] using this
  obtain ⟨hstream, hrepr⟩ :=
    split_last (dash_notMem_repr hgpos) (dash_notMem_repr hgpos') hchars
  exact ⟨String.toList_inj.mp hstream, Int.repr_injective (String.toList_inj.mp hrepr)⟩

/-! ### Runs of batches -/

/-- The rows of all the batches. -/
def rowsOfBatches (batches : List IndexBatch) : List SearchRow :=
  batches.flatMap fun batch => rowsOf batch.1 batch.2

lemma indexBatches_eq_foldl (batches : List IndexBatch) (index : List SearchRow) :
    indexBatches batches index = (rowsOfBatches batches).foldl (insertNew (·.id)) index := by
  induction batches generalizing index with
  | nil => rfl
  | cons batch batches ih =>
    rw [rowsOfBatches, List.flatMap_cons, List.foldl_append]
    exact ih _

lemma mem_rowsOfBatches {batches : List IndexBatch} {row : SearchRow} :
    row ∈ rowsOfBatches batches
      ↔ ∃ batch ∈ batches, ∃ e ∈ batch.2, row = searchRow batch.1 e.1 e.2 := by
  simp only [rowsOfBatches, rowsOf, List.mem_flatMap, List.mem_map, eq_comm]

/-- An id tells the rows of the batches apart. -/
lemma DrawnFrom.row_eq {event : String → Int → Option Events.BenchmarkEvent}
    {batches : List IndexBatch} (h : DrawnFrom event batches) :
    ∀ row ∈ rowsOfBatches batches, ∀ row' ∈ rowsOfBatches batches, row.id = row'.id →
      row = row' := by
  intro row hrow row' hrow' hid
  obtain ⟨batch, hbatch, e, he, rfl⟩ := mem_rowsOfBatches.mp hrow
  obtain ⟨batch', hbatch', e', he', rfl⟩ := mem_rowsOfBatches.mp hrow'
  obtain ⟨hpos, hevent⟩ := h batch hbatch e he
  obtain ⟨hpos', hevent'⟩ := h batch' hbatch' e' he'
  obtain ⟨hstream, hgpos⟩ := searchRow_id_injective hpos hpos' hid
  rw [hstream, hgpos, hevent', Option.some.injEq] at hevent
  rw [hstream, hgpos, hevent]

/-- Whatever batches of the events are indexed, in any order, with any overlap and as often as may
be: the index has one row for every event of a batch, with the fields computed from it, and no
other row. Rows of different events have different ids. -/
theorem indexBatches_one_row {event : String → Int → Option Events.BenchmarkEvent}
    {batches : List IndexBatch} (h : DrawnFrom event batches) :
    (∀ row, row ∈ indexBatches batches []
        ↔ ∃ batch ∈ batches, ∃ e ∈ batch.2, row = searchRow batch.1 e.1 e.2)
      ∧ (∀ batch ∈ batches, ∀ e ∈ batch.2,
          (indexBatches batches []).filter (fun row => row.id = (searchRow batch.1 e.1 e.2).id)
            = [searchRow batch.1 e.1 e.2])
      ∧ (∀ streamId streamId' gpos gpos' e e', 0 ≤ gpos → 0 ≤ gpos'
          → (searchRow streamId gpos e).id = (searchRow streamId' gpos' e').id
          → streamId = streamId' ∧ gpos = gpos') := by
  have hmem : ∀ row, row ∈ indexBatches batches []
      ↔ ∃ batch ∈ batches, ∃ e ∈ batch.2, row = searchRow batch.1 e.1 e.2 := by
    intro row
    rw [indexBatches_eq_foldl, mem_foldl_insertNew (by simpa using h.row_eq), ← mem_rowsOfBatches]
    simp
  refine ⟨hmem, ?_, fun _ _ _ _ _ _ => searchRow_id_injective⟩
  intro batch hbatch e he
  have hempty : (([] : List SearchRow).map (·.id)).Nodup := List.nodup_nil
  have hnodup : ((indexBatches batches []).map (·.id)).Nodup := by
    rw [indexBatches_eq_foldl]
    exact nodup_foldl_insertNew hempty _
  exact filter_key_eq hnodup ((hmem _).mpr ⟨batch, hbatch, e, he, rfl⟩)

/-- The event `n` of the stream `bench-1` or `bench-1-1`. -/
def benchEvent (streamId : String) (gpos : Int) : Option Events.BenchmarkEvent :=
  if streamId = "bench-1" ∨ streamId = "bench-1-1" then
    some ⟨.ofNat gpos.toNat, 1, [], .epoch⟩
  else none

/-- An indexer that has started again over `bench-1`, next to one of `bench-1-1`: the events at 12
and at 2. -/
def restartedBatches : List IndexBatch :=
  [("bench-1", [(12, ⟨12, 1, [], .epoch⟩)]), ("bench-1-1", [(2, ⟨2, 1, [], .epoch⟩)]),
    ("bench-1", [(12, ⟨12, 1, [], .epoch⟩)])]

theorem indexBatches_restarted :
    DrawnFrom benchEvent restartedBatches
      ∧ ∀ row, row ∈ indexBatches restartedBatches []
        ↔ ∃ batch ∈ restartedBatches, ∃ e ∈ batch.2, row = searchRow batch.1 e.1 e.2 := by
  have h : DrawnFrom benchEvent restartedBatches := by decide
  exact ⟨h, (indexBatches_one_row h).1⟩

end EventSourcing.Bench
