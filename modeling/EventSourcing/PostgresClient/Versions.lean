import EventSourcing.Concurrency.System
import EventSourcing.PostgresClient.Tables

/-!
# The counters and the rows of `PostgresClient`

`append_batch_versioned` numbers its rows by the counter of the stream, `append_with_stream_version`
by its argument, and neither looks at what the other has done. Truncating or re-creating the
table removes the rows and leaves the counters. What holds of every sequence of successful
operations is that the two kinds of rows can be told apart by the counter.
-/

namespace EventSourcing.PostgresClient

open Bench Concurrency

variable {P : Type}

structure State (P : Type) where
  db : Tables P
  /-- history: the streams and versions that `append_with_stream_version` has stored since the
  table was last emptied -/
  explicit : List (String × Int)
  /-- history: the counter of a stream when the table was last emptied -/
  kept : String → Int

inductive Operation (P : Type) where
  | appendBatchVersioned (batch : Batch P) (draws : Draws)
  | appendWithStreamVersion (streamId eventType : String) (payload : P) (streamVersion : Int)
      (seq taskId : UInt64) (draws : Draws)
  | truncateBenchTable
  | ensureBenchTableEventStore
  | initStreamVersions (streamIds : List String)

namespace State

/-- The table is emptied; the counters stay. -/
def emptied (db : Tables P) : State P where
  db := db
  explicit := []
  kept := db.version

/-- An operation that succeeds. -/
def next (σ : State P) : Operation P → Option (State P)
  | .appendBatchVersioned batch draws =>
    match σ.db.appendBatchVersioned batch draws .done .done with
    | (.ok _, db) => some { σ with db := db }
    | (.error _, _) => none
  | .appendWithStreamVersion streamId eventType payload streamVersion seq taskId draws =>
    match σ.db.appendWithStreamVersion streamId eventType payload streamVersion seq taskId draws
      .done with
    | (.ok _, db) => some { σ with db := db, explicit := (streamId, streamVersion) :: σ.explicit }
    | (.error _, _) => none
  | .truncateBenchTable => some (emptied σ.db.truncateBenchTable)
  | .ensureBenchTableEventStore => some (emptied σ.db.ensureBenchTableEventStore)
  | .initStreamVersions streamIds => some { σ with db := σ.db.initStreamVersions streamIds }

end State

variable (P) in
/-- Every sequence of successful operations after the tables have been ensured; counters may
have survived from earlier runs. -/
def system : System (State P) (Operation P) where
  init σ := ∃ db : Tables P, σ = .emptied db.ensureBenchTableEventStore
  next := State.next

/-- The versions of the rows of a stream, in the order of the inserts. -/
def Tables.versions (db : Tables P) (s : String) : List Int :=
  (db.benchEvents.filter fun e => e.streamId = s).map (·.streamVersion)

/-! ### What the operations do -/

section Rows

variable {db db' : Tables P} {batch : Batch P} {rows : List (BenchEvent P)} {draws : Draws}
  {v : Int} {s : String}

lemma Batch.streamId_of_mem {e : BenchEvent P} (h : e ∈ batch.rows v draws) :
    e.streamId = batch.streamId := by
  obtain ⟨i, hi, rfl⟩ := List.mem_mapIdx.mp h
  rfl

lemma Batch.versions_rows : (batch.rows v draws).map (·.streamVersion)
    = (List.range batch.payloads.length).map fun i : ℕ => v + i := by
  apply List.ext_getElem <;> simp [Batch.rows]

lemma Tables.insert_eq_some (h : db.insert rows = some db') :
    ¬ db.HasVersion rows ∧ db' = { db with benchEvents := db.benchEvents ++ rows } := by
  simp only [Tables.insert] at h
  split_ifs at h with hdup
  exact ⟨fun hv => hdup (.inr (.inl hv)), (Option.some.inj h).symm⟩

lemma Tables.versions_append (rows : List (BenchEvent P)) (hrows : ∀ e ∈ rows, e.streamId = s)
    (streamVersions : String → Option Int) (s' : String) :
    Tables.versions ⟨streamVersions, db.benchEvents ++ rows⟩ s'
      = db.versions s' ++ if s' = s then rows.map (·.streamVersion) else [] := by
  simp only [Tables.versions, List.filter_append, List.map_append]
  congr 1
  split_ifs with hs
  · rw [List.filter_eq_self.mpr fun e he => by simp [hrows e he, hs]]
  · rw [List.filter_eq_nil_iff.mpr fun e he => by simp [hrows e he, Ne.symm hs]]
    rfl

end Rows

/-- `append_batch_versioned` succeeds without rows, or advances the counter and stores the rows
that it has numbered. -/
lemma Tables.appendBatchVersioned_ok {db db' : Tables P} {batch : Batch P} {draws : Draws}
    {k : Int} (h : db.appendBatchVersioned batch draws .done .done = (.ok k, db')) :
    (batch.payloads = [] ∧ db' = db) ∨
      (batch.payloads ≠ [] ∧
        db' = ⟨(db.upsertVersion batch.streamId batch.payloads.length).streamVersions,
          db.benchEvents ++ batch.rows (db.version batch.streamId) draws⟩) := by
  simp only [Tables.appendBatchVersioned] at h
  split at h
  · rename_i hnil
    exact .inl ⟨hnil, (congrArg Prod.snd h).symm⟩
  · rename_i payload hone
    refine .inr ⟨by simp [hone], ?_⟩
    split at h
    · rename_i new hrun
      obtain rfl : new = db' := congrArg Prod.snd h
      rw [(insert_eq_some (Outcome.run_eq_true.mp hrun).2).2]
      simp [hone, upsertVersion]
    · cases h
  · rename_i hnil hone
    refine .inr ⟨fun hpayloads => hnil hpayloads, ?_⟩
    split at h
    · cases h
    · rename_i advanced hcounter
      obtain rfl := Option.some.inj (Outcome.run_eq_true.mp hcounter).2
      split at h
      · rename_i new hrun
        obtain rfl : new = db' := congrArg Prod.snd h
        have hinsert := (Outcome.run_eq_true.mp hrun).2
        simp only [insertBatch] at hinsert
        split_ifs at hinsert
        rw [(insert_eq_some hinsert).2]
        rfl
      · cases h

lemma Tables.appendWithStreamVersion_ok {db db' : Tables P} {streamId eventType : String}
    {payload : P} {streamVersion : Int} {seq taskId : UInt64} {draws : Draws}
    (h : db.appendWithStreamVersion streamId eventType payload streamVersion seq taskId draws
      .done = (.ok (), db')) :
    ∃ row : BenchEvent P, row.streamId = streamId ∧ row.streamVersion = streamVersion ∧
      db' = { db with benchEvents := db.benchEvents ++ [row] } := by
  simp only [Tables.appendWithStreamVersion] at h
  split at h
  · rename_i new hrun
    obtain rfl : new = db' := congrArg Prod.snd h
    rw [(insert_eq_some (Outcome.run_eq_true.mp hrun).2).2]
    exact ⟨_, rfl, rfl, rfl⟩
  · split_ifs at h <;> cases h

/-! ### Counter and rows -/

/-- Without explicit versions the rows since the table was emptied continue its counter. -/
def Continues (σ : State P) (s : String) : Prop :=
  (∀ v, (s, v) ∉ σ.explicit) → ∃ n : ℕ, σ.db.version s = σ.kept s + n ∧
    σ.db.versions s = (List.range n).map fun i : ℕ => σ.kept s + i

structure Inv (σ : State P) : Prop where
  below : ∀ e ∈ σ.db.benchEvents,
    (∃ counter ∈ σ.db.streamVersions e.streamId, e.streamVersion < counter) ∨
      (e.streamId, e.streamVersion) ∈ σ.explicit
  stored : ∀ s v, (s, v) ∈ σ.explicit → v ∈ σ.db.versions s
  continues : ∀ s, Continues σ s

variable {σ σ' : State P}

lemma inv_emptied (db : Tables P) (h : db.benchEvents = []) : Inv (State.emptied db) where
  below e he := by simp [State.emptied, h] at he
  stored s v hv := by simp [State.emptied] at hv
  continues s _ := ⟨0, by simp [State.emptied, Tables.versions, h]⟩

lemma Tables.version_upsertVersion (db : Tables P) (s s' : String) (n : Int)
    (rows : List (BenchEvent P)) :
    Tables.version ⟨(db.upsertVersion s n).streamVersions, rows⟩ s'
      = db.version s' + if s' = s then n else 0 := by
  by_cases hs : s' = s
  · subst hs
    simp [Tables.version, Tables.upsertVersion]
  · simp [Tables.version, Tables.upsertVersion, hs]

/-- A batch of rows under the counter. -/
lemma Inv.append (h : Inv σ) (batch : Batch P) (draws : Draws) :
    Inv { σ with
      db := ⟨(σ.db.upsertVersion batch.streamId batch.payloads.length).streamVersions,
        σ.db.benchEvents ++ batch.rows (σ.db.version batch.streamId) draws⟩ } where
  below e he := by
    rcases List.mem_append.mp he with he | he
    · rcases h.below e he with ⟨counter, hcounter, hlt⟩ | hexplicit
      · refine .inl ?_
        by_cases hs : e.streamId = batch.streamId
        · refine ⟨σ.db.version batch.streamId + batch.payloads.length, ?_, ?_⟩
          · simp [Tables.upsertVersion, hs]
          · have hversion : σ.db.version batch.streamId = counter := by
              rw [Tables.version, ← hs, hcounter, Option.getD_some]
            omega
        · exact ⟨counter, by simpa [Tables.upsertVersion, hs] using hcounter, hlt⟩
      · exact .inr hexplicit
    · obtain ⟨i, hi, rfl⟩ := List.mem_mapIdx.mp he
      refine .inl ⟨σ.db.version batch.streamId + batch.payloads.length, ?_, ?_⟩
      · simp [Tables.upsertVersion]
      · simpa using hi
  stored s v hv := by
    rw [Tables.versions_append _ fun _ => Batch.streamId_of_mem]
    exact List.mem_append_left _ (h.stored s v hv)
  continues s hnone := by
    obtain ⟨n, hversion, hversions⟩ := h.continues s hnone
    rw [Tables.versions_append _ fun _ => Batch.streamId_of_mem, Tables.version_upsertVersion,
      hversion, hversions, Batch.versions_rows]
    by_cases hs : s = batch.streamId
    · refine ⟨n + batch.payloads.length, by simp [hs, Int.add_assoc], ?_⟩
      subst hs
      rw [if_pos rfl, hversion, List.range_add, List.map_append, List.map_map]
      simp [Function.comp_def, Int.add_assoc]
    · exact ⟨n, by simp [hs], by simp [hs]⟩

/-- A row under a version of its own choice. -/
lemma Inv.appendExplicit (h : Inv σ) (row : BenchEvent P) :
    Inv { σ with
      db := { σ.db with benchEvents := σ.db.benchEvents ++ [row] }
      explicit := (row.streamId, row.streamVersion) :: σ.explicit } where
  below e he := by
    rcases List.mem_append.mp he with he | he
    · exact (h.below e he).imp_right (List.mem_cons_of_mem _)
    · obtain rfl := List.mem_singleton.mp he
      exact .inr List.mem_cons_self
  stored s v hv := by
    rw [Tables.versions_append (s := row.streamId) _ (by simp)]
    rcases List.mem_cons.mp hv with heq | hv
    · cases heq
      simp
    · exact List.mem_append_left _ (h.stored s v hv)
  continues s hnone := by
    have hs : s ≠ row.streamId := fun hs => hnone row.streamVersion (by simp [hs])
    obtain ⟨n, hversion, hversions⟩ :=
      h.continues s fun v hv => hnone v (List.mem_cons_of_mem _ hv)
    refine ⟨n, hversion, ?_⟩
    rw [Tables.versions_append (s := row.streamId) _ (by simp), if_neg hs, List.append_nil,
      hversions]

/-- A counter that is there already stays, and one that is not starts at `0`. -/
lemma Inv.initStreamVersions (h : Inv σ) (streamIds : List String) :
    Inv { σ with db := σ.db.initStreamVersions streamIds } where
  below e he := by
    refine (h.below e he).imp_left ?_
    rintro ⟨counter, hcounter, hlt⟩
    refine ⟨counter, ?_, hlt⟩
    simp only [Tables.initStreamVersions, Tables.version, Option.mem_def] at hcounter ⊢
    rw [hcounter]
    split <;> rfl
  stored := h.stored
  continues s hnone := by
    obtain ⟨n, hversion, hversions⟩ := h.continues s hnone
    refine ⟨n, ?_, hversions⟩
    rw [← hversion]
    simp only [Tables.initStreamVersions, Tables.version]
    split <;> rfl

lemma inv_next {op : Operation P} (h : Inv σ) (hs : σ.next op = some σ') : Inv σ' := by
  cases op with
  | appendBatchVersioned batch draws =>
    simp only [State.next] at hs
    split at hs
    · rename_i k db hok
      obtain rfl := Option.some.inj hs
      rcases Tables.appendBatchVersioned_ok hok with ⟨-, rfl⟩ | ⟨-, rfl⟩
      · exact h
      · exact h.append batch draws
    · cases hs
  | appendWithStreamVersion streamId eventType payload streamVersion seq taskId draws =>
    simp only [State.next] at hs
    split at hs
    · rename_i db hok
      obtain rfl := Option.some.inj hs
      obtain ⟨row, rfl, rfl, rfl⟩ := Tables.appendWithStreamVersion_ok hok
      exact h.appendExplicit row
    · cases hs
  | truncateBenchTable =>
    obtain rfl := Option.some.inj hs
    exact inv_emptied _ rfl
  | ensureBenchTableEventStore =>
    obtain rfl := Option.some.inj hs
    exact inv_emptied _ rfl
  | initStreamVersions streamIds =>
    obtain rfl := Option.some.inj hs
    exact h.initStreamVersions streamIds

lemma inv_of_reachable (h : (system P).Reachable σ) : Inv σ := by
  refine System.ReachBy.invariant (P := Inv) ?_ ?_ h
  · rintro σ ⟨db, rfl⟩
    exact inv_emptied _ rfl
  · exact fun _ _ _ _ hinv _ hs => inv_next hinv hs

/-- After every sequence of successful operations: a version that `append_with_stream_version`
has not written lies below the counter of its stream; a stream without such versions whose
counter was `0` when the table was last emptied has the versions `0, 1, …` up to its counter;
and `append_batch_versioned` meets a version that is taken only where
`append_with_stream_version` has written it. -/
theorem versions_below_counter (h : (system P).Reachable σ) (s : String) :
    (∀ e ∈ σ.db.benchEvents, e.streamId = s →
      (∃ counter ∈ σ.db.streamVersions s, e.streamVersion < counter) ∨
        (s, e.streamVersion) ∈ σ.explicit) ∧
    (σ.kept s = 0 → (∀ v, (s, v) ∉ σ.explicit) → ∃ n : ℕ, σ.db.version s = n ∧
      σ.db.versions s = (List.range n).map fun i : ℕ => (i : Int)) ∧
    ∀ (batch : Batch P) draws, batch.streamId = s →
      σ.db.HasVersion (batch.rows (σ.db.version s) draws) →
      ∃ v, (s, v) ∈ σ.explicit ∧ v ∈ σ.db.versions s ∧ σ.db.version s ≤ v ∧
        v < σ.db.version s + batch.payloads.length := by
  have hinv := inv_of_reachable h
  refine ⟨?_, ?_, ?_⟩
  · rintro e he rfl
    exact hinv.below e he
  · intro hkept hnone
    simpa [hkept] using hinv.continues s hnone
  · rintro batch draws rfl ⟨row, hrow, e, he, hstream, hversion⟩
    obtain ⟨i, hi, rfl⟩ := List.mem_mapIdx.mp hrow
    simp only at hstream hversion
    rcases hinv.below e he with ⟨counter, hcounter, hlt⟩ | hexplicit
    · -- what the counter has handed out lies below it
      rw [hstream] at hcounter
      have hcount : σ.db.version batch.streamId = counter := by
        rw [Tables.version, hcounter, Option.getD_some]
      omega
    · rw [hstream, hversion] at hexplicit
      exact ⟨_, hexplicit, hinv.stored _ _ hexplicit, by omega, by omega⟩

/-! ### Explicit versions and counters that survive -/

def emptyTables : Tables ℕ := ⟨fun _ => none, []⟩

/-- The draws of the `k`-th operation. -/
def drawsOf (k : ℕ) : Draws := ⟨fun i => toString (10 * k + i), fun i => 10 * k + i⟩

/-- A batch of so many events of the stream `s`. -/
def benchBatch (n : ℕ) : Batch ℕ := ⟨"s", "BenchmarkEvent", List.range n, 0, 0⟩

/-- Version `0` is written explicitly while the counter has not been used. -/
def explicitRun : List (Operation ℕ) :=
  [.appendWithStreamVersion "s" "BenchmarkEvent" 7 0 0 0 (drawsOf 0)]

/-- The table is truncated between two batches. -/
def truncatedRun : List (Operation ℕ) :=
  [.appendBatchVersioned (benchBatch 1) (drawsOf 0), .truncateBenchTable,
    .appendBatchVersioned (benchBatch 2) (drawsOf 1)]

lemma reachable_after_empty (ops : List (Operation ℕ))
    (hr : ((system ℕ).run ops (.emptied emptyTables)).isSome) :
    (system ℕ).Reachable ((system ℕ).after ops (.emptied emptyTables)) :=
  System.reachable_after ops ⟨emptyTables, rfl⟩ hr

/-- An explicit version lies above the counter and makes `append_batch_versioned` fail, and
after a truncation the versions of a stream need not start at `0`. -/
theorem versions_below_counter_fails :
    (¬ ∀ σ, (system ℕ).Reachable σ → ∀ e ∈ σ.db.benchEvents,
      ∃ counter ∈ σ.db.streamVersions e.streamId, e.streamVersion < counter) ∧
    (¬ ∀ σ, (system ℕ).Reachable σ → ∀ s, (∀ v, (s, v) ∉ σ.explicit) →
      ∃ n : ℕ, σ.db.version s = n ∧ σ.db.versions s = (List.range n).map fun i : ℕ => (i : Int)) ∧
    ¬ ∀ σ, (system ℕ).Reachable σ → ∀ (batch : Batch ℕ) draws,
      ¬ σ.db.HasVersion (batch.rows (σ.db.version batch.streamId) draws) := by
  have hexplicit := reachable_after_empty explicitRun (by decide)
  refine ⟨fun hclaim => ?_, fun hclaim => ?_, fun hclaim => ?_⟩
  · exact absurd (hclaim _ hexplicit) (by decide)
  · have htruncated := reachable_after_empty truncatedRun (by decide)
    have hnone : ((system ℕ).after truncatedRun (.emptied emptyTables)).explicit = [] := by
      decide
    obtain ⟨n, hversion, hversions⟩ := hclaim _ htruncated "s" (by simp [hnone])
    have hthree : ((system ℕ).after truncatedRun (.emptied emptyTables)).db.version "s" = 3 := by
      decide
    obtain rfl : n = 3 := by omega
    exact absurd hversions (by decide)
  · exact hclaim _ hexplicit (benchBatch 1) (drawsOf 1) (by decide)

/-- Batches, a truncation before the counter is used, and an explicit version on top. -/
def mixedRun : List (Operation ℕ) :=
  [.initStreamVersions ["s"], .truncateBenchTable,
    .appendBatchVersioned (benchBatch 2) (drawsOf 0),
    .appendBatchVersioned (benchBatch 1) (drawsOf 1),
    .appendWithStreamVersion "t" "BenchmarkEvent" 7 4 0 0 (drawsOf 2)]

theorem versions_below_counter_mixed :
    ((system ℕ).after mixedRun (.emptied emptyTables)).db.versions "s" = [0, 1, 2] ∧
      ∃ n : ℕ, ((system ℕ).after mixedRun (.emptied emptyTables)).db.versions "s"
        = (List.range n).map fun i : ℕ => (i : Int) := by
  have hreach := reachable_after_empty mixedRun (by decide)
  have hother : ((system ℕ).after mixedRun (.emptied emptyTables)).explicit = [("t", 4)] := by
    decide
  obtain ⟨n, -, hversions⟩ :=
    (versions_below_counter hreach "s").2.1 (by decide) (by simp [hother])
  exact ⟨by decide, n, hversions⟩

end EventSourcing.PostgresClient
