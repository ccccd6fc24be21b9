import EventSourcing.Fold.Recent

/-!
# The history of benchmark runs

`merge_bench_history.py` puts the current run in front of the runs of the history file, without
the earlier one of the same `run_id`, and keeps ten. The files are JSON; `json.loads` reads back
what `json.dumps` has written.
-/

namespace EventSourcing.BenchHistory

open Fold

/-- The values `json.loads` gives. -/
inductive Value where
  | none
  | bool (b : Bool)
  | int (n : ℤ)
  /-- a float, by its bits -/
  | float (bits : UInt64)
  | str (s : String)
  | list (items : List Value)
  | dict (members : List (String × Value))

inductive Error where
  /-- `sys.exit` -/
  | exit (code : ℕ)
  | jsonDecodeError
  | attributeError
  | typeError
  deriving DecidableEq

/-- The text of a file: the JSON it is, or no JSON. -/
inductive Text where
  | json (value : Value)
  | malformed

/-- The files in `bench-repo`; of `README.md` the rows under "Recent Runs". -/
structure BenchRepo where
  historyJson : Option Text
  currentJson : Option Text
  readme : Option (List String)

/-- `.get(key, default)`, an attribute of a dict only. -/
def Value.get (self : Value) (key : String) (default : Value) : Except Error Value :=
  match self with
  | .dict members => .ok ((members.lookup key).getD default)
  | _ => .error .attributeError

/-- What a `for` loop over the value runs through. -/
def Value.items : Value → Except Error (List Value)
  | .list items => .ok items
  | .dict members => .ok (members.map fun member => .str member.1)
  | .str s => .ok (s.toList.map fun c => .str c.toString)
  | _ => .error .typeError

/-- `entries` as the history file gives it; a file that is no JSON is only warned about. -/
def loadEntries : Option Text → Value
  | some (.json (.dict members)) => (members.lookup "entries").getD (.list [])
  | some (.json (.list items)) => .list items
  | _ => .list []

section Main

variable (str : Value → String)

/-- `str(item.get('run_id', ''))` -/
def Value.runId (item : Value) : Except Error String := return str (← item.get "run_id" (.str ""))

/-- Add current, then previous entries not matching the current `run_id`. -/
def merge (current entries : Value) : Except Error (List Value) := do
  let currentRunId ← current.runId str
  let items ← entries.items
  items.foldlM (fun merged item => do
    let runId ← item.runId str
    return if runId ≠ currentRunId then merged ++ [item] else merged) [current]

def output (now : String) (merged : List Value) : Value :=
  .dict [("schema_version", .int 1), ("updated_at", .str now), ("entries", .list merged)]

/-- `f"- Run {run_num}: {gen_at}"` -/
def row (entry : Value) : Except Error String := do
  let runNum ← entry.get "run_number" (.str "n/a")
  let genAt ← entry.get "generated_at" (.str "n/a")
  return "- Run " ++ str runNum ++ ": " ++ str genAt

/-- The script at the time `now`, over `bundle/bench-current.json`. -/
def main (now : String) (currentFile : Option Text) (repo : BenchRepo) :
    Except Error BenchRepo := do
  let current ←
    match currentFile with
    | none => .error (.exit 1)
    | some .malformed => .error .jsonDecodeError
    | some (.json current) => .ok current
  let merged ← merge str current (loadEntries repo.historyJson)
  let merged := merged.take 10
  let rows ← merged.mapM (row str)
  return {
    historyJson := some (.json (output now merged))
    currentJson := some (.json current)
    readme := some rows }

end Main

/-! ### Runs are dicts -/

/-- A benchmark run as the job writes it. -/
abbrev Run := List (String × Value)

variable (str : Value → String)

/-- What the script takes for the `run_id`. -/
def Run.id (run : Run) : String := str ((run.lookup "run_id").getD (.str ""))

/-- A history of runs that is not cut off. -/
def untruncated (runs : List Run) : List Run := recent (Run.id str) runs

/-- The runs, merged one after another, each at its time. -/
def mergeRuns (runs : List (String × Run)) (repo : BenchRepo) : Except Error BenchRepo :=
  runs.foldlM (fun repo run => main str run.1 (some (.json (.dict run.2))) repo) repo

@[simp] lemma runId_dict (run : Run) : (Value.dict run).runId str = .ok (run.id str) := rfl

lemma row_dict (run : Run) : ∃ text, row str (.dict run) = .ok text := ⟨_, rfl⟩

lemma foldlM_others (id : String) (runs : List Run) (merged : List Value) :
    (runs.map Value.dict).foldlM (m := Except Error) (fun merged item => do
        let runId ← item.runId str
        return if runId ≠ id then merged ++ [item] else merged) merged
      = .ok (merged ++ (runs.filter fun run => run.id str ≠ id).map .dict) := by
  induction runs generalizing merged with
  | nil => simp [pure, Except.pure]
  | cons run runs ih =>
    rw [List.map_cons, List.foldlM_cons, runId_dict]
    simp only [bind, Except.bind, pure, Except.pure] at ih ⊢
    rw [ih]
    by_cases hid : run.id str = id
    · simp [hid]
    · simp [hid]

/-- One merge of the current run into a history of runs. -/
lemma merge_dict (current : Run) (entries : List Run) :
    merge str (.dict current) (.list (entries.map .dict))
      = .ok ((touch (Run.id str) entries current).map .dict) := by
  rw [merge, runId_dict]
  simp only [bind, Except.bind, Value.items]
  exact foldlM_others str (current.id str) entries [.dict current]

lemma mapM_row (runs : List Run) : ∃ rows, (runs.map Value.dict).mapM (row str) = .ok rows := by
  induction runs with
  | nil => exact ⟨[], rfl⟩
  | cons run runs ih =>
    obtain ⟨rows, hrows⟩ := ih
    obtain ⟨text, htext⟩ := row_dict str run
    exact ⟨text :: rows, by simp [htext, hrows, bind, Except.bind, pure, Except.pure]⟩

@[simp] lemma loadEntries_output (now : String) (merged : List Value) :
    loadEntries (some (.json (output now merged))) = .list merged := rfl

/-- One run of the script over a history of runs. -/
lemma main_dict {repo : BenchRepo} {entries : List Run} (now : String) (current : Run)
    (h : loadEntries repo.historyJson = .list (entries.map .dict)) :
    ∃ repo', main str now (some (.json (.dict current))) repo = .ok repo'
      ∧ repo'.historyJson = some (.json (output now
          (((touch (Run.id str) entries current).take 10).map .dict))) := by
  obtain ⟨rows, hrows⟩ := mapM_row str ((touch (Run.id str) entries current).take 10)
  rw [List.map_take] at hrows ⊢
  refine ⟨⟨_, some (.json (.dict current)), some rows⟩, ?_, rfl⟩
  simp [main, h, merge_dict, bind, Except.bind, pure, Except.pure, hrows]

/-- What a sequence of merges leaves in the history file. -/
lemma mergeRuns_ok (runs : List (String × Run)) (currentJson : Option Text)
    (readme : Option (List String)) :
    ∃ repo, mergeRuns str runs ⟨none, currentJson, readme⟩ = .ok repo
      ∧ loadEntries repo.historyJson
          = .list (((untruncated str (runs.map Prod.snd)).take 10).map .dict)
      ∧ ∀ run ∈ runs.getLast?, repo.historyJson = some (.json (output run.1
          (((untruncated str (runs.map Prod.snd)).take 10).map .dict))) := by
  induction runs using List.reverseRecOn with
  | nil => exact ⟨_, rfl, by simp [loadEntries, untruncated], by simp⟩
  | append_singleton runs run ih =>
    obtain ⟨repo, hrepo, hentries, -⟩ := ih
    obtain ⟨repo', hmain, hhistory⟩ := main_dict str run.1 run.2 hentries
    have hkept : (touch (Run.id str) ((untruncated str (runs.map Prod.snd)).take 10) run.2).take 10
        = (untruncated str ((runs ++ [run]).map Prod.snd)).take 10 := by
      rw [untruncated, take_touch_take (nodup_keys_recent _), untruncated, List.map_append,
        List.map_singleton, recent_concat]
    rw [hkept] at hhistory
    refine ⟨repo', ?_, ?_, ?_⟩
    · rw [mergeRuns, List.foldlM_append]
      rw [mergeRuns] at hrepo
      simp [hrepo, hmain, bind, Except.bind, pure, Except.pure]
    · rw [hhistory, loadEntries_output]
    · intro last hlast
      rw [List.getLast?_concat, Option.mem_some_iff] at hlast
      rw [← hlast, hhistory]

/-- After every merge the history is the first ten of the distinct runs, the most recently merged
first, each as it was merged last: what a history that is never cut off holds among its first
ten. -/
theorem history_after_merges (earlier : List (String × Run)) (now : String) (current : Run)
    (currentJson : Option Text) (readme : Option (List String)) :
    ∃ repo entries,
      mergeRuns str (earlier ++ [(now, current)]) ⟨none, currentJson, readme⟩ = .ok repo
      ∧ repo.historyJson = some (.json (output now (entries.map .dict)))
      ∧ entries.map (Run.id str)
          = (((earlier.map Prod.snd ++ [current]).map (Run.id str)).dedup.reverse).take 10
      ∧ (∀ entry ∈ entries,
          latest (Run.id str) (earlier.map Prod.snd ++ [current]) (entry.id str) = some entry)
      ∧ (entries.map (Run.id str)).Nodup
      ∧ entries.head? = some current
      ∧ entries = (untruncated str (earlier.map Prod.snd ++ [current])).take 10 := by
  obtain ⟨repo, hrepo, -, hhistory⟩ :=
    mergeRuns_ok str (earlier ++ [(now, current)]) currentJson readme
  have hfile := hhistory (now, current) (by simp)
  rw [List.map_append, List.map_singleton] at hfile
  refine ⟨repo, _, hrepo, hfile, ?_, ?_, ?_, ?_, rfl⟩
  · rw [List.map_take, untruncated, map_key_recent]
  · intro entry hentry
    exact latest_of_mem_recent _ entry (List.mem_of_mem_take hentry)
  · rw [List.map_take]
    exact (nodup_keys_recent _).sublist (List.take_sublist _ _)
  · rw [untruncated, recent_concat]
    rfl

end EventSourcing.BenchHistory
