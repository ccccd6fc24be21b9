import EventSourcing.Concurrency.Restart
import EventSourcing.Postgres.Database
import EventSourcing.Text.Json
import Mathlib.Logic.Function.Basic

/-!
# Setting up the tables

`PgEventStore::bootstrap`, statement by statement, on a catalog in which other schemas may hold
anything. Unqualified names stand for objects of the current schema, but the test before
`CREATE TRIGGER` looks for the name of the trigger in all schemas: where any table has a trigger
of that name, the events table of the current schema gets none. The trigger is one for each row,
so it does not fire on `TRUNCATE`.
-/

namespace EventSourcing.Postgres

open Concurrency

/-! ### The catalog -/

inductive TriggerOp where
  | insert
  | update
  | delete
  | truncate
  deriving DecidableEq

/-- What a trigger function does with the statement that fires it. -/
inductive Body where
  /-- `RAISE EXCEPTION` -/
  | raise
  /-- `RETURN NULL` -/
  | skip
  /-- the statement goes on -/
  | proceed
  deriving DecidableEq

/-- A name and the schema it belongs to. -/
abbrev QualifiedName := String × String

/-- A row of `pg_trigger`. -/
structure Trigger where
  name : String
  table : QualifiedName
  before : Bool
  ops : List TriggerOp
  forEachRow : Bool
  function : QualifiedName
  enabled : Bool
  deriving DecidableEq

structure Catalog where
  /-- the tables and indexes of all schemas -/
  relations : List QualifiedName
  functions : QualifiedName → Option Body
  /-- the triggers of all schemas -/
  triggers : List Trigger

namespace Catalog

/-- `CREATE TABLE IF NOT EXISTS`, `CREATE INDEX IF NOT EXISTS` -/
def createRelation (name : QualifiedName) (catalog : Catalog) : Catalog :=
  if name ∈ catalog.relations then catalog
  else { catalog with relations := catalog.relations ++ [name] }

/-- `CREATE OR REPLACE FUNCTION` -/
def replaceFunction (name : QualifiedName) (body : Body) (catalog : Catalog) : Catalog :=
  { catalog with functions := Function.update catalog.functions name (some body) }

/-- `EXISTS (SELECT 1 FROM pg_trigger WHERE tgname = …)` -/
def HasTrigger (catalog : Catalog) (name : String) : Prop := ∃ t ∈ catalog.triggers, t.name = name

instance (catalog : Catalog) (name : String) : Decidable (catalog.HasTrigger name) :=
  inferInstanceAs (Decidable (∃ t ∈ catalog.triggers, _))

/-- `IF NOT EXISTS (…) THEN CREATE TRIGGER …` -/
def createTrigger (trigger : Trigger) (catalog : Catalog) : Catalog :=
  if catalog.HasTrigger trigger.name then catalog
  else { catalog with triggers := catalog.triggers ++ [trigger] }

end Catalog

/-! ### The bootstrap -/

/-- The statements of `bootstrap`, in order. -/
inductive BootstrapPoint where
  | events
  | eventsStream
  | eventsGlobal
  | immutabilityGuard
  | immutabilityTrigger
  | notifyInsert
  | notifyTrigger
  | streamVersions
  | checkpoints
  | outbox
  | outboxPending
  deriving DecidableEq

section Bootstrap

-- the current schema
variable (schema : String)

def eventsTable : QualifiedName := (schema, "events")

def eventsImmutabilityGuard : QualifiedName := (schema, "events_immutability_guard")

def eventsNotifyInsert : QualifiedName := (schema, "events_notify_insert")

/-- `BEFORE UPDATE OR DELETE ON events FOR EACH ROW` -/
def trgEventsImmutability : Trigger where
  name := "trg_events_immutability"
  table := eventsTable schema
  before := true
  ops := [.update, .delete]
  forEachRow := true
  function := eventsImmutabilityGuard schema
  enabled := true

/-- `AFTER INSERT ON events FOR EACH ROW` -/
def trgEventsNotify : Trigger where
  name := "trg_events_notify"
  table := eventsTable schema
  before := false
  ops := [.insert]
  forEachRow := true
  function := eventsNotifyInsert schema
  enabled := true

/-- `PgEventStore::bootstrap` -/
def bootstrap : Procedure Catalog BootstrapPoint where
  start := .events
  step
    | .events, catalog => (catalog.createRelation (eventsTable schema), some .eventsStream)
    | .eventsStream, catalog =>
      (catalog.createRelation (schema, "idx_events_stream"), some .eventsGlobal)
    | .eventsGlobal, catalog =>
      (catalog.createRelation (schema, "idx_events_global"), some .immutabilityGuard)
    | .immutabilityGuard, catalog =>
      (catalog.replaceFunction (eventsImmutabilityGuard schema) .raise, some .immutabilityTrigger)
    | .immutabilityTrigger, catalog =>
      (catalog.createTrigger (trgEventsImmutability schema), some .notifyInsert)
    | .notifyInsert, catalog =>
      (catalog.replaceFunction (eventsNotifyInsert schema) .proceed, some .notifyTrigger)
    | .notifyTrigger, catalog =>
      (catalog.createTrigger (trgEventsNotify schema), some .streamVersions)
    | .streamVersions, catalog =>
      (catalog.createRelation (schema, "stream_versions"), some .checkpoints)
    | .checkpoints, catalog => (catalog.createRelation (schema, "checkpoints"), some .outbox)
    | .outbox, catalog =>
      (catalog.createRelation (schema, "integration_outbox"), some .outboxPending)
    | .outboxPending, catalog => (catalog.createRelation (schema, "idx_outbox_pending"), none)

end Bootstrap

/-! ### Statements on the events table -/

abbrev EventRow := EventEnvelope Text.Json

inductive Dml where
  | insert (rows : List EventRow)
  | update (matching : EventRow → Bool) (f : EventRow → EventRow)
  | delete (matching : EventRow → Bool)
  | truncate

def Dml.op : Dml → TriggerOp
  | .insert _ => .insert
  | .update _ _ => .update
  | .delete _ => .delete
  | .truncate => .truncate

/-- The trigger fires on an operation on the events table and keeps the rows from it. A trigger
for each row does not fire on `TRUNCATE`, and a null of a function counts for a single row
only. -/
def Trigger.stops (functions : QualifiedName → Option Body) (schema : String) (op : TriggerOp)
    (t : Trigger) : Bool :=
  t.table = eventsTable schema && t.enabled && op ∈ t.ops && (op ≠ .truncate || !t.forEachRow) &&
    match functions t.function with
    | some .raise => true
    | some .skip => t.before && t.forEachRow
    | _ => false

def Catalog.stops (catalog : Catalog) (schema : String) (op : TriggerOp) : Bool :=
  catalog.triggers.any (Trigger.stops catalog.functions schema op)

/-- What a statement that no trigger stops makes of the rows. -/
def Dml.effect (rows : List EventRow) : Dml → List EventRow
  | .insert new => rows ++ new
  | .update matching f => rows.map fun row => if matching row then f row else row
  | .delete matching => rows.filter fun row => !matching row
  | .truncate => []

def Dml.exec (catalog : Catalog) (schema : String) (rows : List EventRow) (s : Dml) :
    List EventRow :=
  if catalog.stops schema s.op then rows else s.effect rows

/-- The rows after a sequence of statements. -/
def execAll (catalog : Catalog) (schema : String) (statements : List Dml) (rows : List EventRow) :
    List EventRow :=
  statements.foldl (Dml.exec catalog schema) rows

/-! ### Bootstraps of any schemas -/

/-- A process that bootstraps: its current schema, and a number. -/
abbrev Process := String × ℕ

/-- The catalog under bootstraps, each process with its own. -/
structure Setup where
  catalog : Catalog
  runs : Process → Procedure.Status BootstrapPoint
  /-- history: the catalog that the first `CREATE TRIGGER trg_events_immutability` of a schema has
  found -/
  found : String → Option Catalog
  /-- history: the schemas in which a bootstrap has returned `Ok` -/
  returned : String → Bool

namespace Setup

/-- A database that nothing has bootstrapped yet. -/
def initial (catalog : Catalog) : Setup where
  catalog := catalog
  runs _ := .idle
  found _ := none
  returned _ := false

/-- A process starts, goes on or is stopped. -/
def next (σ : Setup) (a : Process × Procedure.Label) : Option Setup :=
  ((bootstrap a.1.1).next (σ.catalog, σ.runs a.1) a.2).map fun (catalog, status) =>
    { catalog := catalog
      runs := Function.update σ.runs a.1 status
      found :=
        if σ.runs a.1 = .running .immutabilityTrigger ∧ a.2 ≠ .stop then
          Function.update σ.found a.1.1 (some ((σ.found a.1.1).getD σ.catalog))
        else σ.found
      returned :=
        if status = .succeeded then Function.update σ.returned a.1.1 true else σ.returned }

end Setup

/-- Bootstraps of any schemas of one database, whatever the catalog holds at first. -/
def setups : System Setup (Process × Procedure.Label) where
  init σ := ∃ catalog, σ = .initial catalog
  next := Setup.next

/-- The operation is stopped in the end, by what the first `CREATE TRIGGER` of the schema has
found: no trigger `trg_events_immutability` on any table, or triggers of the events table that
stop it with what their functions are now. -/
def Guarded (schema : String) (found : Catalog) (functions : QualifiedName → Option Body)
    (op : TriggerOp) : Prop :=
  (op ≠ .truncate ∧ ¬ found.HasTrigger "trg_events_immutability") ∨
    ∃ t ∈ found.triggers, t.stops functions schema op

section

variable {schema : String} {catalog : Catalog} {op : TriggerOp} {σ σ' : Setup}

/-! ### What a statement does -/

lemma createTrigger_cases (t : Trigger) (catalog : Catalog) :
    (catalog.HasTrigger t.name ∧ catalog.createTrigger t = catalog) ∨
      (¬ catalog.HasTrigger t.name ∧
        catalog.createTrigger t = { catalog with triggers := catalog.triggers ++ [t] }) := by
  rw [Catalog.createTrigger]
  split_ifs with hnamed
  · exact .inl ⟨hnamed, rfl⟩
  · exact .inr ⟨hnamed, rfl⟩

@[simp] lemma triggers_createRelation (name : QualifiedName) (catalog : Catalog) :
    (catalog.createRelation name).triggers = catalog.triggers := by
  rw [Catalog.createRelation]
  split_ifs <;> rfl

@[simp] lemma functions_createRelation (name : QualifiedName) (catalog : Catalog) :
    (catalog.createRelation name).functions = catalog.functions := by
  rw [Catalog.createRelation]
  split_ifs <;> rfl

@[simp] lemma functions_createTrigger (t : Trigger) (catalog : Catalog) :
    (catalog.createTrigger t).functions = catalog.functions := by
  rw [Catalog.createTrigger]
  split_ifs <;> rfl

/-- The triggers after a statement: those there were, or one more whose name was free. -/
lemma triggers_step (schema : String) (point : BootstrapPoint) (catalog : Catalog) :
    ((bootstrap schema).step point catalog).1.triggers = catalog.triggers ∨
      ∃ t, ((bootstrap schema).step point catalog).1.triggers = catalog.triggers ++ [t] ∧
        ¬ catalog.HasTrigger t.name ∧
        (point = .immutabilityTrigger ∧ t = trgEventsImmutability schema ∨
          point = .notifyTrigger ∧ t = trgEventsNotify schema) := by
  cases point with
  | immutabilityTrigger =>
    rcases createTrigger_cases (trgEventsImmutability schema) catalog with
      ⟨-, hsame⟩ | ⟨hfree, hnew⟩
    · exact .inl (congrArg Catalog.triggers hsame)
    · exact .inr ⟨_, congrArg Catalog.triggers hnew, hfree, .inl ⟨rfl, rfl⟩⟩
  | notifyTrigger =>
    rcases createTrigger_cases (trgEventsNotify schema) catalog with ⟨-, hsame⟩ | ⟨hfree, hnew⟩
    · exact .inl (congrArg Catalog.triggers hsame)
    · exact .inr ⟨_, congrArg Catalog.triggers hnew, hfree, .inr ⟨rfl, rfl⟩⟩
  | immutabilityGuard | notifyInsert => exact .inl rfl
  | _ => exact .inl (triggers_createRelation _ _)

lemma subset_step (schema : String) (point : BootstrapPoint) (catalog : Catalog) :
    catalog.triggers ⊆ ((bootstrap schema).step point catalog).1.triggers := by
  rcases triggers_step schema point catalog with hsame | ⟨t, hnew, -⟩
  · rw [hsame]
    exact List.Subset.refl _
  · rw [hnew]
    exact List.subset_append_left _ _

lemma guard_ne_notify {schema' : String} :
    eventsImmutabilityGuard schema ≠ eventsNotifyInsert schema' := by
  simp [eventsImmutabilityGuard, eventsNotifyInsert]

/-- The function of the guard raises once a bootstrap of the schema has replaced it. -/
lemma raises_step {schema' : String} (point : BootstrapPoint)
    (h : catalog.functions (eventsImmutabilityGuard schema) = some .raise ∨
      schema' = schema ∧ point = .immutabilityGuard) :
    ((bootstrap schema').step point catalog).1.functions (eventsImmutabilityGuard schema)
      = some .raise := by
  cases point with
  | immutabilityGuard =>
    rcases eq_or_ne (eventsImmutabilityGuard schema) (eventsImmutabilityGuard schema') with
      hsame | hother
    · simp [bootstrap, Catalog.replaceFunction, hsame]
    · have hraises := h.resolve_right fun hschema => hother (by rw [hschema.1])
      simpa [bootstrap, Catalog.replaceFunction, hother] using hraises
  | notifyInsert =>
    have hraises := h.resolve_right (by simp)
    simpa [bootstrap, Catalog.replaceFunction, guard_ne_notify] using hraises
  | _ =>
    have hraises := h.resolve_right (by simp)
    simpa [bootstrap] using hraises

/-! ### What a bootstrap leaves -/

/-- The run is past the replacement of the guard's function. -/
def PastGuard : Procedure.Status BootstrapPoint → Prop
  | .running .events | .running .eventsStream | .running .eventsGlobal
  | .running .immutabilityGuard => False
  | .running _ | .succeeded => True
  | .idle | .stopped => False

/-- The run is past `CREATE TRIGGER trg_events_immutability`. -/
def PastTrigger : Procedure.Status BootstrapPoint → Prop
  | .running .immutabilityTrigger => False
  | status => PastGuard status

/-- A run comes to its next statement by the one before. -/
lemma pastGuard_proceed {point : BootstrapPoint}
    (h : PastGuard (Procedure.proceed ((bootstrap schema).step point catalog).2)) :
    PastGuard (.running point) ∨ point = .immutabilityGuard := by
  cases point with
  | events | eventsStream | eventsGlobal => exact h.elim
  | immutabilityGuard => exact .inr rfl
  | _ => exact .inl trivial

lemma pastTrigger_proceed {point : BootstrapPoint}
    (h : PastTrigger (Procedure.proceed ((bootstrap schema).step point catalog).2)) :
    PastTrigger (.running point) ∨ point = .immutabilityTrigger := by
  cases point with
  | events | eventsStream | eventsGlobal | immutabilityGuard => exact h.elim
  | immutabilityTrigger => exact .inr rfl
  | _ => exact .inl trivial

/-- What has become of the catalog that the first `CREATE TRIGGER` of a schema has found. -/
structure Since (schema : String) (found catalog : Catalog) : Prop where
  kept : found.triggers ⊆ catalog.triggers
  /-- the triggers of the events table that were not there -/
  new : ∀ t ∈ catalog.triggers, t.table = eventsTable schema → t ∈ found.triggers ∨
    (t = trgEventsImmutability schema ∧ ¬ found.HasTrigger "trg_events_immutability") ∨
    t = trgEventsNotify schema
  guard : ¬ found.HasTrigger "trg_events_immutability" →
    trgEventsImmutability schema ∈ catalog.triggers
  raises : catalog.functions (eventsImmutabilityGuard schema) = some .raise

/-- What had a trigger of a name has it still. -/
lemma Since.hasTrigger {found : Catalog} (h : found.triggers ⊆ catalog.triggers) {name : String}
    (hnamed : found.HasTrigger name) : catalog.HasTrigger name := by
  obtain ⟨t, ht, hname⟩ := hnamed
  exact ⟨t, h ht, hname⟩

lemma Since.step {found : Catalog} (h : Since schema found catalog) (schema' : String)
    (point : BootstrapPoint) :
    Since schema found ((bootstrap schema').step point catalog).1 where
  kept := fun _ ht => subset_step schema' point catalog (h.kept ht)
  new := by
    intro t ht htable
    rcases triggers_step schema' point catalog with hsame | ⟨t', hnew, hfree, hpoint⟩
    · exact h.new t (hsame ▸ ht) htable
    · rw [hnew, List.mem_append, List.mem_singleton] at ht
      rcases ht with ht | rfl
      · exact h.new t ht htable
      · -- a trigger of another schema is on another table
        rcases hpoint with ⟨-, rfl⟩ | ⟨-, rfl⟩
        · obtain rfl : schema' = schema := congrArg Prod.fst htable
          exact .inr (.inl ⟨rfl, fun hnamed => hfree (Since.hasTrigger h.kept hnamed)⟩)
        · obtain rfl : schema' = schema := congrArg Prod.fst htable
          exact .inr (.inr rfl)
  guard hnone := subset_step schema' point catalog (h.guard hnone)
  raises := raises_step point (.inl h.raises)

/-- The first `CREATE TRIGGER` of a schema creates the guard unless its name is taken. -/
lemma since_createTrigger
    (hraises : catalog.functions (eventsImmutabilityGuard schema) = some .raise) :
    Since schema catalog ((bootstrap schema).step .immutabilityTrigger catalog).1 where
  kept := subset_step schema .immutabilityTrigger catalog
  new := by
    intro t ht _
    rcases triggers_step schema .immutabilityTrigger catalog with hsame | ⟨t', hnew, hfree, hpoint⟩
    · exact .inl (hsame ▸ ht)
    · rw [hnew, List.mem_append, List.mem_singleton] at ht
      rcases ht with ht | rfl
      · exact .inl ht
      · rcases hpoint with ⟨-, rfl⟩ | ⟨hpoint, -⟩
        · exact .inr (.inl ⟨rfl, hfree⟩)
        · cases hpoint
  guard hnone := by
    rcases createTrigger_cases (trgEventsImmutability schema) catalog with ⟨hnamed, -⟩ | ⟨-, hnew⟩
    · exact absurd hnamed hnone
    · show _ ∈ (catalog.createTrigger (trgEventsImmutability schema)).triggers
      rw [hnew]
      exact List.mem_append_right _ (List.mem_singleton_self _)
  raises := raises_step .immutabilityTrigger (.inl hraises)

structure Setup.Inv (σ : Setup) : Prop where
  raises : ∀ p, PastGuard (σ.runs p) →
    σ.catalog.functions (eventsImmutabilityGuard p.1) = some .raise
  since : ∀ schema, ∀ found ∈ σ.found schema, Since schema found σ.catalog
  arrived : ∀ p, PastTrigger (σ.runs p) → (σ.found p.1).isSome
  returned : ∀ schema, σ.returned schema = true → (σ.found schema).isSome

lemma inv_initial (catalog : Catalog) : (Setup.initial catalog).Inv where
  raises _ hpast := hpast.elim
  since _ _ hfound := by cases hfound
  arrived _ hpast := hpast.elim
  returned _ hreturned := by cases hreturned

/-- A process that starts or is stopped leaves the catalog alone. -/
lemma Setup.Inv.idle (h : σ.Inv) {p : Process} {status : Procedure.Status BootstrapPoint}
    (hstatus : status = .running .events ∨ status = .stopped) :
    Setup.Inv { σ with runs := Function.update σ.runs p status } where
  raises q hpast := by
    rcases eq_or_ne q p with rfl | hne
    · rcases hstatus with rfl | rfl <;> simp [PastGuard] at hpast
    · exact h.raises q (by simpa [hne] using hpast)
  since := h.since
  arrived q hpast := by
    rcases eq_or_ne q p with rfl | hne
    · rcases hstatus with rfl | rfl <;> simp [PastTrigger, PastGuard] at hpast
    · exact h.arrived q (by simpa [hne] using hpast)
  returned := h.returned

/-- What the first `CREATE TRIGGER` of a schema finds stays on record. -/
lemma isSome_update {found : String → Option Catalog} {schema' : String}
    (h : (found schema).isSome) :
    (Function.update found schema' (some catalog) schema).isSome := by
  rcases eq_or_ne schema schema' with rfl | hne
  · simp
  · simpa [hne] using h

/-- A statement is carried out, and the run goes on or is stopped. -/
lemma Setup.Inv.step (h : σ.Inv) {p : Process} {point : BootstrapPoint}
    {status : Procedure.Status BootstrapPoint} (returned : String → Bool)
    (hrun : σ.runs p = .running point)
    (hstatus : status = Procedure.proceed ((bootstrap p.1).step point σ.catalog).2 ∨
      status = .stopped)
    (hreturned : ∀ schema, returned schema = true →
      σ.returned schema = true ∨ schema = p.1 ∧ status = .succeeded) :
    Setup.Inv {
      catalog := ((bootstrap p.1).step point σ.catalog).1
      runs := Function.update σ.runs p status
      found :=
        if point = .immutabilityTrigger then
          Function.update σ.found p.1 (some ((σ.found p.1).getD σ.catalog))
        else σ.found
      returned := returned } := by
  have harrived : PastTrigger status → PastTrigger (.running point) ∨
      point = .immutabilityTrigger := by
    intro hpast
    rcases hstatus with rfl | rfl
    · exact pastTrigger_proceed hpast
    · exact hpast.elim
  have hfound : ∀ schema, (σ.found schema).isSome ∨
      schema = p.1 ∧ point = .immutabilityTrigger →
      ((if point = .immutabilityTrigger then
          Function.update σ.found p.1 (some ((σ.found p.1).getD σ.catalog))
        else σ.found) schema).isSome := by
    rintro schema (hsome | ⟨rfl, rfl⟩)
    · split_ifs
      · exact isSome_update hsome
      · exact hsome
    · simp
  have hpast : PastTrigger status → (σ.found p.1).isSome ∨
      p.1 = p.1 ∧ point = .immutabilityTrigger := by
    intro hpast
    rcases harrived hpast with hbefore | htrigger
    · exact .inl (h.arrived p (hrun ▸ hbefore))
    · exact .inr ⟨rfl, htrigger⟩
  constructor
  · intro q hq
    refine raises_step point ?_
    rcases eq_or_ne q p with rfl | hne
    · have hq : PastGuard status := by simpa using hq
      rcases hstatus with rfl | rfl
      · rcases pastGuard_proceed hq with hbefore | hguard
        · exact .inl (h.raises q (hrun ▸ hbefore))
        · exact .inr ⟨rfl, hguard⟩
      · exact hq.elim
    · exact .inl (h.raises q (by simpa [hne] using hq))
  · intro schema found hmem
    dsimp only at hmem
    split_ifs at hmem with htrigger
    · subst htrigger
      rcases eq_or_ne schema p.1 with rfl | hne
      · rw [Function.update_self] at hmem
        obtain rfl := Option.some.inj hmem
        cases hknown : σ.found p.1 with
        | none => exact since_createTrigger (h.raises p (by simp [hrun, PastGuard]))
        | some found => exact (h.since p.1 found hknown).step p.1 .immutabilityTrigger
      · rw [Function.update_of_ne hne] at hmem
        exact (h.since schema found hmem).step p.1 .immutabilityTrigger
    · exact (h.since schema found hmem).step p.1 point
  · intro q hq
    rcases eq_or_ne q p with rfl | hne
    · exact hfound q.1 (hpast (by simpa using hq))
    · exact hfound q.1 (.inl (h.arrived q (by simpa [hne] using hq)))
  · intro schema hschema
    rcases hreturned schema hschema with hbefore | ⟨rfl, rfl⟩
    · exact hfound schema (.inl (h.returned schema hbefore))
    · exact hfound p.1 (hpast trivial)

lemma Setup.Inv.next (h : σ.Inv) {a : Process × Procedure.Label} (hs : σ.next a = some σ') :
    σ'.Inv := by
  obtain ⟨p, label⟩ := a
  obtain ⟨⟨catalog, status⟩, hnext, rfl⟩ := Option.map_eq_some_iff.mp hs
  rcases Procedure.next_cases hnext with
    ⟨rfl, ⟨hidle, rfl⟩ | ⟨rfl, rfl⟩⟩ | ⟨point, hrun, hlabel, rfl, hstatus⟩
  · simpa [hidle, bootstrap] using h.idle (p := p) (.inl rfl)
  · simpa using h.idle (p := p) (.inr rfl)
  · have hstep := h.step
      (if status = .succeeded then Function.update σ.returned p.1 true else σ.returned)
      hrun hstatus ?_
    · simpa [hrun, hlabel] using hstep
    · intro schema hreturned
      split_ifs at hreturned with hsucceeded
      · rcases eq_or_ne schema p.1 with hsame | hne
        · exact .inr ⟨hsame, hsucceeded⟩
        · exact .inl (by simpa [hne] using hreturned)
      · exact .inl hreturned

lemma Setup.inv_of_reachable (h : setups.Reachable σ) : σ.Inv := by
  refine h.invariant ?_ fun _ _ _ _ hinv _ hs => hinv.next hs
  rintro _ ⟨catalog, rfl⟩
  exact inv_initial catalog

/-- Which operations are stopped since the first `CREATE TRIGGER` of the schema. -/
lemma Since.stops_iff {found : Catalog} (h : Since schema found catalog) (hop : op ≠ .insert) :
    catalog.stops schema op ↔ Guarded schema found catalog.functions op := by
  rw [Catalog.stops, List.any_eq_true, Guarded]
  constructor
  · rintro ⟨t, ht, hstops⟩
    have htable : t.table = eventsTable schema := by
      simp only [Trigger.stops, Bool.and_eq_true, decide_eq_true_eq] at hstops
      exact hstops.1.1.1.1
    rcases h.new t ht htable with hold | ⟨rfl, hnone⟩ | rfl
    · exact .inr ⟨t, hold, hstops⟩
    · refine .inl ⟨?_, hnone⟩
      rintro rfl
      simp [Trigger.stops, trgEventsImmutability] at hstops
    · simp [Trigger.stops, trgEventsNotify, hop] at hstops
  · rintro (⟨htruncate, hnone⟩ | ⟨t, ht, hstops⟩)
    · refine ⟨trgEventsImmutability schema, h.guard hnone, ?_⟩
      have hmem : op ∈ (trgEventsImmutability schema).ops := by
        cases op with
        | insert => exact absurd rfl hop
        | truncate => exact absurd rfl htruncate
        | update => simp [trgEventsImmutability]
        | delete => simp [trgEventsImmutability]
      simp only [Trigger.stops, hmem]
      simp [trgEventsImmutability, h.raises, htruncate]
    · exact ⟨t, h.kept ht, hstops⟩

/-! ### Every sequence of statements -/

/-- A statement that is stopped or inserts keeps the rows. -/
lemma subset_exec (rows : List EventRow) (s : Dml)
    (h : s.op ≠ .insert → catalog.stops schema s.op) :
    rows ⊆ s.exec catalog schema rows := by
  rw [Dml.exec]
  split_ifs with hstops
  · exact List.Subset.refl rows
  · cases s with
    | insert new => exact List.subset_append_left rows new
    | update matching f => exact absurd (h (by simp [Dml.op])) hstops
    | delete matching => exact absurd (h (by simp [Dml.op])) hstops
    | truncate => exact absurd (h (by simp [Dml.op])) hstops

lemma subset_execAll (statements : List Dml) (rows : List EventRow)
    (h : ∀ s ∈ statements, s.op ≠ .insert → catalog.stops schema s.op) :
    rows ⊆ execAll catalog schema statements rows := by
  induction statements generalizing rows with
  | nil => exact List.Subset.refl rows
  | cons s statements ih =>
    rw [List.forall_mem_cons] at h
    exact List.Subset.trans (subset_exec rows s h.1) (ih _ h.2)

/-- An event under a given id. -/
def eventRow (eventId : String) : EventRow where
  eventId := eventId
  streamId := "order-1"
  streamVersion := 0
  globalPosition := 1
  eventType := "OrderPlaced"
  schemaVersion := 1
  payload := .object []
  occurredAt := "2024-02-29T12:00:00+00:00"

/-- An operation that is not stopped can take a row away. -/
lemma exists_loses (hop : op ≠ .insert) (h : ¬ catalog.stops schema op) :
    ∃ s : Dml, s.op = op ∧ ¬ [eventRow "e0"] ⊆ s.exec catalog schema [eventRow "e0"] := by
  cases op with
  | insert => exact absurd rfl hop
  | update =>
    refine ⟨.update (fun _ => true) (fun _ => eventRow "e1"), rfl, ?_⟩
    simp [Dml.exec, Dml.op, h, Dml.effect, eventRow]
  | delete =>
    refine ⟨.delete fun _ => true, rfl, ?_⟩
    simp [Dml.exec, Dml.op, h, Dml.effect]
  | truncate =>
    refine ⟨.truncate, rfl, ?_⟩
    simp [Dml.exec, Dml.op, h, Dml.effect]

/-- For every catalog and every history of bootstraps of any schemas on it, stopped anywhere: once
one has returned in a schema, no sequence of statements of the allowed kinds loses or changes a row
of its events table exactly when each of update, delete and truncate that is allowed is guarded:
update and delete where the first `CREATE TRIGGER` of the schema has found no trigger
`trg_events_immutability` on any table of the database, and what triggers stop that the events
table had then. -/
theorem append_only_guard (schema : String) (h : setups.Reachable σ)
    (hreturned : σ.returned schema = true) (allowed : TriggerOp → Prop) :
    ∃ found, σ.found schema = some found ∧
      ((∀ (rows : List EventRow) (statements : List Dml), (∀ s ∈ statements, allowed s.op) →
          rows ⊆ execAll σ.catalog schema statements rows) ↔
        ∀ op, op ≠ .insert → allowed op → Guarded schema found σ.catalog.functions op) := by
  have hinv := Setup.inv_of_reachable h
  obtain ⟨found, hfound⟩ := Option.isSome_iff_exists.mp (hinv.returned schema hreturned)
  have hsince := hinv.since schema found hfound
  refine ⟨found, hfound, ?_, ?_⟩
  · intro hkept op hop hallowed
    rw [← hsince.stops_iff hop]
    by_contra hnot
    obtain ⟨s, rfl, hloses⟩ := exists_loses hop hnot
    exact hloses (hkept [eventRow "e0"] [s] (by simpa using hallowed))
  · intro hguarded rows statements hallowed
    refine subset_execAll statements rows fun s hs hop => ?_
    exact (hsince.stops_iff hop).mpr (hguarded s.op hop (hallowed s hs))

end

/-! ### Two schemas -/

/-- A database nothing has been created in. -/
def Catalog.empty : Catalog where
  relations := []
  functions _ := none
  triggers := []

/-- The first `n` statements of a bootstrap. -/
def statementsOf (schema : String) (n : ℕ) : List (Process × Procedure.Label) :=
  ((schema, 0), .start) :: List.replicate n ((schema, 0), .step)

/-- The bootstrap of `tenant_b` is stopped behind its `CREATE TRIGGER`, and runs again after the
one of `tenant_a`. -/
def guardedRun : List (Process × Procedure.Label) :=
  statementsOf "tenant_b" 5 ++ [(("tenant_b", 0), .stop)] ++ statementsOf "tenant_a" 11 ++
    statementsOf "tenant_b" 11

/-- The bootstrap of `tenant_b` is stopped before its `CREATE TRIGGER`. -/
def unguardedRun : List (Process × Procedure.Label) :=
  statementsOf "tenant_b" 4 ++ [(("tenant_b", 0), .stop)] ++ statementsOf "tenant_a" 11 ++
    statementsOf "tenant_b" 11

def afterSetups (run : List (Process × Procedure.Label)) : Setup :=
  setups.after run (.initial .empty)

/-- The schema whose `CREATE TRIGGER` came first is guarded. -/
theorem append_only_guard_first :
    [eventRow "e0"] ⊆ execAll (afterSetups guardedRun).catalog "tenant_b"
      [.delete fun _ => true, .update (fun _ => true) fun _ => eventRow "e1"] [eventRow "e0"] := by
  obtain ⟨found, hfound, hkept⟩ := append_only_guard "tenant_b"
    (System.reachable_after guardedRun (s := .initial .empty) ⟨.empty, rfl⟩ (by decide +kernel))
    (by decide +kernel) (· ≠ .truncate)
  refine hkept.mpr (fun op _ hop => ?_) _ _ (by simp [Dml.op])
  have hnone : ∀ found ∈ (afterSetups guardedRun).found "tenant_b",
      ¬ found.HasTrigger "trg_events_immutability" := by decide +kernel
  exact .inl ⟨hop, hnone found hfound⟩

/-- The event store of one schema takes the guard of the next one away, though the bootstrap of
that had begun before, and a `TRUNCATE` is never stopped. -/
theorem append_only_guard_fails :
    let σ := afterSetups unguardedRun
    setups.Reachable σ ∧ σ.returned "tenant_a" = true ∧ σ.returned "tenant_b" = true ∧
      execAll σ.catalog "tenant_b" [.insert [eventRow "e0"], .delete fun _ => true] [] = [] ∧
      execAll σ.catalog "tenant_b"
        [.insert [eventRow "e0"], .update (fun _ => true) fun _ => eventRow "e1"] []
          = [eventRow "e1"] ∧
      execAll σ.catalog "tenant_a" [.insert [eventRow "e0"], .truncate] [] = [] := by
  refine ⟨System.reachable_after unguardedRun ⟨.empty, rfl⟩ (by decide +kernel), ?_, ?_, ?_, ?_, ?_⟩
  · rfl
  · rfl
  · rfl
  · rfl
  · rfl

end EventSourcing.Postgres
