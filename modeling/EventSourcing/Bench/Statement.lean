import Mathlib.Tactic.Common

/-!
# Statements of the benchmark clients

`PostgresClient` and `MongoClient` commit every statement on its own. A statement may be
rejected without an effect, or take effect and lose its acknowledgement; the client then
returns an error in either case.
-/

namespace EventSourcing.Bench

/-- What becomes of a statement that breaks no constraint. -/
inductive Outcome where
  | done
  | rejected
  | unacknowledged
  deriving DecidableEq, Repr

/-- Runs a statement that leads to `after`, or that breaks a constraint: whether the client is
told that it has succeeded, and the state it leaves. -/
def Outcome.run {S : Type} (outcome : Outcome) (after : Option S) (before : S) : Bool × S :=
  match outcome, after with
  | .done, some after => (true, after)
  | .unacknowledged, some after => (false, after)
  | _, _ => (false, before)

/-- Whether the statement has an effect, whatever the client is told. -/
def Outcome.takesEffect {S : Type} (outcome : Outcome) (after : Option S) : Bool :=
  decide (outcome ≠ .rejected) && after.isSome

variable {S : Type} {outcome : Outcome} {after : Option S} {before s : S}

lemma Outcome.run_eq_true :
    outcome.run after before = (true, s) ↔ outcome = .done ∧ after = some s := by
  cases outcome <;> cases after <;> simp [Outcome.run]

/-- The client is told of a failure whether the statement took effect or not. -/
lemma Outcome.run_eq_false :
    outcome.run after before = (false, s) ↔ (outcome = .unacknowledged ∧ after = some s) ∨
      ((outcome = .rejected ∨ after = none) ∧ before = s) := by
  cases outcome <;> cases after <;> simp [Outcome.run]

/-- A statement leads to `after` exactly if it takes effect, and fails if it does not. -/
lemma Outcome.run_cases {ok : Bool} (h : outcome.run after before = (ok, s)) :
    (outcome.takesEffect after = true ∧ after = some s) ∨
      (outcome.takesEffect after = false ∧ ok = false ∧ before = s) := by
  cases after with
  | none =>
    cases outcome <;> simp_all [Outcome.run, Outcome.takesEffect]
  | some after =>
    cases outcome <;> simp_all [Outcome.run, Outcome.takesEffect]

/-- Why a call gives no value. -/
inductive Failure where
  | panicked (message : String)
  /-- it returns an error -/
  | failed (message : String)
  deriving DecidableEq, Repr

/-- `collect` into a `Result`: all the values, or the first failure. -/
def collect {α : Type} : List (Option α) → Option (List α)
  | [] => some []
  | none :: _ => none
  | some a :: rest => (collect rest).map (a :: ·)

lemma collect_eq_some {α : Type} {l : List (Option α)} {as : List α} :
    collect l = some as ↔ l = as.map some := by
  induction l generalizing as with
  | nil => cases as <;> simp [collect]
  | cons a l ih =>
    cases a with
    | none => cases as <;> simp [collect]
    | some a =>
      cases as with
      | nil => simp [collect]
      | cons b bs =>
        simp only [collect, Option.map_eq_some_iff, ih, List.map_cons, List.cons.injEq,
          Option.some.injEq]
        constructor
        · rintro ⟨cs, hl, rfl, rfl⟩
          exact ⟨rfl, hl⟩
        · rintro ⟨rfl, hl⟩
          exact ⟨bs, hl, rfl, rfl⟩

end EventSourcing.Bench
