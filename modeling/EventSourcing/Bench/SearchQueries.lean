import EventSourcing.Bench.SearchIndex
import EventSourcing.CompetingConsumers.Elapsed
import EventSourcing.Text.Like

/-!
# The queries of the search bench

What `query_exact`, `query_prefix` and `query_range` count in the index of events. The prefix goes
into the pattern as it is, so `%`, `_` and the backslash in it are no characters of the product.
-/

namespace EventSourcing.Bench

open Text

/-- `query_exact` -/
def queryExact (index : List SearchRow) (orderId : String) : ℕ :=
  index.countP fun row => row.orderId = orderId

/-- `query_prefix`; an error where the pattern is none. -/
def queryPrefix (index : List SearchRow) (start : String) : Option ℕ :=
  (likeItems (start ++ "%").toList).map fun items =>
    index.countP fun row => likeMatches items row.productId.toList

/-- `query_range` at an instant of the server. -/
def queryRange (now : DateTime) (index : List SearchRow) (lastSecs : Int) : ℕ :=
  index.countP fun row => (now.elapsed : Int) - lastSecs * 1000000000 ≤ row.eventTs.elapsed

/-- The answers that `run_queries_named` waits for and drops. -/
structure Answers where
  byOrderId : List ℕ
  byProductId : List ℕ
  lastHour : List ℕ

/-- `run_queries_named`, without the queries for terms, where `now` are the server's instants. -/
def runQueries (now : ℕ → DateTime) (index : List SearchRow) : Option Answers :=
  let reps := List.range 200
  let byOrderId := reps.map fun i => queryExact index ("ORD-" ++ toString (i % 100))
  let lastHour := reps.map fun i => queryRange (now i) index 3600
  (reps.mapM fun i => queryPrefix index ("PROD-" ++ toString (i % 10))).map fun byProductId =>
    { byOrderId := byOrderId, byProductId := byProductId, lastHour := lastHour }

def orderNumber (event : Events.BenchmarkEvent) : ℕ := event.seq.toNat % 10000

def productNumber (event : Events.BenchmarkEvent) : ℕ := event.seq.toNat % 1000

/-- The text of a product begins with `start`. -/
def ProductStarts (start : String) (event : Events.BenchmarkEvent) : Prop :=
  start.toList <+: ("PROD-" ++ toString (productNumber event)).toList

instance (start : String) (event : Events.BenchmarkEvent) : Decidable (ProductStarts start event) :=
  inferInstanceAs (Decidable (_ <+: _))

variable {streamId : String} {events : List (Int × Events.BenchmarkEvent)} {start : String}
  {now : ℕ → DateTime}

/-! ### Counts -/

lemma countP_rowsOf (p : SearchRow → Bool) :
    (rowsOf streamId events).countP p = events.countP fun e => p (searchRow streamId e.1 e.2) := by
  rw [rowsOf, List.countP_map]
  rfl

lemma searchRow_orderId (gpos : Int) (event : Events.BenchmarkEvent) :
    (searchRow streamId gpos event).orderId = "ORD-" ++ toString (orderNumber event) := rfl

lemma searchRow_productId (gpos : Int) (event : Events.BenchmarkEvent) :
    (searchRow streamId gpos event).productId = "PROD-" ++ toString (productNumber event) := rfl

/-- The order is found by its number. -/
lemma queryExact_rowsOf (k : ℕ) : queryExact (rowsOf streamId events) ("ORD-" ++ toString k)
    = events.countP fun e => orderNumber e.2 = k := by
  rw [queryExact, countP_rowsOf]
  refine List.countP_congr fun e _ => ?_
  rw [decide_eq_true_iff, decide_eq_true_iff, searchRow_orderId, String.append_right_inj]
  exact Nat.repr_inj

lemma queryPrefix_isSome (index : List SearchRow) (start : String) :
    ∃ items, likeItems (start.toList ++ ['%']) = some items ∧
      queryPrefix index start
        = some (index.countP fun row => likeMatches items row.productId.toList) := by
  obtain ⟨items, hitems⟩ := Option.isSome_iff_exists.mp (likeItems_isSome start.toList)
  refine ⟨items, hitems, ?_⟩
  rw [queryPrefix, String.toList_append]
  exact congrArg (Option.map _) hitems

/-- Characters that stand for themselves find the products that begin with them. -/
lemma queryPrefix_rowsOf (h : ∀ c ∈ start.toList, Literal c) :
    queryPrefix (rowsOf streamId events) start
      = some (events.countP fun e => ProductStarts start e.2) := by
  obtain ⟨items, hitems, hquery⟩ := queryPrefix_isSome (rowsOf streamId events) start
  rw [hquery, countP_rowsOf]
  refine congrArg some (List.countP_congr fun e _ => ?_)
  rw [decide_eq_true_iff, searchRow_productId]
  exact likeMatches_literal h hitems

/-- Without a backslash no product is missed that begins with the prefix. -/
lemma queryPrefix_ge (h : '\\' ∉ start.toList) :
    ∃ n, queryPrefix (rowsOf streamId events) start = some n ∧
      events.countP (fun e => ProductStarts start e.2) ≤ n := by
  obtain ⟨items, hitems, hquery⟩ := queryPrefix_isSome (rowsOf streamId events) start
  refine ⟨_, hquery, ?_⟩
  rw [countP_rowsOf]
  refine List.countP_mono_left fun e _ hstarts => ?_
  exact likeMatches_self h hitems (of_decide_eq_true hstarts)

/-! ### The runs of queries -/

lemma countP_eq_sum {B : Type*} (p : B → Bool) (m : List B) :
    m.countP p = (m.map fun b => if p b = true then 1 else 0).sum := by
  induction m with
  | nil => rfl
  | cons b m ih => simp [List.countP_cons, ih, Nat.add_comm]

/-- Every pair is counted once, by either side. -/
lemma sum_countP_comm {A B : Type*} (p : A → B → Bool) (l : List A) (m : List B) :
    (l.map fun a => m.countP (p a)).sum = (m.map fun b => l.countP (p · b)).sum := by
  induction l with
  | nil => simp
  | cons a l ih =>
    simp only [List.map_cons, List.sum_cons, List.countP_cons, List.sum_map_add, ih,
      countP_eq_sum (p a)]
    exact Nat.add_comm _ _

/-- Of the numbers below `a * m`, those that leave `g`. -/
lemma countP_mod {g m : ℕ} (hg : g < m) (a : ℕ) :
    (List.range (a * m)).countP (fun i => i % m = g) = a := by
  have hm : 0 < m := Nat.zero_lt_of_lt hg
  have hcount := Nat.count_modEq_card (b := a * m) hm g
  rw [Nat.mul_div_cancel a hm, Nat.mul_mod_left, if_neg (Nat.not_lt_zero _), Nat.add_zero] at hcount
  refine Eq.trans (List.countP_congr fun i _ => ?_) hcount
  rw [decide_eq_true_iff, decide_eq_true_iff]
  show i % m = g ↔ i % m = g % m
  rw [Nat.mod_eq_of_lt hg]

/-- Numbers that go round below `m` reach what is below `m`, as often as they go round. -/
lemma sum_countP_mod {A : Type*} (f : A → ℕ) (l : List A) (a : ℕ) {m : ℕ} (hm : 0 < m) :
    ((List.range (a * m)).map fun i => l.countP fun x => f x = i % m).sum
      = a * l.countP fun x => f x < m := by
  rw [sum_countP_comm fun i x => decide (f x = i % m)]
  induction l with
  | nil => simp
  | cons x l ih =>
    rw [List.map_cons, List.sum_cons, ih, List.countP_cons]
    by_cases hx : f x < m
    · have hcount := countP_mod hx a
      simp only [eq_comm (b := f x)] at hcount
      simp [hcount, hx, Nat.mul_add, Nat.add_comm]
    · have hnone : (List.range (a * m)).countP (fun i => f x = i % m) = 0 := by
        rw [List.countP_eq_zero]
        intro i _ heq
        exact hx (of_decide_eq_true heq ▸ Nat.mod_lt i hm)
      simp [hnone, hx]

/-! ### First digits -/

lemma exists_firstDigit (n : ℕ) : ∃ d < 10, (Nat.toDigits 10 n).head? = some d.digitChar := by
  induction n using Nat.strongRecOn with
  | ind n ih =>
    rcases Nat.lt_or_ge n 10 with hlt | hge
    · exact ⟨n, hlt, by rw [Nat.toDigits_of_lt_base hlt]; rfl⟩
    · obtain ⟨d, hd, hhead⟩ := ih (n / 10) (by omega)
      refine ⟨d, hd, ?_⟩
      rw [Nat.toDigits_of_base_le (by omega) hge, List.head?_append, hhead]
      rfl

/-- The first digit of a number. -/
def firstDigit (n : ℕ) : ℕ := ((Nat.toDigits 10 n).headD '0').toNat - 48

lemma firstDigit_eq {n d : ℕ} (hd : d < 10)
    (hhead : (Nat.toDigits 10 n).head? = some d.digitChar) : firstDigit n = d := by
  have hall : ∀ d < 10, d.digitChar.toNat - 48 = d := by decide
  rw [firstDigit, List.headD_eq_head?_getD, hhead]
  exact hall d hd

lemma firstDigit_lt (n : ℕ) : firstDigit n < 10 := by
  obtain ⟨d, hd, hhead⟩ := exists_firstDigit n
  rwa [firstDigit_eq hd hhead]

/-- A prefix of one digit. -/
lemma repr_prefix_iff {d : ℕ} (hd : d < 10) (n : ℕ) :
    d.repr.toList <+: n.repr.toList ↔ firstDigit n = d := by
  rw [Nat.toList_repr, Nat.toList_repr, Nat.toDigits_of_lt_base hd]
  constructor
  · rintro ⟨rest, hrest⟩
    exact firstDigit_eq hd (by rw [← hrest]; rfl)
  · rintro rfl
    obtain ⟨d, hd', hhead⟩ := exists_firstDigit n
    rw [firstDigit_eq hd' hhead]
    obtain ⟨rest, hrest⟩ := List.head?_eq_some_iff.mp hhead
    exact ⟨rest, hrest.symm⟩

lemma productStarts_iff {d : ℕ} (hd : d < 10) (event : Events.BenchmarkEvent) :
    ProductStarts ("PROD-" ++ toString d) event ↔ firstDigit (productNumber event) = d := by
  rw [ProductStarts, String.toList_append, String.toList_append, List.prefix_append_right_inj]
  exact repr_prefix_iff hd _

lemma literal_product (d : ℕ) : ∀ c ∈ ("PROD-" ++ toString d).toList, Literal c := by
  intro c hc
  rw [String.toList_append, List.mem_append] at hc
  rcases hc with hc | hc
  · have hall : ∀ c ∈ ['P', 'R', 'O', 'D', '-'], Literal c := by simp [Literal]
    exact hall c (by simpa using hc)
  · have hdigit : c.isDigit = true :=
      Nat.isDigit_of_mem_toDigits (by omega) (by omega) (Nat.toList_repr (n := d) ▸ hc)
    refine ⟨?_, ?_, ?_⟩ <;> rintro rfl <;> exact absurd hdigit (by decide)

/-! ### The answers -/

/-- What the queries find in an index that stands for events. -/
structure Finds (events : List (Int × Events.BenchmarkEvent)) (now : ℕ → DateTime)
    (index : List SearchRow) : Prop where
  byOrder : ∀ k : ℕ, queryExact index ("ORD-" ++ toString k)
    = events.countP fun e => orderNumber e.2 = k
  literal : ∀ start, (∀ c ∈ start.toList, Literal c) →
    queryPrefix index start = some (events.countP fun e => ProductStarts start e.2)
  unescaped : ∀ start, '\\' ∉ start.toList →
    ∃ n, queryPrefix index start = some n ∧ events.countP (fun e => ProductStarts start e.2) ≤ n
  runs : ∃ answers, runQueries now index = some answers ∧
    answers.byOrderId.sum = 2 * events.countP (fun e => orderNumber e.2 < 100) ∧
    answers.byProductId.sum = 20 * events.length

lemma byProductId_rowsOf (reps : List ℕ) :
    (reps.mapM fun i => queryPrefix (rowsOf streamId events) ("PROD-" ++ toString (i % 10)))
      = some (reps.map fun i => events.countP fun e =>
          firstDigit (productNumber e.2) = i % 10) := by
  induction reps with
  | nil => rfl
  | cons i reps ih =>
    have hcount : events.countP (fun e => ProductStarts ("PROD-" ++ toString (i % 10)) e.2)
        = events.countP fun e => firstDigit (productNumber e.2) = i % 10 := by
      refine List.countP_congr fun e _ => ?_
      rw [decide_eq_true_iff, decide_eq_true_iff]
      exact productStarts_iff (Nat.mod_lt i (by omega)) e.2
    rw [List.mapM_cons, queryPrefix_rowsOf (literal_product _), ih, hcount]
    rfl

lemma runQueries_rowsOf : runQueries now (rowsOf streamId events) = some
    { byOrderId := (List.range (2 * 100)).map fun i =>
        events.countP fun e => orderNumber e.2 = i % 100
      byProductId := (List.range (20 * 10)).map fun i =>
        events.countP fun e => firstDigit (productNumber e.2) = i % 10
      lastHour := (List.range 200).map fun i =>
        queryRange (now i) (rowsOf streamId events) 3600 } := by
  simp only [runQueries, byProductId_rowsOf, queryExact_rowsOf, Option.map_some, Nat.reduceMul]

/-- The queries find what the rows have been made of. The runner asks for every product in one of
ten queries, and for one order in a hundred. -/
lemma finds_rowsOf (streamId : String) (events : List (Int × Events.BenchmarkEvent))
    (now : ℕ → DateTime) : Finds events now (rowsOf streamId events) where
  byOrder k := queryExact_rowsOf k
  literal start h := queryPrefix_rowsOf h
  unescaped start h := queryPrefix_ge h
  runs := by
    have horders := sum_countP_mod (fun e => orderNumber e.2) events 2 (m := 100) (by omega)
    have hproducts := sum_countP_mod (fun e => firstDigit (productNumber e.2)) events 20 (m := 10)
      (by omega)
    have hall : events.countP (fun e => firstDigit (productNumber e.2) < 10) = events.length :=
      List.countP_eq_length.mpr fun e _ => decide_eq_true (firstDigit_lt _)
    rw [hall] at hproducts
    exact ⟨_, runQueries_rowsOf, horders, hproducts⟩

end EventSourcing.Bench
