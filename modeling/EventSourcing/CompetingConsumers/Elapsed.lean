import EventSourcing.CompetingConsumers.DateTime

/-!
# The time of an instant

The nanoseconds from the start of year `0000` to an instant, by the calendar. The order of the
instants is the order of these times.
-/

namespace EventSourcing

/-- The days of the first months of a year. -/
def daysInMonths (year : ℕ) : ℕ → ℕ
  | 0 => 0
  | month + 1 => daysInMonths year month + daysInMonth year (month + 1)

/-- The days of the first years. -/
def daysInYears : ℕ → ℕ
  | 0 => 0
  | year + 1 => daysInYears year + daysInMonths year 12

namespace DateTime

/-- The days before the day of an instant. -/
def dayNumber (t : DateTime) : ℕ :=
  daysInYears t.year + (daysInMonths t.year (t.month - 1) + (t.day - 1))

/-- The nanoseconds from the start of year `0000`. -/
def elapsed (t : DateTime) : ℕ :=
  (((t.dayNumber * 24 + t.hour) * 60 + t.minute) * 60 + t.second) * 1000000000 + t.nano

end DateTime

lemma daysInMonths_le (year : ℕ) {m m' : ℕ} (h : m < m') :
    daysInMonths year m + daysInMonth year (m + 1) ≤ daysInMonths year m' := by
  induction m' with
  | zero => omega
  | succ m' ih =>
    rw [daysInMonths]
    rcases Nat.eq_or_lt_of_le (Nat.lt_succ_iff.mp h) with rfl | hlt
    · exact le_refl _
    · exact (ih hlt).trans (Nat.le_add_right _ _)

lemma daysInYears_le {y y' : ℕ} (h : y < y') :
    daysInYears y + daysInMonths y 12 ≤ daysInYears y' := by
  induction y' with
  | zero => omega
  | succ y' ih =>
    rw [daysInYears]
    rcases Nat.eq_or_lt_of_le (Nat.lt_succ_iff.mp h) with rfl | hlt
    · exact le_refl _
    · exact (ih hlt).trans (Nat.le_add_right _ _)

/-- Numbers of two digits, the lower one below `w`. -/
lemma radix_lt {a b x y w : ℕ} (hx : x < w) (h : a < b ∨ a = b ∧ x < y) :
    a * w + x < b * w + y := by
  rcases h with h | ⟨rfl, h⟩
  · calc a * w + x < (a + 1) * w := by rw [Nat.succ_mul]; omega
      _ ≤ b * w := Nat.mul_le_mul_right w h
      _ ≤ b * w + y := Nat.le_add_right _ _
  · omega

/-- The lower digit is taken into the number that is compared first. -/
lemma radix_lt_or {a b x y w : ℕ} {R : Prop} (hx : x < w)
    (h : a < b ∨ a = b ∧ (x < y ∨ x = y ∧ R)) :
    a * w + x < b * w + y ∨ a * w + x = b * w + y ∧ R := by
  rcases h with h | ⟨rfl, h | ⟨rfl, h⟩⟩
  · exact .inl (radix_lt hx (.inl h))
  · exact .inl (radix_lt hx (.inr ⟨rfl, h⟩))
  · exact .inr ⟨rfl, h⟩

namespace DateTime

variable {t t' : DateTime}

/-- A day lies within its month. -/
lemma days_lt (t : DateTime) (m : ℕ) (h : t.month - 1 < m) :
    daysInMonths t.year (t.month - 1) + (t.day - 1) < daysInMonths t.year m := by
  obtain ⟨-, hmonth, -, hday, hdays⟩ := t.date
  have hle := daysInMonths_le t.year h
  rw [Nat.sub_add_cancel hmonth] at hle
  omega

lemma dayNumber_lt (h : t.year < t'.year ∨ t.year = t'.year ∧
    (t.month < t'.month ∨ t.month = t'.month ∧ t.day < t'.day)) : t.dayNumber < t'.dayNumber := by
  obtain ⟨-, hmonth, hmonth', hday, -⟩ := t.date
  simp only [dayNumber]
  rcases h with h | ⟨hyear, h⟩
  · have hyears := daysInYears_le h
    have hdays := t.days_lt 12 (by omega)
    omega
  · rw [← hyear]
    rcases h with h | ⟨heq, h⟩
    · have hdays := t.days_lt (t'.month - 1) (by omega)
      omega
    · rw [← heq]
      omega

lemma elapsed_strictMono : StrictMono elapsed := by
  intro t t' h
  rw [lt_iff_key] at h
  simp only [key, List.cons_lt_cons_iff, List.not_lt_nil, and_false, or_false] at h
  obtain ⟨hhour, hminute, hsecond, hnano⟩ := t.time
  have hday : t.dayNumber < t'.dayNumber ∨ t.dayNumber = t'.dayNumber ∧ (t.hour < t'.hour ∨
      t.hour = t'.hour ∧ (t.minute < t'.minute ∨ t.minute = t'.minute ∧
        (t.second < t'.second ∨ t.second = t'.second ∧ t.nano < t'.nano))) := by
    rcases h with h | ⟨hyear, h | ⟨hmonth, h | ⟨hday, h⟩⟩⟩
    · exact .inl (dayNumber_lt (.inl h))
    · exact .inl (dayNumber_lt (.inr ⟨hyear, .inl h⟩))
    · exact .inl (dayNumber_lt (.inr ⟨hyear, .inr ⟨hmonth, h⟩⟩))
    · exact .inr ⟨by rw [dayNumber, dayNumber, hyear, hmonth, hday], h⟩
  exact radix_lt hnano (radix_lt_or hsecond (radix_lt_or hminute (radix_lt_or hhour hday)))

lemma elapsed_lt_iff : t.elapsed < t'.elapsed ↔ t < t' := elapsed_strictMono.lt_iff_lt

end DateTime

end EventSourcing
