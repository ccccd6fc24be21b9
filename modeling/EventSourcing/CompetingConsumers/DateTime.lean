import EventSourcing.Text.Digits
import Mathlib.Order.Monotone.Basic

/-!
# Instants and their RFC 3339 texts

The leases store instants as the texts `to_rfc3339` prints and compare them as texts. RFC 3339
has four digits for the year, so the instants are those of the years `0000` to `9999`. Within
them the order of the texts is the order of time (`toRfc3339_lt_iff`).
-/

namespace EventSourcing

open Text

/-- The days of a month of the proleptic Gregorian calendar. -/
def daysInMonth (year month : ℕ) : ℕ :=
  if month = 2 then if year % 4 = 0 ∧ (year % 100 ≠ 0 ∨ year % 400 = 0) then 29 else 28
  else if month ∈ [4, 6, 9, 11] then 30
  else 31

lemma daysInMonth_le (year month : ℕ) : daysInMonth year month ≤ 31 := by
  simp only [daysInMonth]
  split_ifs <;> omega

/-- A UTC instant with nanosecond resolution. -/
structure DateTime where
  year : ℕ
  month : ℕ
  day : ℕ
  hour : ℕ
  minute : ℕ
  second : ℕ
  nano : ℕ
  date : year < 10000 ∧ 1 ≤ month ∧ month ≤ 12 ∧ 1 ≤ day ∧ day ≤ daysInMonth year month
  time : hour < 24 ∧ minute < 60 ∧ second < 60 ∧ nano < 1000000000
  deriving DecidableEq

namespace DateTime

/-- The start of Unix time. -/
def epoch : DateTime where
  year := 1970
  month := 1
  day := 1
  hour := 0
  minute := 0
  second := 0
  nano := 0
  date := by decide
  time := by decide

/-- The fields, from the one that weighs most in the order. -/
def key (t : DateTime) : List ℕ := [t.year, t.month, t.day, t.hour, t.minute, t.second, t.nano]

lemma key_injective : Function.Injective key := by
  rintro ⟨⟩ ⟨⟩ h
  simpa [key] using h

instance : LinearOrder DateTime := LinearOrder.lift' key key_injective

lemma lt_iff_key {t t' : DateTime} : t < t' ↔ t.key < t'.key := Iff.rfl

/-- The fraction of a second: none, or 3, 6 or 9 digits, the shortest that is exact. -/
def fraction (nano : ℕ) : List Char :=
  if nano = 0 then []
  else if nano % 1000000 = 0 then '.' :: digits 3 (nano / 1000000)
  else if nano % 1000 = 0 then '.' :: digits 6 (nano / 1000)
  else '.' :: digits 9 nano

/-- The offset of UTC. -/
def offset : List Char := ['+', '0', '0', ':', '0', '0']

/-- `to_rfc3339` of a UTC instant. -/
def toRfc3339 (t : DateTime) : String :=
  String.ofList (digits 4 t.year ++ '-' :: (digits 2 t.month ++ '-' :: (digits 2 t.day ++ 'T' ::
    (digits 2 t.hour ++ ':' :: (digits 2 t.minute ++ ':' :: (digits 2 t.second ++
      (fraction t.nano ++ offset)))))))

/-- A fraction is that of its significant digits. -/
lemma fraction_cases {nano : ℕ} (h : nano < 10 ^ 9) : nano = 0 ∧ fraction nano = [] ∨
    ∃ p n r, p + r = 9 ∧ n * 10 ^ r = nano ∧ n < 10 ^ p ∧ 0 < n ∧
      fraction nano = '.' :: digits p n := by
  simp only [fraction]
  split_ifs with h0 h6 h3
  · exact .inl ⟨h0, rfl⟩
  · exact .inr ⟨3, nano / 1000000, 6, rfl, by omega, by omega, by omega, rfl⟩
  · exact .inr ⟨6, nano / 1000, 3, rfl, by omega, by omega, by omega, rfl⟩
  · exact .inr ⟨9, nano, 0, rfl, by omega, h, by omega, rfl⟩

/-- Fractions ascend as texts, though their lengths differ. -/
lemma fraction_lt {n m : ℕ} (hm : m < 10 ^ 9) (h : n < m) :
    fraction n ++ offset < fraction m ++ offset := by
  rcases fraction_cases (h.trans hm) with ⟨-, hn⟩ | ⟨p, a, r, hp, rfl, -, -, hn⟩
  · rcases fraction_cases hm with ⟨hm0, -⟩ | ⟨q, b, s, -, -, -, -, hm'⟩
    · omega
    · rw [hn, hm']
      exact List.cons_lt_cons_iff.mpr (.inl (by decide))
  · rcases fraction_cases hm with ⟨hm0, -⟩ | ⟨q, b, s, hq, rfl, hb, -, hm'⟩
    · omega
    · rw [hn, hm']
      refine cons_lt '.' (decimals_lt (by decide) hb ?_)
      -- both sides times the place values of the digits that are left out
      refine Nat.lt_of_mul_lt_mul_right (a := 10 ^ r * 10 ^ s) ?_
      calc a * 10 ^ q * (10 ^ r * 10 ^ s) = a * 10 ^ r * 10 ^ (q + s) := by ring
        _ < b * 10 ^ s * 10 ^ (q + s) := by
          exact Nat.mul_lt_mul_of_pos_right h (Nat.pow_pos (by decide))
        _ = b * 10 ^ s * 10 ^ (p + r) := by rw [hp, hq]
        _ = b * 10 ^ p * (10 ^ r * 10 ^ s) := by ring

/-- The texts ascend with the instants. -/
theorem toRfc3339_strictMono : StrictMono toRfc3339 := by
  intro t t' h
  rw [lt_iff_key] at h
  simp only [key, List.cons_lt_cons_iff, List.not_lt_nil, and_false, or_false] at h
  obtain ⟨hyear, -, hmonth, -, hday⟩ := t'.date
  have hdays := daysInMonth_le t'.year t'.month
  obtain ⟨hhour, hminute, hsecond, hnano⟩ := t'.time
  rw [String.lt_iff_toList_lt, toRfc3339, toRfc3339, String.toList_ofList, String.toList_ofList]
  refine field_lt (by omega) (h.imp_right fun ⟨heq, h⟩ => ⟨heq, cons_lt _ ?_⟩)
  refine field_lt (by omega) (h.imp_right fun ⟨heq, h⟩ => ⟨heq, cons_lt _ ?_⟩)
  refine field_lt (by omega) (h.imp_right fun ⟨heq, h⟩ => ⟨heq, cons_lt _ ?_⟩)
  refine field_lt (by omega) (h.imp_right fun ⟨heq, h⟩ => ⟨heq, cons_lt _ ?_⟩)
  refine field_lt (by omega) (h.imp_right fun ⟨heq, h⟩ => ⟨heq, cons_lt _ ?_⟩)
  refine field_lt (by omega) (h.imp_right fun ⟨heq, h⟩ => ⟨heq, ?_⟩)
  exact fraction_lt (by omega) h

/-- The texts are ordered as the instants. -/
theorem toRfc3339_lt_iff {t t' : DateTime} : t.toRfc3339 < t'.toRfc3339 ↔ t < t' :=
  toRfc3339_strictMono.lt_iff_lt

end DateTime

end EventSourcing
