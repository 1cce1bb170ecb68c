import Isojson.Datetime

/-!
# `datetime64` values: the exact meaning of `dt64_to_parts`

`civilFromDays` is compared with the calendar of `Library/Calendar.lean`, which counts days by
summing year and month lengths.  The argument has three steps: the year of the 400-year era
(`era_split`), where the four divisions are bounded against each other century by century; the
month (`month_split`), twelve linear cases; and the closed form of the year sum, which adds the
eras back.  `dt64ToParts_exact` then reads every unit of the source against its exact integer
meaning.
-/

namespace Isojson

open Calendar

/-! ## The year of an era

An era is 400 years from a first of March, `146097` days.  In century `c` the correction terms
`doe / 1460` and `doe / 36524` are off by at most one from the leap days passed, which is what
the two inequalities on `t` say. -/

/-- The year-of-era formula inside one century. -/
lemma century_split {c r : ℤ} (hc : 0 ≤ c ∧ c ≤ 3) (hr : 0 ≤ r ∧ r < 36524) :
    let y := (r - (24 * c + r) / 1460) / 365
    0 ≤ y ∧ y ≤ 99 ∧ 0 ≤ r - 365 * y - y / 4 ∧ r - 365 * y - y / 4 ≤ 365 ∧
      (r - 365 * y - y / 4 = 365 → y % 4 = 3 ∧ y ≠ 99) := by
  intro y
  set t := (24 * c + r) / 1460 with ht
  have hy : y = (r - t) / 365 := rfl
  have ht0 : 0 ≤ t ∧ t ≤ 25 := by omega
  have hlow : y / 4 ≤ t := by
    by_contra h
    have : 1460 * (t + 1) ≤ 1460 * (y / 4) := by omega
    omega
  have hhigh : t ≤ y / 4 + 1 := by omega
  refine ⟨by omega, by omega, by omega, by omega, fun h => ?_⟩
  have ht1 : t = y / 4 + 1 := by omega
  have hmod : y % 4 = 3 := by omega
  exact ⟨hmod, by omega⟩

/-- **The year of an era.**  The formula gives a year below 400 and a day of that year, counted
from the first of March; the 366th day exists only when the next February has 29 days. -/
lemma era_split {doe : ℤ} (h : 0 ≤ doe ∧ doe ≤ 146096) :
    let yoe := (doe - doe / 1460 + doe / 36524 - doe / 146096) / 365
    let doy := doe - (365 * yoe + yoe / 4 - yoe / 100)
    0 ≤ yoe ∧ yoe ≤ 399 ∧ 0 ≤ doy ∧ doy ≤ 365 ∧
      (doy = 365 → (yoe + 1) % 4 = 0 ∧ ((yoe + 1) % 100 ≠ 0 ∨ (yoe + 1) % 400 = 0)) := by
  rcases eq_or_lt_of_le h.2 with rfl | hlt
  · -- the last day of the era is the 29th of February of its last year
    decide
  · obtain ⟨c, r, rfl, hc, hr⟩ : ∃ c r : ℤ, doe = 36524 * c + r ∧ (0 ≤ c ∧ c ≤ 3) ∧
        (0 ≤ r ∧ r < 36524) :=
      ⟨doe / 36524, doe % 36524, by omega, by omega, by omega⟩
    obtain ⟨hy0, hy1, hd0, hd1, hlast⟩ := century_split hc hr
    have hcent : (36524 * c + r - (36524 * c + r) / 1460 + (36524 * c + r) / 36524 -
        (36524 * c + r) / 146096) / 365 = 100 * c + (r - (24 * c + r) / 1460) / 365 := by
      have h1 : (36524 * c + r) / 1460 = 25 * c + (24 * c + r) / 1460 := by omega
      have h2 : (36524 * c + r) / 36524 = c := by omega
      have h3 : (36524 * c + r) / 146096 = 0 := by omega
      rw [h1, h2, h3]
      omega
    rw [hcent]
    generalize (r - (24 * c + r) / 1460) / 365 = y at *
    intro yoe doy
    have hdoy : doy = r - 365 * y - y / 4 := by
      have h4 : (100 * c + y) / 4 = 25 * c + y / 4 := by omega
      have h100 : (100 * c + y) / 100 = c := by omega
      have : doy = 36524 * c + r - (365 * (100 * c + y) + (100 * c + y) / 4 -
          (100 * c + y) / 100) := rfl
      omega
    have hyoe : yoe = 100 * c + y := rfl
    clear_value yoe doy
    refine ⟨by omega, by omega, by omega, by omega, fun h365 => ?_⟩
    have := hlast (by omega)
    omega

/-! ## The month

Months are counted from March, so the leap day is the last day of the last month. -/

/-- **The month of a March-based day of the year**, in the calendar year `y` it falls in, with
the days of `y` before it: March to December start 59 or 60 days into `y`, January and February
end the era year 306 days after its first of March. -/
lemma month_split {doy : ℤ} (h : 0 ≤ doy ∧ doy ≤ 365) (y : ℕ) (hleap : IsLeap y ∨ doy ≤ 364) :
    let mp := (5 * doy + 2) / 153
    let d := doy - (153 * mp + 2) / 5 + 1
    let mo := if mp < 10 then mp + 3 else mp - 9
    ValidDate y mo.toNat d.toNat ∧ 1 ≤ mo ∧ mo ≤ 12 ∧ 1 ≤ d ∧ d ≤ 31 ∧
      (daysBeforeMonth y mo.toNat : ℤ) + d =
        doy + 1 + (if mo ≤ 2 then -306 else 59 + (if IsLeap y then 1 else 0)) := by
  intro mp d mo
  have hmp : mp = (5 * doy + 2) / 153 := rfl
  have hd : d = doy - (153 * mp + 2) / 5 + 1 := rfl
  have hmo : mo = if mp < 10 then mp + 3 else mp - 9 := rfl
  clear_value mp d mo
  have hmp0 : 0 ≤ mp := by omega
  have hmp1 : mp ≤ 11 := by omega
  by_cases hly : IsLeap y <;>
    simp only [hly, true_or, false_or] at hleap <;>
    interval_cases mp <;>
    simp at hmo <;>
    subst hmo <;>
    simp [ValidDate, daysInMonth, daysBeforeMonth, List.range_succ, hly] <;>
    omega

/-! ## `civil_from_days` -/

lemma asU8_of_lt {x : ℤ} (h0 : 0 ≤ x) (h1 : x < 256) : asU8 x = x.toNat := by
  rw [asU8, Int.emod_eq_of_lt h0 h1]

lemma asU16_of_lt {x : ℤ} (h0 : 0 ≤ x) (h1 : x < 65536) : asU16 x = x.toNat := by
  rw [asU16, Int.emod_eq_of_lt h0 h1]

lemma asI32_of_lt {x : ℤ} (h0 : 0 ≤ x) (h1 : x < 2147483648) : asI32 x = x := by
  rw [asI32, Int.bmod_eq_emod_of_lt (by omega), Int.emod_eq_of_lt h0 (by omega)]

/-- The year `civil_from_days` computes lies in 0..9999 over the checked range, and it is a leap
year when the day is a 29th of February. -/
lemma civil_year {days era yoe doy mp mo Y : ℤ}
    (hlo : -719528 ≤ days) (hhi : days ≤ 2932896)
    (hdays : days + 719468 = era * 146097 + 365 * yoe + yoe / 4 - yoe / 100 + doy)
    (hyoe : 0 ≤ yoe ∧ yoe ≤ 399) (hdoy : 0 ≤ doy ∧ doy ≤ 365)
    (hlast : doy = 365 → (yoe + 1) % 4 = 0 ∧ ((yoe + 1) % 100 ≠ 0 ∨ (yoe + 1) % 400 = 0))
    (hmp : mp = (5 * doy + 2) / 153) (hmo : mo = if mp < 10 then mp + 3 else mp - 9)
    (hY : Y = yoe + era * 400 + if mo ≤ 2 then 1 else 0) :
    0 ≤ Y ∧ Y ≤ 9999 ∧ (IsLeap Y.toNat ∨ doy ≤ 364) := by
  have hmo2 : mo ≤ 2 ↔ 306 ≤ doy := by omega
  have hY' : Y = yoe + era * 400 + if 306 ≤ doy then 1 else 0 := by
    rw [hY]
    simp only [hmo2]
  have hera : -1 ≤ era ∧ era ≤ 24 := by omega
  have h0 : 0 ≤ Y := by omega
  refine ⟨h0, by omega, ?_⟩
  rcases Int.lt_or_le 364 doy with h | h
  · left
    have := hlast (by omega)
    unfold IsLeap
    omega
  · exact Or.inr h

/-- The days before the calendar year that an era year ends in. -/
lemma daysBeforeYear_era (n : ℕ) (era : ℤ) {yoe : ℤ} (hyoe : 0 ≤ yoe ∧ yoe ≤ 399)
    (hn : (n : ℤ) = yoe + era * 400 + 1) :
    (daysBeforeYear n : ℤ) = era * 146097 + 365 * yoe + yoe / 4 - yoe / 100 + 366 := by
  have h := daysBeforeYear_eq n
  have h4 : ((n : ℤ) + 3) / 4 = yoe / 4 + era * 100 + 1 := by omega
  have h100 : ((n : ℤ) + 99) / 100 = yoe / 100 + era * 4 + 1 := by omega
  have h400 : ((n : ℤ) + 399) / 400 = era + 1 := by omega
  omega

/-- **`civil_from_days` inverts the day count** on the range the caller checks first, and its
casts lose nothing there. -/
theorem civilFromDays_spec {days : ℤ} (h : minDays ≤ days ∧ days ≤ maxDays) :
    ∃ y mo d : ℕ, civilFromDays days = ((y : ℤ), mo, d) ∧ ValidDate y mo d ∧ y ≤ 9999 ∧
      daysSinceEpoch y mo d = days := by
  obtain ⟨hlo, hhi⟩ := h
  simp only [minDays, maxDays] at hlo hhi
  obtain ⟨era, hera⟩ : ∃ era, era = (days + 719468) / 146097 := ⟨_, rfl⟩
  obtain ⟨doe, hdoe⟩ : ∃ doe, doe = days + 719468 - era * 146097 := ⟨_, rfl⟩
  have hdoe0 : 0 ≤ doe ∧ doe ≤ 146096 := by omega
  obtain ⟨hyoe0, hyoe1, hdoy0, hdoy1, hlast⟩ := era_split hdoe0
  -- on non-negative operands the source's truncating division is the floor
  have htdiv : ∀ {a : ℤ} (b : ℤ), 0 ≤ a → a.tdiv b = a / b :=
    fun b ha => Int.tdiv_eq_ediv_of_nonneg ha
  have hcode : civilFromDays days = civilFromDays days := rfl
  conv_rhs at hcode => unfold civilFromDays
  simp only [← hera, ← hdoe] at hcode
  rw [htdiv 1460 hdoe0.1, htdiv 36524 hdoe0.1, htdiv 146096 hdoe0.1, htdiv 365 (by omega)] at hcode
  generalize hyoe : (doe - doe / 1460 + doe / 36524 - doe / 146096) / 365 = yoe at *
  rw [htdiv 4 hyoe0, htdiv 100 hyoe0] at hcode
  generalize hdoy : doe - (365 * yoe + yoe / 4 - yoe / 100) = doy at *
  rw [htdiv 153 (by omega), htdiv 5 (by omega)] at hcode
  obtain ⟨mp, hmp⟩ : ∃ mp, mp = (5 * doy + 2) / 153 := ⟨_, rfl⟩
  obtain ⟨d, hd⟩ : ∃ d, d = doy - (153 * mp + 2) / 5 + 1 := ⟨_, rfl⟩
  obtain ⟨mo, hmo⟩ : ∃ mo, mo = if mp < 10 then mp + 3 else mp - 9 := ⟨_, rfl⟩
  obtain ⟨Y, hY⟩ : ∃ Y, Y = yoe + era * 400 + if mo ≤ 2 then 1 else 0 := ⟨_, rfl⟩
  rw [← hmp, ← hd, ← hmo, ← hY] at hcode
  obtain ⟨hY0, hY1, hleap⟩ := civil_year hlo hhi (by omega) ⟨hyoe0, hyoe1⟩ ⟨hdoy0, hdoy1⟩ hlast
    hmp hmo hY
  have hmonth := month_split ⟨hdoy0, hdoy1⟩ Y.toNat hleap
  simp only [← hmp, ← hd, ← hmo] at hmonth
  obtain ⟨hvalid, hmo1, hmo12, hd1, hd31, hsum⟩ := hmonth
  refine ⟨Y.toNat, mo.toNat, d.toNat, ?_, hvalid, by omega, ?_⟩
  · rw [hcode, asI32_of_lt hY0 (by omega), asU8_of_lt (by omega) (by omega),
      asU8_of_lt (by omega) (by omega), Int.toNat_of_nonneg hY0]
  · have hera' : days + 719468 = era * 146097 + (365 * yoe + yoe / 4 - yoe / 100) + doy := by
      omega
    rw [daysSinceEpoch, dayNumber_epoch, dayNumber]
    rcases Int.lt_or_le 2 mo with hmar | hjan
    · have hyear := daysBeforeYear_era (Y.toNat + 1) era ⟨hyoe0, hyoe1⟩ (by omega)
      rw [daysBeforeYear, daysInYear] at hyear
      rw [if_neg (by omega)] at hsum
      by_cases hly : IsLeap Y.toNat
      · rw [if_pos hly] at hsum hyear
        omega
      · rw [if_neg hly] at hsum hyear
        omega
    · have hyear := daysBeforeYear_era Y.toNat era ⟨hyoe0, hyoe1⟩ (by omega)
      rw [if_pos hjan] at hsum
      omega

/-! ## The meaning of a value

`instant` is the unbounded-integer meaning of a value in a unit with a fixed length in
microseconds, and `monthIndex` that of the calendar units, in months since 0000-01. -/

/-- A unit's length in microseconds, as a fraction. -/
def TimeUnit.ratio : TimeUnit → Option (ℤ × ℤ)
  | .week => some (604800000000, 1)
  | .day => some (86400000000, 1)
  | .hour => some (3600000000, 1)
  | .minute => some (60000000, 1)
  | .second => some (1000000, 1)
  | .milli => some (1000, 1)
  | .micro => some (1, 1)
  | .nano => some (1, 1000)
  | .pico => some (1, 1000000)
  | .femto => some (1, 1000000000)
  | .atto => some (1, 1000000000000)
  | .year | .month | .generic => none

/-- A calendar unit's length in months. -/
def TimeUnit.months : TimeUnit → Option ℤ
  | .year => some 12
  | .month => some 1
  | _ => none

/-- `v` units as microseconds since 1970-01-01, rounded down. -/
def instant (v mult : ℤ) (ratio : ℤ × ℤ) : ℤ := v * mult * ratio.1 / ratio.2

/-- `v` calendar units as the number of the month, counted from 0000-01. -/
def monthIndex (v mult months : ℤ) : ℤ := 1970 * 12 + v * mult * months

/-- 0000-01-01T00:00:00 -/
def firstInstant : ℤ := daysSinceEpoch 0 1 1 * 86400000000

/-- 9999-12-31T23:59:59.999999 -/
def lastInstant : ℤ := daysSinceEpoch 9999 12 31 * 86400000000 + microsOfDay 23 59 59 999999

/-- A date of the years 0 to 9999 and a time of day. -/
def DateTimeParts.Valid (p : DateTimeParts) : Prop :=
  p.y ≤ 9999 ∧ ValidDate p.y p.mo p.d ∧ ValidTime p.h p.mi p.s p.us

instance (p : DateTimeParts) : Decidable p.Valid := by
  unfold DateTimeParts.Valid; infer_instance

/-- Microseconds since 1970-01-01. -/
def DateTimeParts.micros (p : DateTimeParts) : ℤ :=
  daysSinceEpoch p.y p.mo p.d * 86400000000 + microsOfDay p.h p.mi p.s p.us

lemma firstInstant_eq : firstInstant = minDays * 86400000000 := by
  rw [firstInstant, daysSinceEpoch_first, minDays]

lemma lastInstant_eq : lastInstant = maxDays * 86400000000 + 86399999999 := by
  rw [lastInstant, daysSinceEpoch_last, maxDays]
  rfl

/-- The range check on days is the range check on instants. -/
lemma days_in_range_iff (us : ℤ) :
    (minDays ≤ us / usPerDay ∧ us / usPerDay ≤ maxDays) ↔
      (firstInstant ≤ us ∧ us ≤ lastInstant) := by
  rw [firstInstant_eq, lastInstant_eq]
  simp only [minDays, maxDays, usPerDay]
  omega

lemma plain_of_mem {x : ℤ} (h : InI128 x) : plain x = some x := if_pos h

/-- **The tail of `dt64_to_parts`**, for any microsecond count the arithmetic can produce. -/
lemma partsOfMicros_spec {us : ℤ} (hus : InI128 us) :
    (firstInstant ≤ us ∧ us ≤ lastInstant →
      ∃ p, partsOfMicros us = some (.ok (some p)) ∧ p.Valid ∧ p.micros = us) ∧
    (¬ (firstInstant ≤ us ∧ us ≤ lastInstant) →
      partsOfMicros us = some (.error .unrepresentable)) := by
  have hq : plain (us / usPerDay) = some (us / usPerDay) :=
    plain_of_mem (by unfold InI128 usPerDay at *; omega)
  have hr : plain (us % usPerDay) = some (us % usPerDay) :=
    plain_of_mem (by unfold InI128 usPerDay at *; omega)
  rw [← days_in_range_iff]
  constructor
  · intro hin
    obtain ⟨y, mo, d, hc, hdate, hy, hdays⟩ := civilFromDays_spec hin
    obtain ⟨htime, hmicros⟩ := microsOfDay_split (us % usPerDay).toNat (by
      simp only [usPerDay]
      omega)
    have hcast : ∀ n : ℕ, n < 256 → asU8 (n : ℤ) = n := fun n hn =>
      asU8_of_lt (by omega) (by omega)
    obtain ⟨ht1, ht2, ht3, ht4⟩ := htime
    refine ⟨⟨y, mo, d, _, _, _, _⟩, ?_, ⟨hy, hdate, ht1, ht2, ht3, ht4⟩, ?_⟩
    · simp only [partsOfMicros, hq, hr, Option.bind_eq_bind, Option.bind_some, hin, and_self,
        not_true_eq_false, if_false, hc]
      rw [asU16_of_lt (by omega) (by omega), hcast _ (by omega), hcast _ (by omega),
        hcast _ (by omega), Int.toNat_natCast]
    · simp only [DateTimeParts.micros, hdays, hmicros]
      simp only [usPerDay]
      omega
  · intro hout
    simp only [partsOfMicros, hq, Option.bind_eq_bind, Option.bind_some, hout,
      not_false_eq_true, if_true]

/-! ## `dt64_to_parts` -/

/-- A value and a multiplier of a `datetime64`: two `i64`, the multiplier positive. -/
structure Dt64Args (v mult : ℤ) : Prop where
  value_ge : i64Min ≤ v
  value_le : v ≤ i64Max
  mult_pos : 1 ≤ mult
  mult_le : mult ≤ i64Max

/-- The product of a value and a multiplier stays below `2 ^ 126`. -/
lemma Dt64Args.product_bounds {v mult : ℤ} (h : Dt64Args v mult) :
    -85070591730234615865843651857942052864 ≤ v * mult ∧
      v * mult ≤ 85070591730234615865843651857942052864 := by
  obtain ⟨h1, h2, h3, h4⟩ := h
  simp only [i64Min, i64Max] at *
  constructor <;> nlinarith

lemma checkedMul_of_mem {a b : ℤ} (h : InI128 (a * b)) : checkedMul a b = some (a * b) :=
  if_pos h

/-- **The checked product never rejects an instant in range**: what it rejects is beyond
`2 ^ 127` microseconds. -/
lemma timesThenParts_spec (n k : ℤ) :
    (firstInstant ≤ n * k ∧ n * k ≤ lastInstant →
      ∃ p, timesThenParts n k = some (.ok (some p)) ∧ p.Valid ∧ p.micros = n * k) ∧
    (¬ (firstInstant ≤ n * k ∧ n * k ≤ lastInstant) →
      timesThenParts n k = some (.error .unrepresentable)) := by
  by_cases hin : InI128 (n * k)
  · rw [timesThenParts, checkedMul_of_mem hin]
    exact partsOfMicros_spec hin
  · rw [timesThenParts, checkedMul, if_neg hin]
    refine ⟨fun h => absurd ?_ hin, fun _ => rfl⟩
    rw [firstInstant_eq, lastInstant_eq] at h
    unfold InI128 minDays maxDays at *
    omega

/-- A unit no longer than a microsecond: the floor division is exact and stays in range. -/
lemma plainThenParts_spec {v mult : ℤ} (h : Dt64Args v mult) {den : ℤ} (hden : 1 ≤ den) :
    let us := v * mult / den
    (firstInstant ≤ us ∧ us ≤ lastInstant →
      ∃ p, (plain us >>= partsOfMicros) = some (.ok (some p)) ∧ p.Valid ∧ p.micros = us) ∧
    (¬ (firstInstant ≤ us ∧ us ≤ lastInstant) →
      (plain us >>= partsOfMicros) = some (.error .unrepresentable)) := by
  intro us
  obtain ⟨hlo, hhi⟩ := h.product_bounds
  have hmem : InI128 us := by
    have h1 : -85070591730234615865843651857942052864 ≤ v * mult / den := by
      rw [Int.le_ediv_iff_mul_le (by omega)]
      nlinarith
    have h2 : v * mult / den ≤ 85070591730234615865843651857942052864 := by
      apply Int.ediv_le_of_le_mul (by omega)
      nlinarith
    have hus : us = v * mult / den := rfl
    unfold InI128
    omega
  rw [plain_of_mem hmem]
  exact partsOfMicros_spec hmem

/-- A unit with a fixed length: the result of `dt64_to_parts` is the parts of the exact
instant, or `Unrepresentable` outside the years 0 to 9999. -/
lemma dt64ToParts_instant {v : ℤ} {u : Dt64Unit} (h : Dt64Args v u.mult) (hnat : v ≠ i64Min)
    {ratio : ℤ × ℤ} (hr : u.base.ratio = some ratio) :
    (firstInstant ≤ instant v u.mult ratio ∧ instant v u.mult ratio ≤ lastInstant →
      ∃ p, dt64ToParts v u = some (.ok (some p)) ∧ p.Valid ∧ p.micros = instant v u.mult ratio) ∧
    (¬ (firstInstant ≤ instant v u.mult ratio ∧ instant v u.mult ratio ≤ lastInstant) →
      dt64ToParts v u = some (.error .unrepresentable)) := by
  obtain ⟨base, mult⟩ := u
  replace h : Dt64Args v mult := h
  obtain ⟨hlo, hhi⟩ := h.product_bounds
  have hmul : checkedMul v mult = some (v * mult) :=
    checkedMul_of_mem (by unfold InI128; omega)
  rw [dt64ToParts, if_neg hnat, hmul]
  cases base <;> simp only [TimeUnit.ratio, Option.some.injEq, reduceCtorEq] at hr <;>
    subst hr <;> simp only [instant, Int.ediv_one, mul_one]
  case week => exact timesThenParts_spec _ _
  case day => exact timesThenParts_spec _ _
  case hour => exact timesThenParts_spec _ _
  case minute => exact timesThenParts_spec _ _
  case second => exact timesThenParts_spec _ _
  case milli => exact timesThenParts_spec _ _
  case micro => exact partsOfMicros_spec (by unfold InI128; omega)
  case nano => exact plainThenParts_spec h (by decide)
  case pico => exact plainThenParts_spec h (by decide)
  case femto => exact plainThenParts_spec h (by decide)
  case atto => exact plainThenParts_spec h (by decide)

lemma dateOnly_spec (y mo : ℤ) (hmo : 1 ≤ mo ∧ mo ≤ 12) :
    dateOnly y mo = if 0 ≤ y ∧ y ≤ 9999 then .ok (some ⟨y.toNat, mo.toNat, 1, 0, 0, 0, 0⟩)
      else .error .unrepresentable := by
  rw [dateOnly]
  split
  · next h => rw [asU16_of_lt h.1 (by omega), asU8_of_lt (by omega) (by omega)]
  · rfl

/-- The first day of a month, by its number counted from 0000-01. -/
def firstOfMonth (m : ℤ) : DateTimeParts := ⟨(m / 12).toNat, (m % 12).toNat + 1, 1, 0, 0, 0, 0⟩

lemma daysInMonth_pos (y m : ℕ) : 1 ≤ daysInMonth y m := by
  unfold daysInMonth
  split <;> (try split) <;> omega

lemma firstOfMonth_valid {m : ℤ} (h : 0 ≤ m / 12 ∧ m / 12 ≤ 9999) : (firstOfMonth m).Valid := by
  have hmidnight : ValidTime 0 0 0 0 := by decide
  refine ⟨?_, ⟨?_, ?_, le_refl 1, daysInMonth_pos _ _⟩, hmidnight⟩
  · show (m / 12).toNat ≤ 9999
    omega
  · show 1 ≤ (m % 12).toNat + 1
    omega
  · show (m % 12).toNat + 1 ≤ 12
    omega

lemma firstOfMonth_index {m : ℤ} (h : 0 ≤ m / 12) :
    ((firstOfMonth m).y : ℤ) * 12 + ((firstOfMonth m).mo - 1) = m := by
  show ((m / 12).toNat : ℤ) * 12 + (((m % 12).toNat + 1 : ℕ) - 1) = m
  omega

/-- A calendar unit: the result is the first day of the exact month, or `Unrepresentable`
outside the years 0 to 9999. -/
lemma dt64ToParts_month {v : ℤ} {u : Dt64Unit} (h : Dt64Args v u.mult) (hnat : v ≠ i64Min)
    {months : ℤ} (hm : u.base.months = some months) :
    dt64ToParts v u = some
      (if 0 ≤ monthIndex v u.mult months / 12 ∧ monthIndex v u.mult months / 12 ≤ 9999 then
        .ok (some (firstOfMonth (monthIndex v u.mult months)))
      else .error .unrepresentable) := by
  obtain ⟨base, mult⟩ := u
  replace h : Dt64Args v mult := h
  obtain ⟨hlo, hhi⟩ := h.product_bounds
  have hmul : checkedMul v mult = some (v * mult) :=
    checkedMul_of_mem (by unfold InI128; omega)
  have hplain : ∀ x : ℤ, -85070591730234615865843651857942052864 ≤ x →
      x ≤ 85070591730234615865843651857942054834 → plain x = some x :=
    fun x h1 h2 => plain_of_mem (by unfold InI128; omega)
  rw [dt64ToParts, if_neg hnat, hmul]
  simp only [monthIndex, firstOfMonth]
  cases base <;> simp only [TimeUnit.months, Option.some.injEq, reduceCtorEq] at hm <;> subst hm
  case year =>
    have hy : (1970 * 12 + v * mult * 12) / 12 = 1970 + v * mult := by omega
    have hmo : (1970 * 12 + v * mult * 12) % 12 = 0 := by omega
    simp only [hplain (1970 + v * mult) (by omega) (by omega), Option.bind_eq_bind, Option.bind_some,
      dateOnly_spec (1970 + v * mult) 1 (by decide), hy, hmo]
    rfl
  case month =>
    have hy : (1970 * 12 + v * mult * 1) / 12 = 1970 + v * mult / 12 := by omega
    have hmo : (1970 * 12 + v * mult * 1) % 12 = v * mult % 12 := by omega
    have hto : (v * mult % 12 + 1).toNat = (v * mult % 12).toNat + 1 := by omega
    simp only [hplain (v * mult / 12) (by omega) (by omega),
      hplain (1970 + v * mult / 12) (by omega) (by omega), hplain (v * mult % 12) (by omega) (by omega),
      hplain (v * mult % 12 + 1) (by omega) (by omega), Option.bind_eq_bind, Option.bind_some,
      dateOnly_spec (1970 + v * mult / 12) (v * mult % 12 + 1) (by omega), hy, hmo, hto]

/-- **`dt64_to_parts` is the exact unbounded-integer meaning** of every `i64` value in every
unit with an `i64` multiplier.  Each result below is wrapped in the `some` that says no
unchecked `i128` operation wrapped. -/
theorem dt64ToParts_exact (v : ℤ) (u : Dt64Unit) (h : Dt64Args v u.mult) :
    (v = i64Min → dt64ToParts v u = some (.ok none)) ∧
    (v ≠ i64Min → u.base = .generic → dt64ToParts v u = some (.error .genericUnit)) ∧
    (v ≠ i64Min → ∀ months, u.base.months = some months →
      (0 ≤ monthIndex v u.mult months / 12 ∧ monthIndex v u.mult months / 12 ≤ 9999 →
        ∃ p, dt64ToParts v u = some (.ok (some p)) ∧ p.Valid ∧
          (p.y : ℤ) * 12 + (p.mo - 1) = monthIndex v u.mult months ∧
          p.d = 1 ∧ p.h = 0 ∧ p.mi = 0 ∧ p.s = 0 ∧ p.us = 0) ∧
      (¬ (0 ≤ monthIndex v u.mult months / 12 ∧ monthIndex v u.mult months / 12 ≤ 9999) →
        dt64ToParts v u = some (.error .unrepresentable))) ∧
    (v ≠ i64Min → ∀ ratio, u.base.ratio = some ratio →
      (firstInstant ≤ instant v u.mult ratio ∧ instant v u.mult ratio ≤ lastInstant →
        ∃ p, dt64ToParts v u = some (.ok (some p)) ∧ p.Valid ∧
          p.micros = instant v u.mult ratio) ∧
      (¬ (firstInstant ≤ instant v u.mult ratio ∧ instant v u.mult ratio ≤ lastInstant) →
        dt64ToParts v u = some (.error .unrepresentable))) := by
  refine ⟨fun hv => ?_, fun hv hg => ?_, fun hv months hm => ⟨fun hin => ?_, fun hout => ?_⟩,
    fun hv ratio hr => dt64ToParts_instant h hv hr⟩
  · rw [dt64ToParts, if_pos hv]
  · obtain ⟨hlo, hhi⟩ := h.product_bounds
    rw [dt64ToParts, if_neg hv, checkedMul_of_mem (by unfold InI128; omega), hg]
  · exact ⟨_, (dt64ToParts_month h hv hm).trans (congrArg some (if_pos hin)),
      firstOfMonth_valid hin, firstOfMonth_index hin.1, rfl, rfl, rfl, rfl, rfl⟩
  · exact (dt64ToParts_month h hv hm).trans (congrArg some (if_neg hout))

/-- The same at a value seven minutes before 1970, in units of seven minutes, and so below zero. -/
theorem dt64ToParts_exact_neg : ∃ p, dt64ToParts (-1) ⟨.minute, 7⟩ = some (.ok (some p)) ∧
    p.Valid ∧ p.micros = -420000000 :=
  ((dt64ToParts_exact (-1) ⟨.minute, 7⟩
    ⟨by decide, by decide, by decide, by decide⟩).2.2.2 (by decide) (60000000, 1) rfl).1
    (by rw [firstInstant_eq, lastInstant_eq]; decide)

end Isojson
