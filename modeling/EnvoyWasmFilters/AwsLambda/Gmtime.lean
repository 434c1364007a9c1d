import Mathlib.Tactic.IntervalCases
import EnvoyWasmFilters.Library.Gregorian

/-!
# The `gmtime` replacement

`gmtime.cc`: the module brings its own `gmtime`, which counts years and months off the number of days.

* `removeYears_spec` — the year loop ends in the year the day falls into, with the day of that year;
* `removeMonths_spec` — the month loop does the same for the months of the year it is told;
* `exists_instant`, `gmtime_instant` — the fields of any instant: only month and day depend on the year
  the month loop is told;
* `gmtime_civil` — as long as the year it tells the month loop, counted from 1900, is as long as the
  year itself, the fields are those of the civil time of the given instant.
-/

namespace EnvoyWasmFilters.AwsLambda

open Gregorian

/-- The members of `struct tm` that `gmtime` sets to other values than 0. -/
structure Tm where
  tmSec : ℤ
  tmMin : ℤ
  tmHour : ℤ
  tmMday : ℤ
  tmMon : ℤ
  tmYear : ℤ
deriving DecidableEq

/-- `daysInYear`. -/
def daysInYear (year : ℤ) : ℕ :=
  if year % 4 = 0 then
    if year % 400 = 0 then 366
    else if year % 100 = 0 then 365
    else 366
  else 365

/-- The local array of `daysInMonth`. -/
def monthTable : List ℕ := [31, 28, 31, 30, 31, 30, 31, 31, 30, 31, 30, 31]

/-- `daysInMonth`. -/
def daysInMonth (month : ℕ) (year : ℤ) : ℕ :=
  let daysInThisMonth := monthTable.getD month 0
  if month = 1 ∧ daysInYear year = 366 then daysInThisMonth + 1 else daysInThisMonth

theorem daysInYear_pos (year : ℤ) : 0 < daysInYear year := by
  simp only [daysInYear]
  split
  · split
    · omega
    · split <;> omega
  · omega

/-- The loop that removes days year by year. -/
def removeYears (year : ℤ) (deltat : ℕ) : ℤ × ℕ :=
  if deltat < daysInYear year then (year, deltat)
  else removeYears (year + 1) (deltat - daysInYear year)
termination_by deltat
decreasing_by
  have := daysInYear_pos year
  omega

/-- The loop over the months; `left` is what its bound `month < 12` leaves. -/
def removeMonths (year : ℤ) : ℕ → ℕ → ℕ → ℕ × ℕ
  | 0, month, deltat => (month, deltat)
  | left + 1, month, deltat =>
      if deltat < daysInMonth month year then (month, deltat)
      else removeMonths year left (month + 1) (deltat - daysInMonth month year)

/-- The conversion of a `long` to the `int` members of `struct tm`. -/
def toInt (x : ℤ) : ℤ := Int.bmod x (2 ^ 32)

/-- `gmtime`.  The argument and the result are pointers that may be null. -/
def gmtime : Option ℤ → Option Tm
  | none => none
  | some timer =>
      if timer < 0 then none
      else
        let deltat := timer.toNat
        let years := removeYears 1970 (deltat / 60 / 60 / 24)
        let tmYear := toInt (years.1 - 1900)
        let months := removeMonths tmYear 12 0 years.2
        some {
          tmSec := (deltat % 60 : ℕ)
          tmMin := (deltat / 60 % 60 : ℕ)
          tmHour := (deltat / 60 / 60 % 24 : ℕ)
          tmYear := tmYear
          tmMon := months.1
          tmMday := months.2 + 1 }

/-! ### Years and months -/

/-- The code's year is as long as the calendar's. -/
theorem daysInYear_eq (year : ℤ) : daysInYear year = yearLength year := by
  simp only [daysInYear]
  by_cases h : IsLeap year
  · rw [yearLength_of_leap h]
    simp only [IsLeap] at h
    split
    · split
      · rfl
      · split <;> omega
    · omega
  · rw [yearLength_of_not_leap h]
    simp only [IsLeap] at h
    split
    · split
      · omega
      · split <;> omega
    · rfl

/-- The code's month is as long as the calendar's. -/
theorem daysInMonth_eq {month : ℕ} (hm : month < 12) (year : ℤ) :
    daysInMonth month year = monthLength year month := by
  simp only [daysInMonth]
  rw [daysInYear_eq]
  by_cases h : IsLeap year
  · rw [yearLength_of_leap h]
    interval_cases month <;> simp [monthTable, monthLength, h]
  · rw [yearLength_of_not_leap h]
    interval_cases month <;> simp [monthTable, monthLength, h]

theorem removeYears_of_lt {year : ℤ} {deltat : ℕ} (h : deltat < daysInYear year) :
    removeYears year deltat = (year, deltat) := by
  rw [removeYears, if_pos h]

theorem removeYears_of_not_lt {year : ℤ} {deltat : ℕ} (h : ¬ deltat < daysInYear year) :
    removeYears year deltat = removeYears (year + 1) (deltat - daysInYear year) := by
  rw [removeYears, if_neg h]

/-- **The year loop.**  The days are split into whole years and a day of the year. -/
theorem removeYears_spec (year : ℤ) (deltat : ℕ) :
    year ≤ (removeYears year deltat).1 ∧
      (removeYears year deltat).2 < yearLength (removeYears year deltat).1 ∧
      daysBeforeYear (removeYears year deltat).1 + (removeYears year deltat).2
        = daysBeforeYear year + deltat := by
  induction year, deltat using removeYears.induct with
  | case1 year deltat hlt =>
    rw [removeYears_of_lt hlt]
    exact ⟨Int.le_refl year, daysInYear_eq year ▸ hlt, rfl⟩
  | case2 year deltat hge ih =>
    rw [removeYears_of_not_lt hge]
    obtain ⟨hle, hlt, hsum⟩ := ih
    refine ⟨by omega, hlt, ?_⟩
    have hyear := daysInYear_eq year
    rw [hsum, daysBeforeYear_succ]
    omega

/-- **The month loop**, by induction on the months left: the days are split into whole months and a
day of the month, unless all months have been used up. -/
theorem removeMonths_spec (year : ℤ) (left month deltat : ℕ) (hmonth : month + left ≤ 12) :
    (removeMonths year left month deltat).1 ≤ month + left ∧
      daysBeforeMonth year (removeMonths year left month deltat).1
          + (removeMonths year left month deltat).2
        = daysBeforeMonth year month + deltat ∧
      ((removeMonths year left month deltat).1 < month + left →
        (removeMonths year left month deltat).2
          < monthLength year (removeMonths year left month deltat).1) := by
  induction left generalizing month deltat with
  | zero => exact ⟨Nat.le_refl _, rfl, fun h => absurd h (Nat.lt_irrefl _)⟩
  | succ left ih =>
    have hlength := daysInMonth_eq (show month < 12 by omega) year
    rw [removeMonths]
    split
    · rename_i hlt
      exact ⟨Nat.le_add_right _ _, rfl, fun _ => hlength ▸ hlt⟩
    · rename_i hge
      obtain ⟨hle, hsum, hlt⟩ := ih (month + 1) (deltat - daysInMonth month year) (by omega)
      refine ⟨by omega, ?_, fun h => hlt (by omega)⟩
      have hsucc : daysBeforeMonth year (month + 1)
          = daysBeforeMonth year month + monthLength year month := rfl
      omega

/-- A day of the year is found before the months are used up. -/
theorem removeMonths_lt {year : ℤ} {deltat : ℕ} (h : deltat < yearLength year) :
    (removeMonths year 12 0 deltat).1 < 12 := by
  obtain ⟨hle, hsum, -⟩ := removeMonths_spec year 12 0 deltat (Nat.le_refl _)
  apply Nat.lt_of_le_of_ne hle
  intro heq
  rw [heq, daysBeforeMonth_twelve] at hsum
  have hzero : daysBeforeMonth year 0 = 0 := rfl
  omega

theorem yearLength_bounds (y : ℤ) : 365 ≤ yearLength y ∧ yearLength y ≤ 366 := by
  simp only [yearLength]
  split <;> omega

/-- In a year of another length the months may be used up, but no more than a month's days remain. -/
theorem removeMonths_le (year : ℤ) {y : ℤ} {deltat : ℕ} (h : deltat < yearLength y) :
    (removeMonths year 12 0 deltat).1 ≤ 12 ∧ (removeMonths year 12 0 deltat).2 < 31 := by
  obtain ⟨hmonth, hsum, hday⟩ := removeMonths_spec year 12 0 deltat (Nat.le_refl _)
  refine ⟨by omega, ?_⟩
  by_cases hlast : (removeMonths year 12 0 deltat).1 < 12
  · have hfound := hday (by omega)
    have hlength := monthLength_le year (removeMonths year 12 0 deltat).1
    omega
  · -- all twelve months are used up: what is left is at most the day a leap year has more
    have htwelve : (removeMonths year 12 0 deltat).1 = 12 := by omega
    have hzero : daysBeforeMonth year 0 = 0 := rfl
    rw [htwelve, daysBeforeMonth_twelve] at hsum
    have hshort := yearLength_bounds year
    have hlong := yearLength_bounds y
    omega

/-- The month loop finds a month and a day exactly where they are the date of the day. -/
theorem removeMonths_eq_iff {year : ℤ} {deltat month day : ℕ} (hmonth : month < 12) :
    removeMonths year 12 0 deltat = (month, day)
      ↔ daysBeforeMonth year month + day = deltat ∧ day < monthLength year month := by
  obtain ⟨hle, hsum, hlt⟩ := removeMonths_spec year 12 0 deltat (Nat.le_refl _)
  have hzero : daysBeforeMonth year 0 = 0 := rfl
  constructor
  · intro hloop
    rw [hloop] at hsum hlt
    dsimp only at hsum hlt
    exact ⟨by omega, hlt hmonth⟩
  · rintro ⟨hday, hlength⟩
    have hfound : (removeMonths year 12 0 deltat).1 < 12 := by
      by_contra hnone
      have htwelve : (removeMonths year 12 0 deltat).1 = 12 := by omega
      have hmono := daysBeforeMonth_mono year (show month + 1 ≤ 12 from hmonth)
      have hsucc : daysBeforeMonth year (month + 1)
          = daysBeforeMonth year month + monthLength year month := rfl
      rw [htwelve] at hsum
      omega
    have hsame : (removeMonths year 12 0 deltat).1 = month :=
      month_unique (hlt hfound) hlength (by omega)
    apply Prod.ext hsame
    rw [hsame] at hsum
    show (removeMonths year 12 0 deltat).2 = day
    omega

/-- The year loop finds the year and the day of the year of a date after the epoch. -/
theorem removeYears_eq {d : Date} {deltat : ℕ} (h : d.number = deltat) :
    removeYears 1970 deltat = (d.year, d.yearDay) := by
  obtain ⟨-, hlt, hsum⟩ := removeYears_spec 1970 deltat
  rw [daysBeforeYear_epoch] at hsum
  have hnumber : daysBeforeYear d.year + d.yearDay = deltat := h
  have hyear : (removeYears 1970 deltat).1 = d.year :=
    year_unique hlt d.yearDay_lt (by omega)
  apply Prod.ext hyear
  rw [hyear] at hsum
  show (removeYears 1970 deltat).2 = d.yearDay
  omega

/-! ### The civil time -/

/-- The fields of a civil time. -/
def Tm.ofCivil (c : CivilTime) : Tm where
  tmSec := c.second
  tmMin := c.minute
  tmHour := c.hour
  tmMday := c.day
  tmMon := c.month
  tmYear := c.year - 1900

/-- The year an instant falls into. -/
def yearOf (t : ℤ) : ℤ := (removeYears 1970 (t.toNat / 60 / 60 / 24)).1

theorem toInt_of_lt {x : ℤ} (hlo : -2 ^ 31 ≤ x) (hhi : x < 2 ^ 31) : toInt x = x := by
  simp only [toInt]
  rw [Int.bmod_eq_of_le] <;> omega

/-- Every instant from the epoch on is that of a civil time. -/
theorem exists_instant {t : ℤ} (ht : 0 ≤ t) : ∃ c : CivilTime, c.instant = t := by
  obtain ⟨-, hlt, hsum⟩ := removeYears_spec 1970 (t.toNat / 60 / 60 / 24)
  generalize removeYears 1970 (t.toNat / 60 / 60 / 24) = years at *
  have hmonth := removeMonths_lt hlt
  obtain ⟨-, hdays, hday⟩ := removeMonths_spec years.1 12 0 years.2 (Nat.le_refl _)
  have hday' := hday hmonth
  generalize removeMonths years.1 12 0 years.2 = months at *
  refine ⟨{
    year := years.1, month := months.1, day := months.2 + 1
    hour := t.toNat / 60 / 60 % 24, minute := t.toNat / 60 % 60, second := t.toNat % 60
    month_lt := hmonth, day_pos := Nat.succ_pos _, day_le := hday'
    hour_lt := Nat.mod_lt _ (by decide), minute_lt := Nat.mod_lt _ (by decide)
    second_lt := Nat.mod_lt _ (by decide) }, ?_⟩
  simp only [CivilTime.instant, Date.number, Date.yearDay]
  have hzero : daysBeforeMonth years.1 0 = 0 := rfl
  rw [daysBeforeYear_epoch] at hsum
  omega

/-- The days of a civil time, as the code counts them. -/
theorem number_eq {c : CivilTime} (hc : 0 ≤ c.instant) :
    c.toDate.number = (c.instant.toNat / 60 / 60 / 24 : ℕ) := by
  have hh := c.hour_lt
  have hm := c.minute_lt
  have hs := c.second_lt
  have hinstant : c.instant = 86400 * c.toDate.number + (3600 * c.hour + 60 * c.minute + c.second : ℕ) :=
    rfl
  omega

theorem yearOf_instant {c : CivilTime} (hc : 0 ≤ c.instant) : yearOf c.instant = c.year := by
  rw [yearOf, removeYears_eq (number_eq hc)]

/-- **The fields of an instant**: those of its civil time, save that month and day are what the month
loop finds in the year counted from 1900. -/
theorem gmtime_instant {c : CivilTime} (hc : 0 ≤ c.instant) (hyear : c.year - 1900 < 2 ^ 31) :
    gmtime (some c.instant) = some {
      Tm.ofCivil c with
      tmMon := (removeMonths (c.year - 1900) 12 0 c.toDate.yearDay).1
      tmMday := (removeMonths (c.year - 1900) 12 0 c.toDate.yearDay).2 + 1 } := by
  have hh := c.hour_lt
  have hm := c.minute_lt
  have hs := c.second_lt
  have hepoch := CivilTime.epoch_le_year hc
  have hinstant : c.instant = 86400 * c.toDate.number + (3600 * c.hour + 60 * c.minute + c.second : ℕ) :=
    rfl
  have hhour : c.instant.toNat / 60 / 60 % 24 = c.hour := by omega
  have hminute : c.instant.toNat / 60 % 60 = c.minute := by omega
  have hsecond : c.instant.toNat % 60 = c.second := by omega
  rw [gmtime, if_neg (not_lt.mpr hc)]
  simp only [removeYears_eq (number_eq hc), hhour, hminute, hsecond, Tm.ofCivil]
  rw [toInt_of_lt (by omega) hyear]

theorem monthLength_congr {y y' : ℤ} (h : IsLeap y ↔ IsLeap y') : monthLength y = monthLength y' := by
  funext m
  simp only [monthLength, h]

theorem daysBeforeMonth_congr {y y' : ℤ} (h : IsLeap y ↔ IsLeap y') :
    daysBeforeMonth y = daysBeforeMonth y' := by
  funext m
  induction m with
  | zero => rfl
  | succ m ih => rw [daysBeforeMonth, daysBeforeMonth, ih, monthLength_congr h]

/-- **`gmtime` where it is right.**  The month loop is told the year counted from 1900; where that
makes no difference the fields are those of the civil time. -/
theorem gmtime_civil {t : ℤ} (ht : 0 ≤ t) (hyear : yearOf t - 1900 < 2 ^ 31)
    (hleap : IsLeap (yearOf t - 1900) ↔ IsLeap (yearOf t)) :
    ∃ c : CivilTime, c.instant = t ∧ gmtime (some t) = some (Tm.ofCivil c) := by
  obtain ⟨c, rfl⟩ := exists_instant ht
  rw [yearOf_instant ht] at hyear hleap
  have hpos := c.day_pos
  have hmonths : removeMonths (c.year - 1900) 12 0 c.toDate.yearDay = (c.month, c.day - 1) := by
    rw [removeMonths_eq_iff c.month_lt, daysBeforeMonth_congr hleap, monthLength_congr hleap]
    have hle := c.day_le
    exact ⟨rfl, by omega⟩
  have hday : ((c.day - 1 : ℕ) : ℤ) + 1 = c.day := by omega
  refine ⟨c, rfl, ?_⟩
  rw [gmtime_instant ht hyear, hmonths]
  dsimp only
  rw [hday]
  rfl

/-- An instant before a year falls into an earlier one. -/
theorem yearOf_lt {t y : ℤ} (ht : 0 ≤ t) (hlt : t < 86400 * daysBeforeYear y) : yearOf t < y := by
  obtain ⟨-, -, hsum⟩ := removeYears_spec 1970 (t.toNat / 60 / 60 / 24)
  rw [daysBeforeYear_epoch] at hsum
  by_contra hge
  obtain ⟨n, hn⟩ := Int.le.dest (show y - 1 + 1 ≤ yearOf t by omega)
  have hlate := daysBeforeYear_le (y - 1) n
  have hstart := daysBeforeYear_succ (y - 1)
  rw [Int.sub_add_cancel] at hstart
  rw [hn] at hlate
  simp only [yearOf] at hlate
  omega

/-- Before the year 2000 the year counted from 1900 is a leap year exactly when the year is. -/
theorem gmtime_before_2000 {t : ℤ} (ht : 0 ≤ t) (hlt : t < 946684800) :
    ∃ c : CivilTime, c.instant = t ∧ gmtime (some t) = some (Tm.ofCivil c) := by
  have hdays : daysBeforeYear 2000 = 10957 := by decide
  have hyear : yearOf t < 2000 := yearOf_lt ht (by rw [hdays]; omega)
  have hge : 1970 ≤ yearOf t := (removeYears_spec 1970 (t.toNat / 60 / 60 / 24)).1
  apply gmtime_civil ht (by omega)
  simp only [IsLeap]
  omega

/-- **The fields in any year before 10000**: four digits for the year, and no more than two for the
month and the day, also where the month loop counts one too many. -/
theorem gmtime_fields {t : ℤ} (ht : 0 ≤ t) (hlt : t < 253402300800) :
    ∃ tm, ∃ year month day : ℕ, gmtime (some t) = some tm ∧
      tm.tmYear + 1900 = year ∧ 1970 ≤ year ∧ year < 10000 ∧
      tm.tmMon + 1 = month ∧ month < 100 ∧ tm.tmMday = day ∧ day < 100 := by
  have hdays : daysBeforeYear 10000 = 2932897 := by decide
  have hbefore := yearOf_lt ht (y := 10000) (by rw [hdays]; omega)
  obtain ⟨c, rfl⟩ := exists_instant ht
  rw [yearOf_instant ht] at hbefore
  have hepoch := CivilTime.epoch_le_year ht
  have hfields := gmtime_instant ht (by omega)
  obtain ⟨hmonth, hmday⟩ := removeMonths_le (c.year - 1900) c.toDate.yearDay_lt
  generalize removeMonths (c.year - 1900) 12 0 c.toDate.yearDay = months at *
  refine ⟨_, c.year.toNat, months.1 + 1, months.2 + 1, hfields, ?_⟩
  simp only [Tm.ofCivil]
  omega

end EnvoyWasmFilters.AwsLambda
