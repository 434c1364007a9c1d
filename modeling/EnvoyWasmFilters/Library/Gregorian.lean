import Mathlib.Algebra.Order.Ring.Int

/-!
# The proleptic Gregorian calendar

Dates and times of day in UTC, and the number of seconds that separates them from
1970-01-01T00:00:00.  Years are arbitrary integers; months count from 0, days from 1.

* `daysBeforeYear_succ`, `daysBeforeMonth_twelve` — a year is as long as its months;
* `CivilTime` — a date and a time of day that exist, the proof carried along;
* `CivilTime.instant_injective` — different times are different instants.
-/

namespace Gregorian

/-- Whether the year has a 29 February. -/
def IsLeap (y : ℤ) : Prop := 4 ∣ y ∧ (100 ∣ y → 400 ∣ y)

instance : DecidablePred IsLeap := fun y => inferInstanceAs (Decidable (4 ∣ y ∧ (100 ∣ y → 400 ∣ y)))

/-- The days of a year. -/
def yearLength (y : ℤ) : ℕ := if IsLeap y then 366 else 365

/-- The days of a month, months counting from 0. -/
def monthLength (y : ℤ) : ℕ → ℕ
  | 0 => 31
  | 1 => if IsLeap y then 29 else 28
  | 2 => 31
  | 3 => 30
  | 4 => 31
  | 5 => 30
  | 6 => 31
  | 7 => 31
  | 8 => 30
  | 9 => 31
  | 10 => 30
  | 11 => 31
  | _ => 0

/-- The days of the first `m` months of a year. -/
def daysBeforeMonth (y : ℤ) : ℕ → ℕ
  | 0 => 0
  | m + 1 => daysBeforeMonth y m + monthLength y m

/-- Leap years among the years 1 to `n`. -/
def leapYearsThrough (n : ℤ) : ℤ := n / 4 - n / 100 + n / 400

/-- The days from 1 January 1970 to 1 January of the year `y`. -/
def daysBeforeYear (y : ℤ) : ℤ :=
  365 * (y - 1970) + (leapYearsThrough (y - 1) - leapYearsThrough 1969)

theorem yearLength_of_leap {y : ℤ} (h : IsLeap y) : yearLength y = 366 := if_pos h

theorem yearLength_of_not_leap {y : ℤ} (h : ¬ IsLeap y) : yearLength y = 365 := if_neg h

/-- **One year on.** -/
theorem daysBeforeYear_succ (y : ℤ) : daysBeforeYear (y + 1) = daysBeforeYear y + yearLength y := by
  simp only [daysBeforeYear, leapYearsThrough]
  by_cases h : IsLeap y
  · rw [yearLength_of_leap h]
    simp only [IsLeap] at h
    omega
  · rw [yearLength_of_not_leap h]
    simp only [IsLeap] at h
    omega

theorem daysBeforeYear_epoch : daysBeforeYear 1970 = 0 := by decide

/-- The months make up the year. -/
theorem daysBeforeMonth_twelve (y : ℤ) : daysBeforeMonth y 12 = yearLength y := by
  simp only [yearLength, daysBeforeMonth, monthLength]
  split <;> rfl

theorem monthLength_le (y : ℤ) (m : ℕ) : monthLength y m ≤ 31 := by
  simp only [monthLength]
  split <;> first | omega | split <;> omega

theorem daysBeforeMonth_mono (y : ℤ) : Monotone (daysBeforeMonth y) :=
  monotone_nat_of_le_succ fun m => Nat.le_add_right (daysBeforeMonth y m) (monthLength y m)

/-- A later year begins no earlier than the year before it ends. -/
theorem daysBeforeYear_le (y : ℤ) (n : ℕ) :
    daysBeforeYear y + yearLength y ≤ daysBeforeYear (y + 1 + n) := by
  induction n with
  | zero => exact Int.le_of_eq (by rw [← daysBeforeYear_succ]; simp)
  | succ n ih =>
    have hstep := daysBeforeYear_succ (y + 1 + n)
    have hshift : y + 1 + ((n + 1 : ℕ) : ℤ) = y + 1 + n + 1 := by omega
    rw [hshift, hstep]
    omega

/-- In a row of blocks each of which ends before the later ones begin, a point lies in one block. -/
theorem block_unique {α : Type*} [LinearOrder α] (start stop : α → ℤ)
    (h : ∀ a b, a < b → stop a ≤ start b) {a b : α} {x : ℤ} (ha : start a ≤ x) (ha' : x < stop a)
    (hb : start b ≤ x) (hb' : x < stop b) : a = b := by
  rcases lt_trichotomy a b with hlt | heq | hgt
  · have := h a b hlt
    omega
  · exact heq
  · have := h b a hgt
    omega

theorem year_unique {y y' : ℤ} {r r' : ℕ} (hr : r < yearLength y) (hr' : r' < yearLength y')
    (h : daysBeforeYear y + r = daysBeforeYear y' + r') : y = y' := by
  have hrow : ∀ a b : ℤ, a < b → daysBeforeYear a + yearLength a ≤ daysBeforeYear b := by
    intro a b hab
    obtain ⟨n, hn⟩ := Int.le.dest (show a + 1 ≤ b by omega)
    rw [← hn]
    exact daysBeforeYear_le a n
  exact block_unique daysBeforeYear (fun y => daysBeforeYear y + yearLength y) hrow
    (show daysBeforeYear y ≤ daysBeforeYear y + r by omega)
    (show daysBeforeYear y + r < daysBeforeYear y + yearLength y by omega)
    (show daysBeforeYear y' ≤ daysBeforeYear y + r by omega)
    (show daysBeforeYear y + r < daysBeforeYear y' + yearLength y' by omega)

theorem month_unique {y : ℤ} {m m' d d' : ℕ} (hd : d < monthLength y m)
    (hd' : d' < monthLength y m') (h : daysBeforeMonth y m + d = daysBeforeMonth y m' + d') :
    m = m' := by
  have hrow : ∀ a b : ℕ, a < b →
      (daysBeforeMonth y a : ℤ) + monthLength y a ≤ daysBeforeMonth y b := by
    intro a b hab
    exact_mod_cast daysBeforeMonth_mono y (show a + 1 ≤ b from hab)
  exact block_unique (fun m => (daysBeforeMonth y m : ℤ))
    (fun m => (daysBeforeMonth y m : ℤ) + monthLength y m) hrow
    (show (daysBeforeMonth y m : ℤ) ≤ (daysBeforeMonth y m + d : ℕ) by omega)
    (show ((daysBeforeMonth y m + d : ℕ) : ℤ) < daysBeforeMonth y m + monthLength y m by omega)
    (show (daysBeforeMonth y m' : ℤ) ≤ (daysBeforeMonth y m + d : ℕ) by omega)
    (show ((daysBeforeMonth y m + d : ℕ) : ℤ) < daysBeforeMonth y m' + monthLength y m' by omega)

/-- A date that exists. -/
@[ext] structure Date where
  year : ℤ
  month : ℕ
  day : ℕ
  month_lt : month < 12
  day_pos : 0 < day
  day_le : day ≤ monthLength year month

/-- The day of the year, counting from 0. -/
def Date.yearDay (d : Date) : ℕ := daysBeforeMonth d.year d.month + (d.day - 1)

/-- The days from 1 January 1970. -/
def Date.number (d : Date) : ℤ := daysBeforeYear d.year + d.yearDay

theorem Date.yearDay_lt (d : Date) : d.yearDay < yearLength d.year := by
  have hpos := d.day_pos
  have hle := d.day_le
  have hmono := daysBeforeMonth_mono d.year (show d.month + 1 ≤ 12 from d.month_lt)
  rw [daysBeforeMonth_twelve] at hmono
  have hsucc : daysBeforeMonth d.year (d.month + 1)
      = daysBeforeMonth d.year d.month + monthLength d.year d.month := rfl
  simp only [Date.yearDay]
  omega

/-- Different dates have different numbers. -/
theorem Date.number_injective {d d' : Date} (h : d.number = d'.number) :
    d.year = d'.year ∧ d.month = d'.month ∧ d.day = d'.day := by
  have hyear : d.year = d'.year := year_unique d.yearDay_lt d'.yearDay_lt h
  have hday : d.yearDay = d'.yearDay := by
    simp only [Date.number] at h
    rw [hyear] at h
    omega
  have hpos := d.day_pos
  have hpos' := d'.day_pos
  have hle := d.day_le
  have hle' := d'.day_le
  simp only [Date.yearDay] at hday
  rw [hyear] at hday hle
  have hmonth : d.month = d'.month := month_unique (by omega) (by omega) hday
  rw [hmonth] at hday
  exact ⟨hyear, hmonth, by omega⟩

/-- A date with a time of day. -/
@[ext] structure CivilTime extends Date where
  hour : ℕ
  minute : ℕ
  second : ℕ
  hour_lt : hour < 24
  minute_lt : minute < 60
  second_lt : second < 60

/-- The seconds from 1970-01-01T00:00:00. -/
def CivilTime.instant (c : CivilTime) : ℤ :=
  86400 * c.toDate.number + (3600 * c.hour + 60 * c.minute + c.second : ℕ)

/-- **Different times are different instants.** -/
theorem CivilTime.instant_injective {c c' : CivilTime} (h : c.instant = c'.instant) : c = c' := by
  have hh := c.hour_lt
  have hm := c.minute_lt
  have hs := c.second_lt
  have hh' := c'.hour_lt
  have hm' := c'.minute_lt
  have hs' := c'.second_lt
  simp only [CivilTime.instant] at h
  have hnumber : c.toDate.number = c'.toDate.number := by omega
  have hhour : c.hour = c'.hour := by omega
  have hminute : c.minute = c'.minute := by omega
  have hsecond : c.second = c'.second := by omega
  obtain ⟨hyear, hmonth, hday⟩ := Date.number_injective hnumber
  exact CivilTime.ext hyear hmonth hday hhour hminute hsecond

/-- No time after the epoch lies in a year before 1970. -/
theorem CivilTime.epoch_le_year {c : CivilTime} (h : 0 ≤ c.instant) : 1970 ≤ c.year := by
  by_contra hlt
  obtain ⟨n, hn⟩ := Int.le.dest (show c.year + 1 ≤ 1970 by omega)
  have hyear := daysBeforeYear_le c.year n
  rw [hn, daysBeforeYear_epoch] at hyear
  have hday := c.toDate.yearDay_lt
  have hh := c.hour_lt
  have hm := c.minute_lt
  have hs := c.second_lt
  simp only [CivilTime.instant, Date.number] at h
  omega

end Gregorian
