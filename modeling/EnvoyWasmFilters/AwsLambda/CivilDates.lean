import EnvoyWasmFilters.AwsLambda.Gmtime

/-!
# The dates of `gmtime`

The month loop of `gmtime` is told `tm_year`, the year counted from 1900, and asks it whether the
February of the year has 29 days.

* `same_day_iff` — when a day has one date in two years that are not equally long;
* `gmtime_right_iff` — **when the fields are those of the civil time**.
-/

namespace EnvoyWasmFilters.AwsLambda

open Gregorian

/-! ### Years of different length -/

/-- The days before a month from March on: a leap year has one more. -/
theorem daysBeforeMonth_leap {y y' : ℤ} (hleap : IsLeap y) (hleap' : ¬ IsLeap y') {m : ℕ} (hm : 2 ≤ m)
    (hlt : m < 12) : daysBeforeMonth y m = daysBeforeMonth y' m + 1 := by
  interval_cases m <;> simp only [daysBeforeMonth, monthLength, if_pos hleap, if_neg hleap']

/-- They tell a leap year from another year. -/
theorem daysBeforeMonth_ne {y y' : ℤ} (h : ¬ (IsLeap y ↔ IsLeap y')) {m : ℕ} (hm : 2 ≤ m)
    (hlt : m < 12) : daysBeforeMonth y m ≠ daysBeforeMonth y' m := by
  by_cases hleap : IsLeap y
  · have hother : ¬ IsLeap y' := fun h' => h (iff_of_true hleap h')
    have hmore := daysBeforeMonth_leap hleap hother hm hlt
    omega
  · have hother : IsLeap y' := by
      by_contra h'
      exact h (iff_of_false hleap h')
    have hmore := daysBeforeMonth_leap hother hleap hm hlt
    omega

/-- **The same date.**  A day is the same day of the year under the same date in another year exactly
if the years are equally long or the day is one of the first 59. -/
theorem same_day_iff (d : Date) (y : ℤ) :
    daysBeforeMonth y d.month = daysBeforeMonth d.year d.month ∧ d.day ≤ monthLength y d.month
      ↔ (IsLeap y ↔ IsLeap d.year) ∨ d.yearDay < 59 := by
  by_cases hsame : IsLeap y ↔ IsLeap d.year
  · rw [daysBeforeMonth_congr hsame, monthLength_congr hsame]
    exact iff_of_true ⟨rfl, d.day_le⟩ (.inl hsame)
  · rw [or_iff_right hsame, Date.yearDay]
    have hpos := d.day_pos
    have hle := d.day_le
    by_cases hmarch : 2 ≤ d.month
    · -- from March on the days before the month differ, and 59 are over
      have hdays : daysBeforeMonth d.year 2 ≤ daysBeforeMonth d.year d.month :=
        daysBeforeMonth_mono d.year hmarch
      have hfebruary : 59 ≤ daysBeforeMonth d.year 2 := by
        show 59 ≤ 0 + 31 + if IsLeap d.year then 29 else 28
        split <;> omega
      apply iff_of_false _ (by omega)
      rintro ⟨hequal, -⟩
      exact daysBeforeMonth_ne hsame hmarch d.month_lt hequal
    · have hmonth : d.month = 0 ∨ d.month = 1 := by omega
      obtain hjanuary | hfebruary := hmonth
      · rw [hjanuary] at hle ⊢
        have hlength : d.day ≤ 31 := hle
        exact iff_of_true ⟨rfl, hle⟩ (show 0 + (d.day - 1) < 59 by omega)
      · rw [hfebruary] at hle ⊢
        have hlength : d.day ≤ if IsLeap d.year then 29 else 28 := hle
        show (31 = 31 ∧ d.day ≤ if IsLeap y then 29 else 28) ↔ 31 + (d.day - 1) < 59
        by_cases hleap : IsLeap y
        · have hother : ¬ IsLeap d.year := fun h => hsame (iff_of_true hleap h)
          rw [if_neg hother] at hlength
          rw [if_pos hleap]
          omega
        · rw [if_neg hleap]
          omega

/-- The year counted from 1900 is as long as the year, save in the years that are a multiple of 400
and those that are 300 more. -/
theorem isLeap_sub_1900_iff (y : ℤ) :
    (IsLeap (y - 1900) ↔ IsLeap y) ↔ y % 400 ≠ 0 ∧ y % 400 ≠ 300 := by
  simp only [IsLeap]
  omega

/-! ### The fields -/

/-- **When the fields are those of the civil time.**  Every instant from the epoch on is that of one
civil time.  As long as its year fits into `tm_year`, `gmtime` fills in that time exactly if the year is
neither a multiple of 400 nor 300 more than one, or the day is one of the first 59 of its year. -/
theorem gmtime_right_iff {t : ℤ} (ht : 0 ≤ t) :
    ∃ c : CivilTime, c.instant = t ∧ (c.year - 1900 < 2 ^ 31 →
      (gmtime (some t) = some (Tm.ofCivil c)
        ↔ (c.year % 400 ≠ 0 ∧ c.year % 400 ≠ 300) ∨ c.toDate.yearDay < 59)) := by
  obtain ⟨c, rfl⟩ := exists_instant ht
  refine ⟨c, rfl, fun hyear => ?_⟩
  have hpos := c.day_pos
  have hloop : removeMonths (c.year - 1900) 12 0 c.toDate.yearDay = (c.month, c.day - 1)
      ↔ (IsLeap (c.year - 1900) ↔ IsLeap c.year) ∨ c.toDate.yearDay < 59 := by
    rw [removeMonths_eq_iff c.month_lt, ← same_day_iff c.toDate, Date.yearDay, Nat.add_right_cancel_iff]
    omega
  rw [← isLeap_sub_1900_iff, ← hloop, gmtime_instant ht hyear, Option.some_inj, Tm.mk.injEq,
    Prod.ext_iff]
  simp only [Tm.ofCivil, true_and, and_true]
  omega

/-- The midnight that begins a day of the year 2000. -/
def midnight2000 (month day : ℕ) (month_lt : month < 12) (day_pos : 0 < day)
    (day_le : day ≤ monthLength 2000 month) : CivilTime :=
  ⟨⟨2000, month, day, month_lt, day_pos, day_le⟩, 0, 0, 0, by decide, by decide, by decide⟩

/-- The 28th of February 2000 is right. -/
theorem february_28th_2000_right :
    (0 : ℤ) ≤ 951696000 ∧
      ∃ c : CivilTime, c.instant = 951696000 ∧ gmtime (some 951696000) = some (Tm.ofCivil c) := by
  obtain ⟨c, hc, hiff⟩ := gmtime_right_iff (t := 951696000) (by decide)
  have hcivil : c = midnight2000 1 28 (by decide) (by decide) (by decide) :=
    CivilTime.instant_injective (hc.trans (by decide))
  rw [hcivil] at hc hiff
  exact ⟨by decide, _, hc, (hiff (by decide)).mpr (.inr (by decide))⟩

/-- The 29th of February 2000 comes out as the first of March, and the last day of that year as the
first of a thirteenth month. -/
theorem leap_day_2000_wrong :
    (¬ ∀ t : ℤ, 0 ≤ t → ∃ c : CivilTime, c.instant = t ∧
        (c.year - 1900 < 2 ^ 31 → gmtime (some t) = some (Tm.ofCivil c))) ∧
      gmtime (some 951782400) = some ⟨0, 0, 0, 1, 2, 100⟩ ∧
      gmtime (some 978220800) = some ⟨0, 0, 0, 1, 12, 100⟩ := by
  have hleap : gmtime (some 951782400) = some ⟨0, 0, 0, 1, 2, 100⟩ :=
    gmtime_instant (c := midnight2000 1 29 (by decide) (by decide) (by decide))
      (by decide) (by decide)
  refine ⟨fun h => ?_, hleap, ?_⟩
  · obtain ⟨c, hc, hright⟩ := h 951782400 (by decide)
    have hcivil : c = midnight2000 1 29 (by decide) (by decide) (by decide) :=
      CivilTime.instant_injective (hc.trans (by decide))
    rw [hcivil, hleap] at hright
    exact absurd (hright (by decide)) (by decide)
  · have hmonths : removeMonths 100 12 0 365 = (12, 0) := by decide
    have hlast := gmtime_instant (c := midnight2000 11 31 (by decide) (by decide) (by decide))
      (by decide) (by decide)
    have hday : (midnight2000 11 31 (by decide) (by decide) (by decide)).toDate.yearDay = 365 := by
      decide
    rw [hday, show (midnight2000 11 31 _ _ _).year - 1900 = 100 from rfl, hmonths] at hlast
    exact hlast

end EnvoyWasmFilters.AwsLambda
