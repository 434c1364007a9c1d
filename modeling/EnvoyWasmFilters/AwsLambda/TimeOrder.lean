import EnvoyWasmFilters.AwsLambda.Timestamp
import Mathlib.Data.Prod.Lex
import Mathlib.Data.Int.ConditionallyCompleteOrder

/-!
# The order of the fields

The fields of `gmtime` grow with the instant, also where the month loop counts a day too many or too
few: both loops take a larger number apart into a larger pair.

* `removeYears_strictMono`, `removeMonths_strictMono` — the two loops;
* `gmtime_strictMono` — **later instants have larger fields**, and other texts.
-/

namespace EnvoyWasmFilters.AwsLambda

open Gregorian Prod.Lex

/-! ### The two loops -/

/-- **The year loop**: more days end in a later year, or in the same year on a later day. -/
theorem removeYears_strictMono (year : ℤ) : StrictMono fun deltat => toLex (removeYears year deltat) := by
  intro deltat deltat' hlt
  dsimp only
  induction year, deltat using removeYears.induct generalizing deltat' with
  | case1 year deltat hday =>
    rw [removeYears_of_lt hday]
    by_cases hday' : deltat' < daysInYear year
    · rw [removeYears_of_lt hday', toLex_lt_toLex]
      exact .inr ⟨rfl, hlt⟩
    · rw [removeYears_of_not_lt hday', toLex_lt_toLex]
      obtain ⟨hyear, -⟩ := removeYears_spec (year + 1) (deltat' - daysInYear year)
      exact .inl (by omega)
  | case2 year deltat hday ih =>
    have hday' : ¬ deltat' < daysInYear year := by omega
    rw [removeYears_of_not_lt hday, removeYears_of_not_lt hday']
    exact ih (by omega)

theorem le_removeMonths (year : ℤ) (left month deltat : ℕ) :
    month ≤ (removeMonths year left month deltat).1 := by
  induction left generalizing month deltat with
  | zero => exact le_refl month
  | succ left ih =>
    rw [removeMonths]
    split
    · exact le_refl month
    · have hle := ih (month + 1) (deltat - daysInMonth month year)
      omega

/-- **The month loop**, by induction on the months left; where they are used up the day alone grows. -/
theorem removeMonths_strictMono (year : ℤ) (left month : ℕ) :
    StrictMono fun deltat => toLex (removeMonths year left month deltat) := by
  induction left generalizing month with
  | zero =>
    intro deltat deltat' hlt
    exact toLex_lt_toLex.mpr (.inr ⟨rfl, hlt⟩)
  | succ left ih =>
    intro deltat deltat' hlt
    dsimp only
    rw [removeMonths, removeMonths]
    by_cases hday : deltat < daysInMonth month year
    · rw [if_pos hday]
      by_cases hday' : deltat' < daysInMonth month year
      · rw [if_pos hday', toLex_lt_toLex]
        exact .inr ⟨rfl, hlt⟩
      · rw [if_neg hday', toLex_lt_toLex]
        have hmonth := le_removeMonths year left (month + 1) (deltat' - daysInMonth month year)
        exact .inl (by omega)
    · rw [if_neg hday, if_neg (show ¬ deltat' < daysInMonth month year by omega)]
      exact ih (month + 1) (show deltat - _ < deltat' - _ by omega)

/-! ### The fields -/

/-- The fields, the largest unit first. -/
def Tm.fields (tm : Tm) : List ℤ := [tm.tmYear, tm.tmMon, tm.tmMday, tm.tmHour, tm.tmMin, tm.tmSec]

/-- Two lists of fields with a first difference. -/
theorem fields_lt {tm tm' : Tm}
    (h : tm.tmYear < tm'.tmYear ∨ tm.tmYear = tm'.tmYear ∧ (tm.tmMon < tm'.tmMon ∨
      tm.tmMon = tm'.tmMon ∧ (tm.tmMday < tm'.tmMday ∨ tm.tmMday = tm'.tmMday ∧
        (tm.tmHour < tm'.tmHour ∨ tm.tmHour = tm'.tmHour ∧ (tm.tmMin < tm'.tmMin ∨
          tm.tmMin = tm'.tmMin ∧ tm.tmSec < tm'.tmSec))))) : tm.fields < tm'.fields := by
  simp only [Tm.fields, List.cons_lt_cons_iff]
  simpa using h

/-- The day of an instant, counting from 1970-01-01. -/
def dayOf (t : ℤ) : ℕ := t.toNat / 60 / 60 / 24

/-- **The fields of an instant**, two digits each: those the loops find, and the time of day. -/
theorem gmtime_ofFields {t : ℤ} (ht : 0 ≤ t) (hyear : yearOf t - 1900 < 2 ^ 31) :
    ∃ f : ShortFields, gmtime (some t) = some (Tm.ofFields (yearOf t).toNat f) ∧
      (removeMonths (yearOf t - 1900) 12 0 (removeYears 1970 (dayOf t)).2) = (f.month, f.day - 1) ∧
      0 < f.day ∧ f.hour = t.toNat / 60 / 60 % 24 ∧ f.minute = t.toNat / 60 % 60 ∧
      f.second = t.toNat % 60 := by
  obtain ⟨hepoch, hlt, -⟩ := removeYears_spec 1970 (dayOf t)
  obtain ⟨hmonth, hday⟩ := removeMonths_le (yearOf t - 1900) hlt
  have hage : 1970 ≤ yearOf t := hepoch
  refine ⟨{
    month := (removeMonths (yearOf t - 1900) 12 0 (removeYears 1970 (dayOf t)).2).1
    day := (removeMonths (yearOf t - 1900) 12 0 (removeYears 1970 (dayOf t)).2).2 + 1
    hour := t.toNat / 60 / 60 % 24
    minute := t.toNat / 60 % 60
    second := t.toNat % 60
    month_lt := by omega
    day_lt := by omega
    hour_lt := by omega
    minute_lt := by omega
    second_lt := by omega }, ?_, rfl, Nat.succ_pos _, rfl, rfl, rfl⟩
  have htmYear : toInt (yearOf t - 1900) = yearOf t - 1900 := toInt_of_lt (by omega) hyear
  have hnat : ((yearOf t).toNat : ℤ) = yearOf t := Int.toNat_of_nonneg (by omega)
  rw [gmtime, if_neg (not_lt.mpr ht)]
  simp only [Tm.ofFields, hnat]
  show some (_ : Tm) = _
  rw [← yearOf, htmYear]
  rfl

theorem yearOf_eq (t : ℤ) : yearOf t = (removeYears 1970 (dayOf t)).1 := rfl

/-- An instant is not in a later year than a later one. -/
theorem yearOf_mono {t t' : ℤ} (h : dayOf t < dayOf t') :
    yearOf t < yearOf t' ∨ yearOf t = yearOf t' ∧
      (removeYears 1970 (dayOf t)).2 < (removeYears 1970 (dayOf t')).2 :=
  toLex_lt_toLex.mp (removeYears_strictMono 1970 h)

theorem yearOf_le {t t' : ℤ} (h : dayOf t < dayOf t' ∨ dayOf t = dayOf t') : yearOf t ≤ yearOf t' := by
  obtain hday | hday := h
  · obtain hlater | ⟨hsame, -⟩ := yearOf_mono hday
    · exact le_of_lt hlater
    · exact le_of_eq hsame
  · rw [yearOf_eq, yearOf_eq, hday]

/-- The first field that differs between two instants is larger in the later one. -/
theorem ofFields_later {t t' : ℤ} (ht : 0 ≤ t) (hlt : t < t') (hyear : yearOf t' - 1900 < 2 ^ 31) :
    ∃ f f', gmtime (some t) = some (Tm.ofFields (yearOf t).toNat f) ∧
      gmtime (some t') = some (Tm.ofFields (yearOf t').toNat f') ∧
      (Tm.ofFields (yearOf t).toNat f).fields < (Tm.ofFields (yearOf t').toNat f').fields := by
  have hday : dayOf t < dayOf t' ∨ dayOf t = dayOf t' := by
    simp only [dayOf]
    omega
  have hyears := yearOf_le hday
  have hepoch : 1970 ≤ yearOf t := (removeYears_spec 1970 (dayOf t)).1
  obtain ⟨f, htm, hmonths, hpos, hhour, hminute, hsecond⟩ := gmtime_ofFields ht (by omega)
  obtain ⟨f', htm', hmonths', hpos', hhour', hminute', hsecond'⟩ :=
    gmtime_ofFields (show 0 ≤ t' by omega) hyear
  refine ⟨f, f', htm, htm', ?_⟩
  apply fields_lt
  simp only [Tm.ofFields]
  obtain hday | hday := hday
  · obtain hlater | ⟨hsame, hyearDay⟩ := yearOf_mono hday
    · exact .inl (by omega)
    · -- in one year the month loop is told the same for both days
      have hgrow := removeMonths_strictMono (yearOf t - 1900) 12 0 hyearDay
      dsimp only at hgrow
      rw [hmonths, hsame, hmonths', toLex_lt_toLex] at hgrow
      dsimp only at hgrow
      omega
  · have hsame : yearOf t = yearOf t' := by rw [yearOf_eq, yearOf_eq, hday]
    rw [hsame, hday, hmonths', Prod.mk.injEq] at hmonths
    have htime : t.toNat < t'.toNat := by omega
    simp only [dayOf] at hday
    omega

/-- **Later instants have larger fields**, in the order of the units, as long as the year fits into
`tm_year`; and what is written of them differs. -/
theorem gmtime_strictMono {t t' : ℤ} (ht : 0 ≤ t) (hlt : t < t') (hyear : yearOf t' - 1900 < 2 ^ 31) :
    ∃ tm tm', gmtime (some t) = some tm ∧ gmtime (some t') = some tm' ∧ tm.fields < tm'.fields ∧
      putDateTime tm ≠ putDateTime tm' := by
  obtain ⟨f, f', htm, htm', hfields⟩ := ofFields_later ht hlt hyear
  refine ⟨_, _, htm, htm', hfields, fun htext => ?_⟩
  obtain ⟨hyearText, hfieldsText⟩ := putDateTime_ofFields_injective htext
  rw [hyearText, hfieldsText] at hfields
  exact List.lt_irrefl _ hfields

/-- From the last second of the year 2000 to the first of 2001, across a thirteenth month. -/
theorem new_year_2001_later :
    (0 : ℤ) ≤ 978307199 ∧ yearOf 978307200 - 1900 < 2 ^ 31 ∧
      ∃ tm tm', gmtime (some 978307199) = some tm ∧ gmtime (some 978307200) = some tm' ∧
        tm.fields < tm'.fields ∧ putDateTime tm ≠ putDateTime tm' := by
  have hdays : daysBeforeYear 2002 = 11688 := by decide
  have hbefore : yearOf 978307200 < 2002 := yearOf_lt (by decide) (by rw [hdays]; decide)
  have hyear : yearOf 978307200 - 1900 < 2 ^ 31 := by omega
  exact ⟨by decide, hyear, gmtime_strictMono (by decide) (by decide) hyear⟩

end EnvoyWasmFilters.AwsLambda
