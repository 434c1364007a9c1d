import EnvoyWasmFilters.AwsLambda.Gmtime
import EnvoyWasmFilters.Library.WhileLoop

/-!
# The year loop of `gmtime`

`for (year = 1970; deltat >= daysInYear(year); year++) deltat -= daysInYear(year);` as a loop on the pair
of its two variables.

* `YearSplit` — a number of days as years from 1970 on and the days that remain;
* `yearSplit_unique` — there is one such split;
* `yearLoop_splits` — **the loop ends, in the split of the days**.
-/

namespace EnvoyWasmFilters.AwsLambda

open Gregorian WhileLoop

/-- The loop's condition, on `year` and `deltat`. -/
def yearGuard (s : ℤ × ℕ) : Prop := daysInYear s.1 ≤ s.2

/-- The loop's body, and `year++`. -/
def yearRound (s : ℤ × ℕ) : ℤ × ℕ := (s.1 + 1, s.2 - daysInYear s.1)

/-- Each round lowers the number of days. -/
theorem yearRound_lt (s : ℤ × ℕ) (h : yearGuard s) : (yearRound s).2 < s.2 := by
  have hpos := daysInYear_pos s.1
  simp only [yearGuard] at h
  simp only [yearRound]
  omega

/-- The days of `d` in the years from 1970 to `year`, the last one left out, and those that remain. -/
structure YearSplit (d : ℕ) (s : ℤ × ℕ) : Prop where
  epoch : 1970 ≤ s.1
  sum : (d : ℤ) = s.2 + 365 * (s.1 - 1970) + (leapYearsThrough (s.1 - 1) - leapYearsThrough 1969)

theorem yearSplit_iff {d : ℕ} {s : ℤ × ℕ} :
    YearSplit d s ↔ 1970 ≤ s.1 ∧ daysBeforeYear s.1 + s.2 = d := by
  constructor
  · rintro ⟨hepoch, hsum⟩
    refine ⟨hepoch, ?_⟩
    rw [daysBeforeYear]
    omega
  · rintro ⟨hepoch, hsum⟩
    refine ⟨hepoch, ?_⟩
    rw [daysBeforeYear] at hsum
    omega

theorem yearSplit_start (d : ℕ) : YearSplit d (1970, d) := by
  rw [yearSplit_iff, daysBeforeYear_epoch]
  exact ⟨le_refl _, zero_add _⟩

/-- **One round** moves the days of a year from the rest to the years. -/
theorem yearSplit_round {d : ℕ} {s : ℤ × ℕ} (hs : YearSplit d s) (h : yearGuard s) :
    YearSplit d (yearRound s) := by
  obtain ⟨hepoch, hsum⟩ := yearSplit_iff.mp hs
  have hlength := daysInYear_eq s.1
  simp only [yearGuard] at h
  rw [yearSplit_iff]
  simp only [yearRound]
  rw [daysBeforeYear_succ]
  omega

/-- There is one split with less than a year remaining. -/
theorem yearSplit_unique {d : ℕ} {s s' : ℤ × ℕ} (hs : YearSplit d s) (hlt : s.2 < daysInYear s.1)
    (hs' : YearSplit d s') (hlt' : s'.2 < daysInYear s'.1) : s = s' := by
  obtain ⟨-, hsum⟩ := yearSplit_iff.mp hs
  obtain ⟨-, hsum'⟩ := yearSplit_iff.mp hs'
  rw [daysInYear_eq] at hlt hlt'
  have hyear : s.1 = s'.1 := year_unique hlt hlt' (by omega)
  rw [hyear] at hsum
  exact Prod.ext hyear (by omega)

/-- The recursion makes the rounds of the loop. -/
theorem removeYears_of_exitsAfter {rounds : ℕ} {s t : ℤ × ℕ}
    (h : ExitsAfter yearGuard yearRound rounds s t) : removeYears s.1 s.2 = t := by
  induction h with
  | exit hguard => exact removeYears_of_lt (not_le.mp hguard)
  | round hguard _ ih =>
    rw [removeYears_of_not_lt (not_lt.mpr hguard)]
    exact ih

/-- **The year loop ends**, for every number of days, in the one year from 1970 on and the one remainder
that is less than that year, into which the days are split. -/
theorem yearLoop_splits (d : ℕ) :
    (∃ rounds, ExitsAfter yearGuard yearRound rounds (1970, d) (removeYears 1970 d)) ∧
      (YearSplit d (removeYears 1970 d) ∧
        (removeYears 1970 d).2 < daysInYear (removeYears 1970 d).1) ∧
      ∀ s, YearSplit d s ∧ s.2 < daysInYear s.1 → s = removeYears 1970 d := by
  obtain ⟨rounds, t, hexits⟩ := exists_exitsAfter Prod.snd yearRound_lt (1970, d)
  obtain rfl := removeYears_of_exitsAfter hexits
  have hsplit : YearSplit d (removeYears 1970 d) :=
    hexits.invariant (fun s hs h => yearSplit_round hs h) (yearSplit_start d)
  have hlt : (removeYears 1970 d).2 < daysInYear (removeYears 1970 d).1 :=
    not_le.mp hexits.exit_state
  refine ⟨⟨rounds, hexits⟩, ⟨hsplit, hlt⟩, fun s hs => ?_⟩
  exact yearSplit_unique hs.1 hs.2 hsplit hlt

end EnvoyWasmFilters.AwsLambda
