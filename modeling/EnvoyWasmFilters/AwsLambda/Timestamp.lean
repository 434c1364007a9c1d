import Mathlib.Algebra.Order.Floor.Semifield
import EnvoyWasmFilters.Library.Decimal
import EnvoyWasmFilters.AwsLambda.Authenticator
import EnvoyWasmFilters.AwsLambda.Target

/-!
# The time that is signed

`sign` divides the clock's nanoseconds by `10e9`, which is ten thousand million.

* `putDateTime_injective` — the instant can be read off what `x-amz-date` says;
* `formatTime_of_lt` — before the year 2000 what is written is the civil time of the instant;
* `signsInstant_iff` — the time signed is the clock's in the first second after the epoch only.
-/

namespace EnvoyWasmFilters.AwsLambda

open Gregorian

/-! ### Renderings -/

theorem decimal_natCast (n : ℕ) : decimal n = Nat.toDigits 10 n := by
  simp only [decimal]
  rw [if_neg (by omega), Int.toNat_natCast]

/-- Two digits are a numeral padded to the width 2. -/
theorem twoDigits_natCast (n : ℕ) : twoDigits n = Decimal.padded 2 n := by
  have hlength : (Nat.toDigits 10 n).length ≤ 1 ↔ n < 10 :=
    Nat.length_toDigits_le_iff (by decide) (by decide)
  have hpos : 0 < (Nat.toDigits 10 n).length := Nat.length_toDigits_pos
  simp only [twoDigits, Decimal.padded]
  rw [decimal_natCast]
  by_cases h : n < 10
  · rw [if_pos (by omega), show 2 - (Nat.toDigits 10 n).length = 1 by omega]
    rfl
  · rw [if_neg (by omega), show 2 - (Nat.toDigits 10 n).length = 0 by omega]
    rfl

/-- The fields that follow the year, as long as each is written with two digits. -/
@[ext] structure ShortFields where
  month : ℕ
  day : ℕ
  hour : ℕ
  minute : ℕ
  second : ℕ
  month_lt : month + 1 < 10 ^ 2
  day_lt : day < 10 ^ 2
  hour_lt : hour < 10 ^ 2
  minute_lt : minute < 10 ^ 2
  second_lt : second < 10 ^ 2

/-- What follows the year in a date and time. -/
def ShortFields.digits (f : ShortFields) : Str :=
  Decimal.padded 2 (f.month + 1) ++ (Decimal.padded 2 f.day ++ ('T' :: (Decimal.padded 2 f.hour ++
    (Decimal.padded 2 f.minute ++ (Decimal.padded 2 f.second ++ "Z")))))

theorem ShortFields.length_digits (f : ShortFields) : f.digits.length = 12 := by
  simp only [ShortFields.digits, List.length_append, List.length_cons,
    Decimal.length_padded (Nat.succ_pos 1), f.month_lt, f.day_lt, f.hour_lt, f.minute_lt, f.second_lt]
  rfl

/-- The fields can be read off, one after the other. -/
theorem ShortFields.digits_injective {f g : ShortFields} (h : f.digits = g.digits) : f = g := by
  have hw : 0 < 2 := Nat.succ_pos 1
  simp only [ShortFields.digits] at h
  obtain ⟨hmonth, h⟩ := Decimal.padded_append_inj hw f.month_lt g.month_lt h
  obtain ⟨hday, h⟩ := Decimal.padded_append_inj hw f.day_lt g.day_lt h
  obtain ⟨hhour, h⟩ := Decimal.padded_append_inj hw f.hour_lt g.hour_lt (List.cons.inj h).2
  obtain ⟨hminute, h⟩ := Decimal.padded_append_inj hw f.minute_lt g.minute_lt h
  obtain ⟨hsecond, -⟩ := Decimal.padded_append_inj hw f.second_lt g.second_lt h
  exact ShortFields.ext (Nat.succ.inj hmonth) hday hhour hminute hsecond

/-- A year and short fields as a `struct tm`. -/
def Tm.ofFields (year : ℕ) (f : ShortFields) : Tm where
  tmSec := f.second
  tmMin := f.minute
  tmHour := f.hour
  tmMday := f.day
  tmMon := f.month
  tmYear := year - 1900

/-- A date and time as numerals. -/
theorem putDateTime_ofFields (year : ℕ) (f : ShortFields) :
    putDateTime (Tm.ofFields year f) = Nat.toDigits 10 year ++ f.digits := by
  simp only [putDateTime, putDate, Tm.ofFields, ShortFields.digits]
  rw [show (year : ℤ) - 1900 + 1900 = year by omega, decimal_natCast,
    show (f.month : ℤ) + 1 = ((f.month + 1 : ℕ) : ℤ) by omega, twoDigits_natCast, twoDigits_natCast,
    twoDigits_natCast, twoDigits_natCast, twoDigits_natCast]
  simp only [List.append_assoc]
  rfl

/-- The year is what stands before the last twelve characters. -/
theorem putDateTime_ofFields_injective {year year' : ℕ} {f f' : ShortFields}
    (h : putDateTime (Tm.ofFields year f) = putDateTime (Tm.ofFields year' f')) :
    year = year' ∧ f = f' := by
  rw [putDateTime_ofFields, putDateTime_ofFields] at h
  have hlength : f.digits.length = f'.digits.length := by rw [f.length_digits, f'.length_digits]
  obtain ⟨hyears, hrest⟩ := List.append_inj' h hlength
  exact ⟨Decimal.toDigits_injective hyears, ShortFields.digits_injective hrest⟩

/-- The fields of a civil time have two digits each. -/
def ShortFields.ofCivil (c : CivilTime) : ShortFields where
  month := c.month
  day := c.day
  hour := c.hour
  minute := c.minute
  second := c.second
  month_lt := by have hmonth := c.month_lt; omega
  day_lt := by
    have hday := c.day_le
    have hlength := monthLength_le c.year c.month
    omega
  hour_lt := by have hhour := c.hour_lt; omega
  minute_lt := by have hminute := c.minute_lt; omega
  second_lt := by have hsecond := c.second_lt; omega

theorem ofCivil_eq_ofFields {c : CivilTime} {year : ℕ} (hyear : c.year = year) :
    Tm.ofCivil c = Tm.ofFields year (ShortFields.ofCivil c) := by
  simp only [Tm.ofCivil, hyear]
  rfl

/-- **The time can be read off.** -/
theorem putDateTime_injective {c c' : CivilTime} (hc : 0 ≤ c.instant) (hc' : 0 ≤ c'.instant)
    (h : putDateTime (Tm.ofCivil c) = putDateTime (Tm.ofCivil c')) : c = c' := by
  have hge := CivilTime.epoch_le_year hc
  have hge' := CivilTime.epoch_le_year hc'
  have hnat : c.year = c.year.toNat := by omega
  have hnat' : c'.year = c'.year.toNat := by omega
  rw [ofCivil_eq_ofFields hnat, ofCivil_eq_ofFields hnat'] at h
  obtain ⟨hyears, hfields⟩ := putDateTime_ofFields_injective h
  obtain ⟨hmonth, hday, hhour, hminute, hsecond⟩ := ShortFields.ext_iff.mp hfields
  exact CivilTime.ext (by rw [hnat, hnat', hyears]) hmonth hday hhour hminute hsecond

/-! ### What `sign` is told -/

/-- The division by `10e9`. -/
theorem signTime_eq (systemTime : ℕ) : signTime systemTime = systemTime / 10 ^ 10 := by
  have hscale : (10e9 : ℚ) = ((10 ^ 10 : ℕ) : ℚ) := by norm_num
  rw [signTime, hscale]
  exact Nat.floor_div_eq_div systemTime (10 ^ 10)

section

variable [Platform]

/-- A time below `2 ^ 31` is a `time_t`. -/
theorem timeT_of_lt {now : ℕ} (h : now < 2 ^ 31) : timeT now = now := by
  have hwidth : 2 ^ 32 ≤ 2 ^ Platform.timeTBits :=
    Nat.pow_le_pow_right (by decide) Platform.timeTBits_ge
  simp only [timeT]
  exact Int.bmod_eq_of_le_mul_two (by omega) (by omega)

/-- **Before the year 2000** what is written is the civil time of the instant. -/
theorem formatTime_of_lt {c : CivilTime} {now : ℕ} (hc : c.instant = now) (h : now < 946684800)
    (format : Str) (put : Tm → Str) : formatTime format put now = put (Tm.ofCivil c) := by
  obtain ⟨c', hinstant, hgmtime⟩ :=
    gmtime_before_2000 (show (0 : ℤ) ≤ now by omega) (show (now : ℤ) < 946684800 by omega)
  have hsame : c' = c := CivilTime.instant_injective (hinstant.trans hc.symm)
  simp only [formatTime]
  rw [timeT_of_lt (by omega), hgmtime, hsame]

/-! ### The time signed -/

variable [Sha2]

/-- The string `signWithTime` has signed, in pieces. -/
def Signing.stringToSign (signing : Signing) : List Str :=
  AwsLambda.stringToSign signing.requestDateTime signing.credentialScope
    signing.hashedCanonicalRequest

/-- `sign` adds the instant `t` as `x-amz-date`, and signs it: the date and time of the string to sign
are those of `t`, and so is the date of its credential scope. -/
def SignsInstant (auth : AwsAuthenticator) (w : WasmHost) (requestHeaders : Option HeaderMap)
    (headersToSign : HeaderList) (region : Str) (systemTime : ℕ) (t : ℤ) : Prop :=
  ∃ c : CivilTime, c.instant = t ∧
    (∃ authorization,
      (auth.sign w requestHeaders headersToSign region systemTime).2.requestHeaders
        = w.requestHeaders ++
          [(dateHeader, putDateTime (Tm.ofCivil c)), ("authorization", authorization)]) ∧
    ∃ hashedCanonicalRequest,
      (auth.signWithTime w requestHeaders headersToSign region (signTime systemTime)).stringToSign
        = stringToSign (putDateTime (Tm.ofCivil c))
            (auth.getCredntialScope region (putDate (Tm.ofCivil c))) hashedCanonicalRequest

/-- What `sign` adds and signs, given the civil time of what it is told. -/
theorem sign_of_formatTime (auth : AwsAuthenticator) (w : WasmHost)
    (requestHeaders : Option HeaderMap) (headersToSign : HeaderList) (region : Str) {systemTime : ℕ}
    {c : CivilTime}
    (hformat : ∀ format put, formatTime format put (signTime systemTime) = put (Tm.ofCivil c)) :
    SignsInstant auth w requestHeaders headersToSign region systemTime c.instant := by
  let signing := auth.signWithTime w requestHeaders headersToSign region (signTime systemTime)
  refine ⟨c, rfl, ⟨signing.authorization, ?_⟩, signing.hashedCanonicalRequest, ?_⟩
  · rw [sign_requestHeaders, hformat]
  · simp only [Signing.stringToSign]
    rw [signWithTime_credentialScope, getCredntialScopeDate, hformat, ← hformat _ putDateTime]
    rfl

/-- Only one instant is signed. -/
theorem signsInstant_unique {auth : AwsAuthenticator} {w : WasmHost}
    {requestHeaders : Option HeaderMap} {headersToSign : HeaderList} {region : Str} {systemTime : ℕ}
    {t t' : ℤ} (ht : 0 ≤ t) (ht' : 0 ≤ t')
    (h : SignsInstant auth w requestHeaders headersToSign region systemTime t)
    (h' : SignsInstant auth w requestHeaders headersToSign region systemTime t') : t = t' := by
  obtain ⟨c, hinstant, ⟨authorization, hheaders⟩, -⟩ := h
  obtain ⟨c', hinstant', ⟨authorization', hheaders'⟩, -⟩ := h'
  have hentries := List.append_cancel_left (hheaders.symm.trans hheaders')
  have hdateTime : putDateTime (Tm.ofCivil c) = putDateTime (Tm.ofCivil c') :=
    congrArg Prod.snd (List.cons.inj hentries).1
  have hsame := putDateTime_injective (hinstant ▸ ht) (hinstant' ▸ ht') hdateTime
  rw [← hinstant, ← hinstant', hsame]

/-- **The time signed** is a tenth of the clock's. -/
theorem sign_signsInstant (auth : AwsAuthenticator) (w : WasmHost)
    (requestHeaders : Option HeaderMap) (headersToSign : HeaderList) (region : Str) {systemTime : ℕ}
    (h : systemTime < 2 ^ 63) :
    SignsInstant auth w requestHeaders headersToSign region systemTime
      (systemTime / 10 ^ 10 : ℕ) := by
  have hsmall : signTime systemTime < 946684800 := by
    rw [signTime_eq]
    omega
  obtain ⟨c, hinstant, -⟩ := gmtime_before_2000
    (show (0 : ℤ) ≤ signTime systemTime by omega) (show (signTime systemTime : ℤ) < 946684800 by omega)
  have hformat := formatTime_of_lt hinstant hsmall
  rw [← signTime_eq, ← hinstant]
  exact sign_of_formatTime auth w requestHeaders headersToSign region hformat

/-- **The time signed is the clock's in the first second after the epoch only.** -/
theorem signsInstant_iff (auth : AwsAuthenticator) (w : WasmHost)
    (requestHeaders : Option HeaderMap) (headersToSign : HeaderList) (region : Str) {systemTime : ℕ}
    (h : systemTime < 2 ^ 63) :
    SignsInstant auth w requestHeaders headersToSign region systemTime (systemTime / 10 ^ 9 : ℕ)
      ↔ systemTime < 10 ^ 9 := by
  have hsigns := sign_signsInstant auth w requestHeaders headersToSign region h
  constructor
  · intro hclock
    have hsame := signsInstant_unique (Int.natCast_nonneg _) (Int.natCast_nonneg _) hclock hsigns
    omega
  · intro hearly
    have hzero : systemTime / 10 ^ 9 = systemTime / 10 ^ 10 := by omega
    rw [hzero]
    exact hsigns

end

/-- Half a second after the epoch. -/
theorem half_second_signed :
    500000000 < 2 ^ 63 ∧
      SignsInstant .new { requestHeaders := [("host", "a")] } none (createHeaderToSign ["host"])
        "us-east-1" 500000000 (500000000 / 10 ^ 9 : ℕ) :=
  ⟨by decide, (signsInstant_iff .new { requestHeaders := [("host", "a")] } none
    (createHeaderToSign ["host"]) "us-east-1" (by decide)).mpr (by decide)⟩

/-- At the beginning of 2020 an instant of the first hours of 1975 is signed. -/
theorem new_year_2020_misdated :
    SignsInstant .new { requestHeaders := [("host", "a")] } none (createHeaderToSign ["host"])
        "us-east-1" 1577836800000000000 157783680 ∧
      ¬ SignsInstant .new { requestHeaders := [("host", "a")] } none (createHeaderToSign ["host"])
        "us-east-1" 1577836800000000000 (1577836800000000000 / 10 ^ 9 : ℕ) := by
  have hsigns : SignsInstant .new { requestHeaders := [("host", "a")] } none
      (createHeaderToSign ["host"]) "us-east-1" 1577836800000000000 157783680 :=
    sign_signsInstant _ _ _ _ _ (by decide)
  refine ⟨hsigns, fun hclock => ?_⟩
  have hsame := signsInstant_unique (by decide) (by decide) hsigns hclock
  exact absurd hsame (by decide)

end EnvoyWasmFilters.AwsLambda
