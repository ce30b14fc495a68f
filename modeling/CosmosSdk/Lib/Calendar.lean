import Mathlib

/-!
# The proleptic Gregorian calendar

Days are counted from 1970-01-01 (`daysFromCivil`, `civilFromDays`), as the time of a clock
that counts them from the Unix epoch.  A year has 365 days, a leap day every fourth year but
in the centuries not divisible by 400.

Counted with the year starting on March 1, the leap day is the last day of a year, and the
first day of the year `y` is `yearStart y` days after 0000-03-01.  A day count splits into
cycles of 400 years, of which the last century has the extra leap day, of 4 years within a
century, of which the last year has the leap day, and of a year (`yearAndDay`): the shifted
year and the day within it, which `yearAndDay_spec` characterises.  The month and its day
follow from the day of the shifted year (`monthAndDay`), by the month lengths
31, 30, 31, 30, 31, 31, 30, 31, 30, 31, 31 from March.

Counting a date's days back (`daysFromCivil`) undoes the split (`daysFromCivil_civilFromDays`);
the split is strictly monotone for the order of dates, year, then month, then day
(`civilFromDays_strictMono`), and its dates are dates of the calendar
(`civilFromDays_valid`).
-/

namespace Calendar

/-- The leap years of the Gregorian calendar. -/
def IsLeap (y : ℤ) : Prop := y % 4 = 0 ∧ (y % 100 ≠ 0 ∨ y % 400 = 0)

instance : DecidablePred IsLeap := fun _ => inferInstanceAs (Decidable (_ ∧ _))

/-- The days of the months before each month of a year that is not leap, and of the year. -/
def daysBefore : List ℤ := [0, 31, 59, 90, 120, 151, 181, 212, 243, 273, 304, 334, 365]

/-- The days of month `m` (`1` to `12`) of year `y`. -/
def daysIn (m y : ℤ) : ℤ :=
  if m = 2 ∧ IsLeap y then 29
  else daysBefore.getD m.toNat 0 - daysBefore.getD (m - 1).toNat 0

/-- The days from 0000-03-01 to March 1 of the year `y`. -/
def yearStart (y : ℤ) : ℤ := 365 * y + y / 4 - y / 100 + y / 400

/-- The shifted year, starting on March 1, of the day `z` days after 0000-03-01, and the day
within it: cycles of 400 years, of 100 (the last one a day longer), of 4, and of one (the last
one a day longer). -/
def yearAndDay (z : ℤ) : ℤ × ℤ :=
  let era := z / 146097
  let doe := z % 146097
  let c := min (doe / 36524) 3
  let doc := doe - 36524 * c
  let q := doc / 1461
  let doq := doc % 1461
  let yr := min (doq / 365) 3
  (400 * era + 100 * c + 4 * q + yr, doq - 365 * yr)

/-- The month of a shifted year, March being `0`, and the day of the month, of the day `doy`
of the year. -/
def monthAndDay (doy : ℤ) : ℤ × ℤ :=
  let mp := (5 * doy + 2) / 153
  (mp, doy - (153 * mp + 2) / 5 + 1)

/-- The date, year, month (`1` to `12`) and day, of the day `z` days after 1970-01-01. -/
def civilFromDays (z : ℤ) : ℤ × ℤ × ℤ :=
  let yd := yearAndDay (z + 719468)
  let md := monthAndDay yd.2
  if md.1 < 10 then (yd.1, md.1 + 3, md.2) else (yd.1 + 1, md.1 - 9, md.2)

/-- The days from 1970-01-01 to the date. -/
def daysFromCivil (y m d : ℤ) : ℤ :=
  let y := if m ≤ 2 then y - 1 else y
  let mp := if m ≤ 2 then m + 9 else m - 3
  yearStart y + (153 * mp + 2) / 5 + d - 1 - 719468

/-- The order of dates: the year, then the month, then the day. -/
def dateKey (date : ℤ × ℤ × ℤ) : ℤ ×ₗ ℤ ×ₗ ℤ := toLex (date.1, toLex date.2)

/-! ### Years -/

/-- Four hundred years later is 146097 days later. -/
theorem yearStart_cycle (e r : ℤ) (hr : 0 ≤ r) (hr' : r < 400) :
    yearStart (400 * e + r) = 146097 * e + yearStart r := by
  unfold yearStart
  omega

/-- Within a 400-year cycle: 36524 days a century, 1461 days four years, 365 a year. -/
theorem yearStart_within_cycle {c q yr : ℤ} (hc : 0 ≤ c ∧ c ≤ 3) (hq : 0 ≤ q ∧ q ≤ 24)
    (hyr : 0 ≤ yr ∧ yr ≤ 3) : yearStart (100 * c + 4 * q + yr) = 36524 * c + 1461 * q + 365 * yr := by
  unfold yearStart
  omega

theorem yearStart_mono {a b : ℤ} (h : a ≤ b) : yearStart a ≤ yearStart b := by
  unfold yearStart
  omega

/-- A shifted year has 366 days when the calendar year it ends in is leap, and 365 else. -/
theorem yearStart_succ (y : ℤ) :
    yearStart (y + 1) = yearStart y + if IsLeap (y + 1) then 366 else 365 := by
  unfold yearStart IsLeap
  split_ifs <;> omega

/-- The parts of a day `doe` of a 400-year cycle: centuries `c`, 4-year cycles `q`, years `yr`
and the day `doy` of the year, which is the leap day only at the end of a 4-year cycle that is
not the end of a century, or at the end of the cycle. -/
structure CycleSplit (doe c q yr doy : ℤ) : Prop where
  c_range : 0 ≤ c ∧ c ≤ 3
  q_range : 0 ≤ q ∧ q ≤ 24
  yr_range : 0 ≤ yr ∧ yr ≤ 3
  doy_nonneg : 0 ≤ doy
  eq : doe = 36524 * c + 1461 * q + 365 * yr + doy
  doy_le : doy ≤ 364 ∨ doy = 365 ∧ yr = 3 ∧ (q < 24 ∨ c = 3)

theorem cycleSplit {doe : ℤ} (h0 : 0 ≤ doe) (h1 : doe < 146097) :
    let c := min (doe / 36524) 3
    let doc := doe - 36524 * c
    let yr := min (doc % 1461 / 365) 3
    CycleSplit doe c (doc / 1461) yr (doc % 1461 - 365 * yr) := by
  intro c doc yr
  have hc : c = min (doe / 36524) 3 := rfl
  have hdoc : doc = doe - 36524 * c := rfl
  have hyr : yr = min (doc % 1461 / 365) 3 := rfl
  constructor <;> omega

/-- The shifted year of a day count and the day within it: the day is counted from the start
of the year, and falls before the start of the next. -/
theorem yearAndDay_spec (z : ℤ) :
    yearStart (yearAndDay z).1 + (yearAndDay z).2 = z ∧ 0 ≤ (yearAndDay z).2 ∧
      z < yearStart ((yearAndDay z).1 + 1) := by
  have hsplit := cycleSplit (Int.emod_nonneg z (by decide : (146097 : ℤ) ≠ 0))
    (Int.emod_lt_of_pos z (by decide))
  unfold yearAndDay
  dsimp only at hsplit ⊢
  generalize min (z % 146097 / 36524) 3 = c at hsplit ⊢
  generalize (z % 146097 - 36524 * c) / 1461 = q at hsplit ⊢
  generalize min ((z % 146097 - 36524 * c) % 1461 / 365) 3 = yr at hsplit ⊢
  generalize (z % 146097 - 36524 * c) % 1461 - 365 * yr = doy at hsplit ⊢
  obtain ⟨hc, hq, hyr, hdoy0, heq, hdoy⟩ := hsplit
  -- the start of the year, cycle by cycle
  have hstart : yearStart (400 * (z / 146097) + 100 * c + 4 * q + yr) =
      146097 * (z / 146097) + 36524 * c + 1461 * q + 365 * yr := by
    rw [show 400 * (z / 146097) + 100 * c + 4 * q + yr =
        400 * (z / 146097) + (100 * c + 4 * q + yr) by ring,
      yearStart_cycle _ _ (by omega) (by omega), yearStart_within_cycle hc hq hyr]
    ring
  have hnext := yearStart_succ (400 * (z / 146097) + 100 * c + 4 * q + yr)
  refine ⟨by omega, hdoy0, ?_⟩
  -- the leap day closes a leap year only
  unfold IsLeap at hnext
  split_ifs at hnext with hleap
  · omega
  · omega

/-- The day of a shifted year is one of its 365 or 366. -/
theorem yearAndDay_le (z : ℤ) : (yearAndDay z).2 ≤ 365 := by
  obtain ⟨heq, -, hlt⟩ := yearAndDay_spec z
  have hnext := yearStart_succ (yearAndDay z).1
  split_ifs at hnext <;> omega

/-- A later day count is in a later shifted year, or later in the same year. -/
theorem yearAndDay_lt {a b : ℤ} (hab : a < b) :
    (yearAndDay a).1 < (yearAndDay b).1 ∨
      (yearAndDay a).1 = (yearAndDay b).1 ∧ (yearAndDay a).2 < (yearAndDay b).2 := by
  obtain ⟨heqa, hnna, hlta⟩ := yearAndDay_spec a
  obtain ⟨heqb, -, hltb⟩ := yearAndDay_spec b
  rcases lt_trichotomy (yearAndDay a).1 (yearAndDay b).1 with h | h | h
  · exact .inl h
  · refine .inr ⟨h, ?_⟩
    rw [h] at heqa
    omega
  -- a later year starts after the end of the earlier one
  · have := yearStart_mono (show (yearAndDay b).1 + 1 ≤ (yearAndDay a).1 by omega)
    omega

/-! ### Months -/

/-- The month of a day of a shifted year and the day of the month, within their ranges; the
day of the month counted back is the day of the year. -/
theorem monthAndDay_spec {doy : ℤ} (h0 : 0 ≤ doy) (h1 : doy ≤ 365) :
    0 ≤ (monthAndDay doy).1 ∧ (monthAndDay doy).1 ≤ 11 ∧ 1 ≤ (monthAndDay doy).2 ∧
      (153 * (monthAndDay doy).1 + 2) / 5 + (monthAndDay doy).2 - 1 = doy := by
  unfold monthAndDay
  dsimp only
  omega

/-- A later day of the shifted year is in a later month, or later in the same month. -/
theorem monthAndDay_lt {a b : ℤ} (hab : a < b) :
    (monthAndDay a).1 < (monthAndDay b).1 ∨
      (monthAndDay a).1 = (monthAndDay b).1 ∧ (monthAndDay a).2 < (monthAndDay b).2 := by
  unfold monthAndDay
  dsimp only
  omega

/-- The day of a month of the shifted year is within the month: 30 or 31 days from March to
January, and February up to its 28th day, its 29th only on the last day of a year of 366. -/
theorem monthAndDay_le {doy : ℤ} (h0 : 0 ≤ doy) (h1 : doy ≤ 365) :
    (monthAndDay doy).2 ≤ (153 * ((monthAndDay doy).1 + 1) + 2) / 5 - (153 * (monthAndDay doy).1 + 2) / 5
      ∧ ((monthAndDay doy).1 = 11 → (monthAndDay doy).2 ≤ 28 ∨ doy = 365) := by
  unfold monthAndDay
  dsimp only
  omega

/-- The months of a shifted year from March to December: 31 days, then 30, 31, 30, 31. -/
theorem daysIn_of_shifted {mp : ℤ} (h0 : 0 ≤ mp) (h1 : mp ≤ 9) (y : ℤ) :
    daysIn (mp + 3) y = (153 * (mp + 1) + 2) / 5 - (153 * mp + 2) / 5 := by
  interval_cases mp <;> simp [daysIn, daysBefore]

theorem daysIn_january (y : ℤ) : daysIn 1 y = 31 := by
  simp [daysIn, daysBefore]

theorem daysIn_february (y : ℤ) : daysIn 2 y = if IsLeap y then 29 else 28 := by
  unfold daysIn
  split_ifs <;> simp_all [daysBefore]

/-- No month has more than 31 days. -/
theorem daysIn_le {m : ℤ} (h1 : 1 ≤ m) (h12 : m ≤ 12) (y : ℤ) : daysIn m y ≤ 31 := by
  unfold daysIn
  split_ifs
  · decide
  · interval_cases m <;> decide

/-! ### Dates -/

/-- Counting the days of the date of a day count gives the count back. -/
theorem daysFromCivil_civilFromDays (z : ℤ) :
    daysFromCivil (civilFromDays z).1 (civilFromDays z).2.1 (civilFromDays z).2.2 = z := by
  obtain ⟨heq, hnonneg, hlt⟩ := yearAndDay_spec (z + 719468)
  obtain ⟨hmp0, hmp11, -, hback⟩ := monthAndDay_spec hnonneg (yearAndDay_le _)
  unfold civilFromDays daysFromCivil
  dsimp only
  -- March to December keep the shifted year, January and February end it
  split_ifs with hmp hm hm <;> dsimp only at hm ⊢
  · omega
  · omega
  · rw [add_sub_cancel_right]
    omega
  · omega

/-- The date of a later day count is later. -/
theorem civilFromDays_strictMono : StrictMono fun z => dateKey (civilFromDays z) := by
  intro a b hab
  have hyear := yearAndDay_lt (show a + 719468 < b + 719468 by omega)
  obtain ⟨hmpa0, hmpa11, hda, -⟩ :=
    monthAndDay_spec (yearAndDay_spec (a + 719468)).2.1 (yearAndDay_le _)
  obtain ⟨hmpb0, hmpb11, hdb, -⟩ :=
    monthAndDay_spec (yearAndDay_spec (b + 719468)).2.1 (yearAndDay_le _)
  -- within one shifted year, the months and days are in order
  have hmonth : (yearAndDay (a + 719468)).1 = (yearAndDay (b + 719468)).1 →
      (monthAndDay (yearAndDay (a + 719468)).2).1 < (monthAndDay (yearAndDay (b + 719468)).2).1 ∨
        (monthAndDay (yearAndDay (a + 719468)).2).1 = (monthAndDay (yearAndDay (b + 719468)).2).1 ∧
          (monthAndDay (yearAndDay (a + 719468)).2).2 < (monthAndDay (yearAndDay (b + 719468)).2).2 :=
    fun hy => monthAndDay_lt (hyear.resolve_left (by omega)).2
  show dateKey (civilFromDays a) < dateKey (civilFromDays b)
  unfold civilFromDays
  dsimp only
  -- January and February belong to the calendar year after the shifted one
  split_ifs <;> simp only [dateKey, Prod.Lex.toLex_lt_toLex] <;> omega

/-- The date of a day count is a date of the calendar: its month is one of the twelve, and
its day one of the month's, February 29 only of a leap year. -/
theorem civilFromDays_valid (z : ℤ) :
    1 ≤ (civilFromDays z).2.1 ∧ (civilFromDays z).2.1 ≤ 12 ∧ 1 ≤ (civilFromDays z).2.2 ∧
      (civilFromDays z).2.2 ≤ daysIn (civilFromDays z).2.1 (civilFromDays z).1 := by
  obtain ⟨heq, hnonneg, hlt⟩ := yearAndDay_spec (z + 719468)
  have hnext := yearStart_succ (yearAndDay (z + 719468)).1
  obtain ⟨hmp0, hmp11, hd1, hback⟩ := monthAndDay_spec hnonneg (yearAndDay_le _)
  obtain ⟨hdle, hfeb⟩ := monthAndDay_le hnonneg (yearAndDay_le _)
  unfold civilFromDays
  dsimp only
  split_ifs with hmp <;> dsimp only
  · rw [daysIn_of_shifted hmp0 (by omega)]
    omega
  · rcases show (monthAndDay (yearAndDay (z + 719468)).2).1 = 10 ∨
        (monthAndDay (yearAndDay (z + 719468)).2).1 = 11 by omega with h | h
    · rw [h, show (10 : ℤ) - 9 = 1 by rfl, daysIn_january]
      omega
    -- February has its 29th day on the last day of a shifted year of 366 days
    · have hday := hfeb h
      rw [h, show (11 : ℤ) - 9 = 2 by rfl, daysIn_february]
      split_ifs at hnext ⊢ <;> omega

end Calendar
