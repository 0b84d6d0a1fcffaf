import Backtest.Time.Calendar
import Mathlib

/-!
# Days and dates

A day of an era lies in a century, there in a cycle of four years, there in a year that begins with
March, and only the last century, cycle and year may have a day more. From these parts it is read
off that every day has a date, that the date is a valid one within the calendar, and that it has
this day.

## Main definitions

* `IsDayOfYear` — a day of an era in the year from March on.
* `exists_isDayOfYear` — each of them is in the year that `ofDays` divides out.
* `toDays_ofDays` — the date of a day is on this day.
* `isValid_ofDays` — the days of the calendar have valid dates.
-/
namespace Backtest.Date

/-- The day `d` of the year `y` of an era, counted from March, is the day `n` of the era. Only the
year before a leap year's March has the day 365. -/
structure IsDayOfYear (n y d : Int) : Prop where
  year : 0 ≤ y ∧ y ≤ 399
  day : 0 ≤ d ∧ d ≤ 365
  eq : n = 365 * y + y / 4 - y / 100 + d
  leap : d = 365 → isLeapYear (y + 1) = true

theorem isLeapYear_iff {y : Int} :
    isLeapYear y = true ↔ (y % 4 = 0 ∧ y % 100 ≠ 0) ∨ y % 400 = 0 := by
  simp [isLeapYear]

/-- Leap years repeat with the eras. -/
theorem isLeapYear_add_era (y k : Int) : isLeapYear (y + k * 400) = isLeapYear y := by
  rw [Bool.eq_iff_iff, isLeapYear_iff, isLeapYear_iff]
  omega

/-- Dividing by the average lengths of centuries, cycles and years finds the year. -/
theorem exists_isDayOfYear {n : Int} (h0 : 0 ≤ n) (h1 : n < 146097) :
    ∃ y d, IsDayOfYear n y d ∧ (n - n / 1460 + n / 36524 - n / 146096) / 365 = y := by
  -- The last day of the era is one more in the fourth century.
  obtain ⟨c, r, hc, hr, hn⟩ : ∃ c r : Int, (0 ≤ c ∧ c ≤ 3) ∧
      (0 ≤ r ∧ (r ≤ 36523 ∨ (c = 3 ∧ r = 36524))) ∧ n = 36524 * c + r := by
    by_cases hlast : n = 146096
    · exact ⟨3, 36524, by omega, by omega, by omega⟩
    · exact ⟨n / 36524, n % 36524, by omega, by omega, by omega⟩
  obtain ⟨q, s, hq, hs, hqs⟩ : ∃ q s : Int, (0 ≤ q ∧ q ≤ 24) ∧ (0 ≤ s ∧ s ≤ 1460) ∧
      r = 1461 * q + s := ⟨r / 1461, r % 1461, by omega, by omega, by omega⟩
  -- The last day of a cycle is one more in its fourth year.
  obtain ⟨b, d, hb, hd, hbd⟩ : ∃ b d : Int, (0 ≤ b ∧ b ≤ 3) ∧
      (0 ≤ d ∧ (d ≤ 364 ∨ (b = 3 ∧ d = 365))) ∧ s = 365 * b + d := by
    by_cases hlast : s = 1460
    · exact ⟨3, 365, by omega, by omega, by omega⟩
    · exact ⟨s / 365, s % 365, by omega, by omega, by omega⟩
  have hfour : (100 * c + 4 * q + b) / 4 = 25 * c + q := by omega
  have hhundred : (100 * c + 4 * q + b) / 100 = c := by omega
  refine ⟨100 * c + 4 * q + b, d, ⟨by omega, by omega, by omega, fun hleap => ?_⟩, ?_⟩
  · rw [isLeapYear_iff]
    omega
  · obtain ⟨i, hi, hi1460⟩ : ∃ i, (i = 0 ∧ 24 * c + q + s ≤ 1459 ∨ i = 1 ∧ 1460 ≤ 24 * c + q + s) ∧
        n / 1460 = 25 * c + q + i := by
      by_cases hover : 24 * c + q + s ≤ 1459
      · exact ⟨0, .inl ⟨rfl, hover⟩, by omega⟩
      · exact ⟨1, .inr ⟨rfl, by omega⟩, by omega⟩
    by_cases hlast : n = 146096
    · subst hlast
      omega
    · have hcentury : n / 36524 = c := by omega
      have hera : n / 146096 = 0 := by omega
      rw [hi1460, hcentury, hera]
      omega

/-- Months from March on have 30 or 31 days, but for the last. -/
theorem month_bounds {d : Int} (h0 : 0 ≤ d) (h1 : d ≤ 365) :
    0 ≤ (5 * d + 2) / 153 ∧ (5 * d + 2) / 153 ≤ 11 ∧
      0 ≤ d - (153 * ((5 * d + 2) / 153) + 2) / 5 ∧
      d - (153 * ((5 * d + 2) / 153) + 2) / 5 ≤ 30 := by
  omega

/-- The parts of the date of a day. -/
theorem exists_ofDays (days : Int) : ∃ era y d : Int,
    days + 719468 = era * 146097 + (365 * y + y / 4 - y / 100 + d) ∧
      IsDayOfYear (365 * y + y / 4 - y / 100 + d) y d ∧
      ofDays days =
        let m := (5 * d + 2) / 153
        let month := if m < 10 then m + 3 else m - 9
        ⟨y + era * 400 + (if month ≤ 2 then 1 else 0), month.toNat,
          (d - (153 * m + 2) / 5 + 1).toNat⟩ := by
  obtain ⟨y, d, hday, hyear⟩ := exists_isDayOfYear
    (Int.emod_nonneg (days + 719468) (by decide : (146097 : Int) ≠ 0))
    (Int.emod_lt_of_pos _ (by decide))
  have heq := hday.eq
  refine ⟨(days + 719468) / 146097, y, d, by omega, heq ▸ hday, ?_⟩
  have hdiff : (days + 719468) % 146097 - (365 * y + y / 4 - y / 100) = d := by omega
  simp only [ofDays, hyear, hdiff]

/-- The date of a day is on this day. -/
theorem toDays_ofDays (days : Int) : toDays (ofDays days) = days := by
  obtain ⟨era, y, d, hdays, ⟨hy, hd, -, -⟩, hdate⟩ := exists_ofDays days
  obtain ⟨hm0, hm11, hday0, -⟩ := month_bounds hd.1 hd.2
  rw [hdate]
  generalize (5 * d + 2) / 153 = m at hm0 hm11 hday0
  have hyear : (y + era * 400) / 400 = era ∧ (y + era * 400) % 400 = y := by omega
  by_cases hm : m < 10
  · have hmonth : (((m + 3).toNat + 9) % 12 : Nat) = m := by omega
    have hlate : ¬ m + 3 ≤ 2 := by omega
    have hlate' : ¬ (m + 3).toNat ≤ 2 := by omega
    simp only [toDays, if_pos hm, if_neg hlate, if_neg hlate', Int.add_zero, hyear.1, hyear.2,
      hmonth]
    omega
  · have hmonth : (((m - 9).toNat + 9) % 12 : Nat) = m := by omega
    have hearly : m - 9 ≤ 2 := by omega
    have hearly' : (m - 9).toNat ≤ 2 := by omega
    simp only [toDays, if_neg hm, if_pos hearly, if_pos hearly', Int.add_sub_cancel, hyear.1,
      hyear.2, hmonth]
    omega

/-- The month of a date has the day, with February's last in leap years only. -/
theorem day_le_daysInMonth {y d m : Int} (hd : 0 ≤ d ∧ d ≤ 365) (hm : (5 * d + 2) / 153 = m)
    (hleap : d = 365 → isLeapYear (y + 1) = true) :
    d - (153 * m + 2) / 5 + 1 ≤ daysInMonth (if m < 10 then y else y + 1)
      (if m < 10 then m + 3 else m - 9).toNat := by
  obtain ⟨hm0, hm11, -, -⟩ := month_bounds hd.1 hd.2
  rw [hm] at hm0 hm11
  interval_cases m <;> simp [daysInMonth] <;> try omega
  split
  · omega
  · rename_i hcommon
    have : d ≠ 365 := fun h => hcommon (hleap h)
    omega

theorem firstDay_eq : firstDay = -96465292 := by decide

theorem lastDay_eq : lastDay = 95026236 := by decide

/-- The first and the last era of the calendar are not whole; the year changes after ten months. -/
theorem year_bounds (era : Int) {y d : Int} (hy : 0 ≤ y ∧ y ≤ 399) (hd : 0 ≤ d ∧ d ≤ 365)
    (hfirst : -95745824 ≤ era * 146097 + (365 * y + y / 4 - y / 100 + d))
    (hlast : era * 146097 + (365 * y + y / 4 - y / 100 + d) ≤ 95745704) :
    (d ≤ 305 → firstYear ≤ y + era * 400 ∧ y + era * 400 ≤ lastYear) ∧
      (¬ d ≤ 305 → firstYear ≤ y + era * 400 + 1 ∧ y + era * 400 + 1 ≤ lastYear) := by
  have hera : -656 ≤ era ∧ era ≤ 655 := by omega
  rw [firstYear, lastYear]
  by_cases hbottom : era = -656
  · subst hbottom
    omega
  · by_cases htop : era = 655
    · subst htop
      omega
    · omega

/-- The days of the calendar have valid dates. -/
theorem isValid_ofDays {days : Int} (h : firstDay ≤ days ∧ days ≤ lastDay) :
    (ofDays days).isValid = true := by
  obtain ⟨era, y, d, hdays, ⟨hy, hd, -, hleap⟩, hdate⟩ := exists_ofDays days
  obtain ⟨hm0, hm11, hday0, -⟩ := month_bounds hd.1 hd.2
  have hlength := day_le_daysInMonth (y := y + era * 400) hd rfl fun h365 => by
    rw [show y + era * 400 + 1 = y + 1 + era * 400 by omega, isLeapYear_add_era]
    exact hleap h365
  have hmonths : (5 * d + 2) / 153 < 10 ↔ d ≤ 305 := by omega
  rw [firstDay_eq, lastDay_eq] at h
  obtain ⟨hsame, hnext⟩ := year_bounds era hy hd (by omega) (by omega)
  rw [hdate]
  generalize (5 * d + 2) / 153 = m at hm0 hm11 hday0 hlength hmonths
  simp only [isValid, Bool.and_eq_true, decide_eq_true_eq]
  by_cases hm : m < 10
  · have hlate : ¬ m + 3 ≤ 2 := by omega
    simp only [if_pos hm, if_neg hlate, Int.add_zero] at hlength ⊢
    exact ⟨⟨hsame (hmonths.1 hm), by omega⟩, by omega⟩
  · have hearly : m - 9 ≤ 2 := by omega
    simp only [if_neg hm, if_pos hearly] at hlength ⊢
    exact ⟨⟨hnext fun h305 => hm (hmonths.2 h305), by omega⟩, by omega⟩

/-- Months and days have two digits. -/
theorem lt_hundred_of_isValid {date : Date} (h : date.isValid = true) :
    date.month < 100 ∧ date.day < 100 := by
  have hlength : daysInMonth date.year date.month ≤ 31 := by
    rw [daysInMonth]
    split_ifs <;> omega
  simp only [isValid, Bool.and_eq_true, decide_eq_true_eq] at h
  omega

end Backtest.Date
