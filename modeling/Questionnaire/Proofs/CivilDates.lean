import Mathlib.Order.Monotone.Basic
import Questionnaire.Calendar

/-! The calendar: every day has its date, the date of the next day is the next date, and counted
from 1 January 1970 each date leads back to its day. -/
namespace Questionnaire.Date

/-- Month and day exist. -/
structure IsValid (d : Date) : Prop where
  month_pos : 1 ≤ d.month
  month_le : d.month ≤ 12
  day_pos : 1 ≤ d.day
  day_le : d.day ≤ daysInMonth d.year d.month

/-- The day after: the next of the month, or else the first of the next month or year. -/
def next (d : Date) : Date :=
  if d.day < daysInMonth d.year d.month then { d with day := d.day + 1 }
  else if d.month < 12 then ⟨d.year, d.month + 1, 1⟩
  else ⟨d.year + 1, 1, 1⟩

/-- Days from 1 March of the year 0 to that of another year. -/
def marchDay (year : Int) : Int := 365 * year + year / 4 - year / 100 + year / 400

/-- The day of a year on which a month counted from March begins. -/
def monthStart (month : Int) : Int := (153 * month + 2) / 5

/-- A date by the year and month counted from March. -/
def ofMarch (year month day : Int) : Date :=
  if month < 10 then ⟨year, month + 3, day⟩ else ⟨year + 1, month - 9, day⟩

@[simp] theorem day_ofMarch (year month day : Int) : (ofMarch year month day).day = day := by
  unfold ofMarch
  split <;> rfl

/-- The date some days after 1 March of a year. -/
def afterMarch (year days : Int) : Date :=
  ofMarch year ((5 * days + 2) / 153) (days - monthStart ((5 * days + 2) / 153) + 1)

/-- How many days a year counted from March has. -/
def yearLength (year : Int) : Int := if isLeap (year + 1) then 366 else 365

/-- A year by eras of 400 years, centuries, groups of four years and single years. -/
structure YearParts (year era century group single : Int) : Prop where
  eq_sum : year = 400 * era + 100 * century + 4 * group + single
  century_bounds : 0 ≤ century ∧ century < 4
  group_bounds : 0 ≤ group ∧ group < 25
  single_bounds : 0 ≤ single ∧ single < 4

theorem exists_yearParts (year : Int) : ∃ e c q r, YearParts year e c q r :=
  ⟨year / 400, year % 400 / 100, year % 100 / 4, year % 4, by omega, by omega, by omega, by omega⟩

namespace YearParts
variable {year e c q r : Int}

theorem marchDay_eq (h : YearParts year e c q r) :
    marchDay year = 146097 * e + 36524 * c + 1461 * q + 365 * r := by
  obtain ⟨hsum, hc, hq, hr⟩ := h
  have hgroups : year / 4 = 100 * e + 25 * c + q := by omega
  have hcenturies : year / 100 = 4 * e + c := by omega
  have heras : year / 400 = e := by omega
  unfold marchDay
  rw [hgroups, hcenturies, heras]
  omega

/-- The leap day ends a group of four years, but for the last group of a century that does not end
its era. -/
theorem yearLength_eq (h : YearParts year e c q r) :
    yearLength year = if r = 3 ∧ (q < 24 ∨ c = 3) then 366 else 365 := by
  obtain ⟨hsum, hc, hq, hr⟩ := h
  have hfour : (year + 1) % 4 = 0 ↔ r = 3 := by omega
  have hhundred : (year + 1) % 100 = 0 ↔ r = 3 ∧ q = 24 := by omega
  have hera : (year + 1) % 400 = 0 ↔ r = 3 ∧ q = 24 ∧ c = 3 := by omega
  have hleap : isLeap (year + 1) = true ↔ r = 3 ∧ (q < 24 ∨ c = 3) := by
    simp only [isLeap, Bool.and_eq_true, Bool.or_eq_true, decide_eq_true_iff, hfour, hera, ne_eq,
      hhundred]
    omega
  simp only [yearLength, hleap]

end YearParts

theorem yearLength_bounds (year : Int) : 365 ≤ yearLength year ∧ yearLength year ≤ 366 := by
  unfold yearLength
  split <;> decide

/-- Whether a year counted from March has a day with this number, counted from 0. -/
def InYear (year days : Int) : Prop := 0 ≤ days ∧ days < yearLength year

/-- The year of a day within its era. -/
theorem yearOfEra_eq {c q r t d : Int} (hd : d = 36524 * c + 1461 * q + 365 * r + t)
    (hc : 0 ≤ c ∧ c < 4) (hq : 0 ≤ q ∧ q < 25) (hr : 0 ≤ r ∧ r < 4) (ht : 0 ≤ t ∧ t ≤ 365)
    (hfull : t = 365 → r = 3 ∧ (q < 24 ∨ c = 3)) :
    (d - d / 1460 + d / 36524 - d / 146096) / 365 = 100 * c + 4 * q + r := by
  -- The last day of an era is the only one that `d / 146096` corrects for.
  by_cases hlast : c = 3 ∧ q = 24 ∧ r = 3 ∧ t = 365
  · obtain ⟨rfl, rfl, rfl, rfl⟩ := hlast
    subst hd
    decide
  · have hcentury : 1461 * q + 365 * r + t < 36524 := by omega
    have hcenturies : d / 36524 = c := by omega
    have hera : d / 146096 = 0 := by omega
    have hgroups : d / 1460 = 25 * c + q ∨
        d / 1460 = 25 * c + q + 1 ∧ 365 ≤ 24 * c + q + t ∧ r = 3 := by
      omega
    omega

theorem ofDay_eq_afterMarch {year days : Int} (h : InYear year days) :
    ofDay (marchDay year + days - epoch) = afterMarch year days := by
  obtain ⟨e, c, q, r, hparts⟩ := exists_yearParts year
  obtain ⟨hnonneg, hlt⟩ := h
  have hmarch := hparts.marchDay_eq
  rw [hparts.yearLength_eq] at hlt
  obtain ⟨hsum, hc, hq, hr⟩ := hparts
  have hle : days ≤ 365 := by split_ifs at hlt <;> omega
  have hfull : days = 365 → r = 3 ∧ (q < 24 ∨ c = 3) := by split_ifs at hlt <;> omega
  generalize hd : 36524 * c + 1461 * q + 365 * r + days = d
  have hera : (marchDay year + days) / 146097 = e := by omega
  have hofEra : (marchDay year + days) % 146097 = d := by omega
  have hgroups : (100 * c + 4 * q + r) / 4 = 25 * c + q := by omega
  have hcenturies : (100 * c + 4 * q + r) / 100 = c := by omega
  have hofYear : d - (365 * (100 * c + 4 * q + r) + (25 * c + q) - c) = days := by omega
  have hwhole : 100 * c + 4 * q + r + e * 400 = year := by omega
  have hyear := yearOfEra_eq hd.symm hc hq hr ⟨hnonneg, hle⟩ hfull
  unfold ofDay afterMarch ofMarch monthStart
  dsimp only
  rw [Int.sub_add_cancel, hera, hofEra, hyear, hgroups, hcenturies, hofYear, hwhole]

/-- Every day lies in some year. -/
theorem exists_inYear (day : Int) :
    ∃ year days, InYear year days ∧ day = marchDay year + days - epoch := by
  obtain ⟨n, rfl⟩ : ∃ n, day = n - epoch := ⟨day + epoch, by omega⟩
  obtain ⟨e, d, hn, hd⟩ : ∃ e d, n = 146097 * e + d ∧ 0 ≤ d ∧ d < 146097 :=
    ⟨n / 146097, n % 146097, by omega, by omega⟩
  -- The last century of an era and the last year of a group are a day longer: hence the minima.
  obtain ⟨c, d', hd', hc, hcentury⟩ : ∃ c d', d = 36524 * c + d' ∧ (0 ≤ c ∧ c < 4) ∧
      0 ≤ d' ∧ d' ≤ 36524 ∧ (d' = 36524 → c = 3) :=
    ⟨min (d / 36524) 3, d - 36524 * min (d / 36524) 3, by omega, by omega, by omega⟩
  obtain ⟨q, d'', hd'', hq, hgroup⟩ : ∃ q d'', d' = 1461 * q + d'' ∧ (0 ≤ q ∧ q < 25) ∧
      0 ≤ d'' ∧ d'' ≤ 1460 :=
    ⟨d' / 1461, d' % 1461, by omega, by omega, by omega⟩
  obtain ⟨r, t, ht, hr, hyear⟩ : ∃ r t, d'' = 365 * r + t ∧ (0 ≤ r ∧ r < 4) ∧
      0 ≤ t ∧ t ≤ 365 ∧ (t = 365 → r = 3) :=
    ⟨min (d'' / 365) 3, d'' - 365 * min (d'' / 365) 3, by omega, by omega, by omega⟩
  have hparts : YearParts (400 * e + 100 * c + 4 * q + r) e c q r := ⟨rfl, hc, hq, hr⟩
  have hmarch := hparts.marchDay_eq
  refine ⟨400 * e + 100 * c + 4 * q + r, t, ⟨by omega, ?_⟩, by omega⟩
  rw [hparts.yearLength_eq]
  split_ifs <;> omega

theorem marchDay_succ (year : Int) : marchDay (year + 1) = marchDay year + yearLength year := by
  obtain ⟨e, c, q, r, hparts⟩ := exists_yearParts year
  have hlength := hparts.yearLength_eq
  have hstart := hparts.marchDay_eq
  obtain ⟨hsum, hc, hq, hr⟩ := hparts
  have hnext : marchDay (year + 1) =
      146097 * e + 36524 * c + 1461 * q + 365 * r +
        if r = 3 ∧ (q < 24 ∨ c = 3) then 366 else 365 := by
    by_cases hgroup : r < 3
    · have h : YearParts (year + 1) e c q (r + 1) := ⟨by omega, hc, hq, by omega⟩
      rw [h.marchDay_eq, if_neg (by omega)]
      omega
    by_cases hcentury : q < 24
    · have h : YearParts (year + 1) e c (q + 1) 0 := ⟨by omega, hc, by omega, by omega⟩
      rw [h.marchDay_eq, if_pos (by omega)]
      omega
    by_cases hera : c < 3
    · have h : YearParts (year + 1) e (c + 1) 0 0 := ⟨by omega, by omega, by omega, by omega⟩
      rw [h.marchDay_eq, if_neg (by omega)]
      omega
    · have h : YearParts (year + 1) (e + 1) 0 0 0 := ⟨by omega, by omega, by omega, by omega⟩
      rw [h.marchDay_eq, if_pos (by omega)]
      omega
  rw [hnext, hstart, hlength]

/-- How many days a month counted from March has. -/
def monthLength (year month : Int) : Int :=
  if month = 11 then yearLength year - monthStart 11 else monthStart (month + 1) - monthStart month

theorem daysInMonth_ofMarch (year : Int) {month : Int} (h : 0 ≤ month ∧ month ≤ 11) (day : Int) :
    daysInMonth (ofMarch year month day).year (ofMarch year month day).month =
      monthLength year month := by
  by_cases hlast : month = 11
  · subst hlast
    change (if isLeap (year + 1) then 29 else 28) = yearLength year - 337
    unfold yearLength
    split <;> rfl
  · have hmonth : month = 0 ∨ month = 1 ∨ month = 2 ∨ month = 3 ∨ month = 4 ∨ month = 5 ∨
        month = 6 ∨ month = 7 ∨ month = 8 ∨ month = 9 ∨ month = 10 := by
      omega
    rcases hmonth with rfl | rfl | rfl | rfl | rfl | rfl | rfl | rfl | rfl | rfl | rfl <;> rfl

/-- A year, a month and a day counted from March exist. -/
structure InMonth (year month day : Int) : Prop where
  month_bounds : 0 ≤ month ∧ month ≤ 11
  day_bounds : 1 ≤ day ∧ day ≤ monthLength year month

theorem monthLength_pos (year month : Int) : 1 ≤ monthLength year month := by
  have hyear := (yearLength_bounds year).1
  unfold monthLength monthStart
  split <;> omega

theorem toDay_ofMarch {year month : Int} (h : 0 ≤ month ∧ month ≤ 11) (day : Int) :
    (ofMarch year month day).toDay = marchDay year + (monthStart month + day - 1) - epoch := by
  unfold toDay dayNumber ofMarch
  split
  · have hmonth : ¬ month + 3 ≤ 2 := by omega
    simp only [hmonth, if_false, Int.add_sub_cancel]
    unfold marchDay monthStart
    omega
  · have hmonth : month - 9 ≤ 2 := by omega
    simp only [hmonth, if_true, Int.add_sub_cancel, Int.sub_add_cancel]
    unfold marchDay monthStart
    omega

theorem InMonth.ofDay_eq {year month day : Int} (h : InMonth year month day) :
    ofDay (ofMarch year month day).toDay = ofMarch year month day := by
  obtain ⟨hmonth, hday⟩ := h
  have hyear := yearLength_bounds year
  have hlength : monthLength year month ≤ monthStart (month + 1) - monthStart month ∧
      monthStart month + monthLength year month ≤ yearLength year := by
    unfold monthLength monthStart
    split <;> omega
  have hin : InYear year (monthStart month + day - 1) := by
    unfold InYear monthStart at *
    omega
  have hof : (5 * (monthStart month + day - 1) + 2) / 153 = month := by
    unfold monthStart at *
    omega
  rw [toDay_ofMarch hmonth, ofDay_eq_afterMarch hin, afterMarch, hof]
  congr 1
  omega

/-- Every day is one of some month. -/
theorem exists_inMonth (n : Int) :
    ∃ year month day, InMonth year month day ∧ n = (ofMarch year month day).toDay := by
  obtain ⟨year, days, hin, hn⟩ := exists_inYear n
  unfold InYear at hin
  have hyear := yearLength_bounds year
  have hmonth : 0 ≤ (5 * days + 2) / 153 ∧ (5 * days + 2) / 153 ≤ 11 := by omega
  refine ⟨year, (5 * days + 2) / 153, days - monthStart ((5 * days + 2) / 153) + 1,
    ⟨hmonth, ?_⟩, ?_⟩
  · unfold monthLength monthStart
    split <;> omega
  · rw [toDay_ofMarch hmonth, hn]
    omega

/-- Counted from 1 January 1970, the date of a day leads back to it. -/
@[simp] theorem toDay_ofDay (n : Int) : (ofDay n).toDay = n := by
  obtain ⟨year, month, day, h, rfl⟩ := exists_inMonth n
  rw [h.ofDay_eq]

theorem isValid_ofDay (n : Int) : (ofDay n).IsValid := by
  obtain ⟨year, month, day, h, rfl⟩ := exists_inMonth n
  rw [h.ofDay_eq]
  have hlength := daysInMonth_ofMarch year h.month_bounds day
  obtain ⟨hmonth, hday⟩ := h
  refine ⟨?_, ?_, by rw [day_ofMarch]; exact hday.1, by rw [hlength, day_ofMarch]; exact hday.2⟩
  all_goals unfold ofMarch; split <;> dsimp only <;> omega

/-- The day after is the next of its month, the first of the next month or the first of March. -/
theorem InMonth.exists_succ {year month day : Int} (h : InMonth year month day) :
    ∃ year' month' day', InMonth year' month' day' ∧
      (ofMarch year' month' day').toDay = (ofMarch year month day).toDay + 1 ∧
      ofMarch year' month' day' = (ofMarch year month day).next := by
  have hlength := daysInMonth_ofMarch year h.month_bounds day
  obtain ⟨hmonth, hday⟩ := h
  by_cases hlast : day < monthLength year month
  · refine ⟨year, month, day + 1, ⟨hmonth, by omega⟩, ?_, ?_⟩
    · rw [toDay_ofMarch hmonth, toDay_ofMarch hmonth]
      omega
    · rw [next, hlength, day_ofMarch, if_pos hlast]
      unfold ofMarch
      split <;> rfl
  by_cases hyear : month < 11
  · have hday : day = monthStart (month + 1) - monthStart month := by
      unfold monthLength at *
      rw [if_neg (by omega)] at hday hlast
      omega
    refine ⟨year, month + 1, 1, ⟨by omega, le_rfl, monthLength_pos ..⟩, ?_, ?_⟩
    · rw [toDay_ofMarch (by omega), toDay_ofMarch hmonth]
      omega
    · rw [next, hlength, day_ofMarch, if_neg hlast]
      have hcases : month < 9 ∨ month = 9 ∨ month = 10 := by omega
      rcases hcases with h9 | rfl | rfl
      · have h10 : month + 1 < 10 ∧ month < 10 ∧ month + 3 < 12 := by omega
        simp only [ofMarch, h10, if_true, Date.mk.injEq, true_and, and_true]
        omega
      · rfl
      · rfl
  · obtain rfl : month = 11 := by omega
    have hday : day = yearLength year - monthStart 11 := by
      unfold monthLength at *
      omega
    refine ⟨year + 1, 0, 1, ⟨by omega, le_rfl, monthLength_pos ..⟩, ?_, ?_⟩
    · rw [toDay_ofMarch (by omega), toDay_ofMarch hmonth, marchDay_succ, hday]
      have hmarch : monthStart 0 = 0 := rfl
      omega
    · rw [next, hlength, day_ofMarch, if_neg hlast]
      rfl

/-- The date of the next day is the next date. -/
theorem ofDay_succ (n : Int) : ofDay (n + 1) = (ofDay n).next := by
  obtain ⟨year, month, day, h, rfl⟩ := exists_inMonth n
  obtain ⟨year', month', day', h', hday, hdate⟩ := h.exists_succ
  rw [h.ofDay_eq, ← hday, h'.ofDay_eq, hdate]

example : ofDay 0 = ⟨1970, 1, 1⟩ := by decide

end Questionnaire.Date
