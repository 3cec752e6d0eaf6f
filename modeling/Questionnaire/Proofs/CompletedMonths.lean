import Mathlib.Data.Prod.Lex
import Mathlib.Order.Bounds.Defs
import Questionnaire.Proofs.DateDifferences

/-! Whole months and years between two moments: the most that can be added to the earlier one by its
date and time of day without coming after the later one. -/
namespace Questionnaire

namespace Date

/-- Counted from 1 January 1970, the day of a date leads back to it. -/
theorem IsValid.ofDay_toDay {d : Date} (h : d.IsValid) : ofDay d.toDay = d := by
  obtain ⟨year, month, hmonth, hd⟩ :
      ∃ year month, (0 ≤ month ∧ month ≤ 11) ∧ d = ofMarch year month d.day := by
    obtain ⟨hpos, hle, -, -⟩ := h
    unfold ofMarch
    by_cases hearly : d.month ≤ 2
    · refine ⟨d.year - 1, d.month + 9, by omega, ?_⟩
      rw [if_neg (by omega)]
      simp
    · refine ⟨d.year, d.month - 3, by omega, ?_⟩
      rw [if_pos (by omega)]
      simp
  have hday := h.day_le
  rw [hd, daysInMonth_ofMarch year hmonth, day_ofMarch] at hday
  have hin : InMonth year month d.day := ⟨hmonth, h.day_pos, hday⟩
  rw [hd]
  exact hin.ofDay_eq

end Date

namespace Moment

theorem IsValid.ofSeconds_toSeconds {m : Moment} (h : m.IsValid) : ofSeconds m.toSeconds = m := by
  obtain ⟨hdate, hsecond⟩ := h
  have hday : m.toSeconds / secondsPerDay = m.date.toDay := by
    unfold toSeconds secondsPerDay at *
    omega
  have hrest : m.toSeconds % secondsPerDay = m.second := by
    unfold toSeconds secondsPerDay at *
    omega
  rw [ofSeconds, hday, hrest, hdate.ofDay_toDay]

/-- The day of the month and the second of the day, compared in this order. -/
def inMonth (m : Moment) : Int ×ₗ Int := toLex (m.date.day, m.second)

/-- The month some months after that of a moment, then its day and second, compared in this
order. -/
def monthsOn (m : Moment) (months : Int) : Int ×ₗ Int ×ₗ Int :=
  toLex (m.date.monthNumber + months, m.inMonth)

/-- The year some years after that of a moment, then its month, day and second, compared in this
order. -/
def yearsOn (m : Moment) (years : Int) : Int ×ₗ Int ×ₗ Int ×ₗ Int :=
  toLex (m.date.year + years, toLex (m.date.month, m.inMonth))

/-- Where all months have 31 days, as many seconds as the added months have are added to a
moment. -/
theorem monthsOn_le_iff {start finish : Moment} (hs : start.IsValid) (hf : finish.IsValid)
    {months : Int} : start.monthsOn months ≤ finish.monthsOn 0 ↔
      months * longMonth ≤ finish.longMonthSecond - start.longMonthSecond := by
  have hsday := hs.date.day_le_month
  have hspos := hs.date.day_pos
  have hssecond := hs.second_bounds
  have hfday := hf.date.day_le_month
  have hfpos := hf.date.day_pos
  have hfsecond := hf.second_bounds
  rw [monthsOn, monthsOn, inMonth, inMonth, Prod.Lex.toLex_le_toLex, Prod.Lex.toLex_le_toLex]
  unfold longMonthSecond Date.longMonthDay longMonth secondsPerDay at *
  omega

/-- With months from 1 to 12 a year more is twelve months more. -/
theorem yearsOn_le_iff {start finish : Moment} (hs : start.IsValid) (hf : finish.IsValid)
    {years : Int} : start.yearsOn years ≤ finish.yearsOn 0 ↔
      start.monthsOn (years * 12) ≤ finish.monthsOn 0 := by
  have hspos := hs.date.month_pos
  have hsle := hs.date.month_le
  have hfpos := hf.date.month_pos
  have hfle := hf.date.month_le
  simp only [yearsOn, monthsOn, Date.monthNumber, Prod.Lex.toLex_le_toLex]
  by_cases hrest : start.inMonth ≤ finish.inMonth
  · simp only [hrest, and_true]
    omega
  · simp only [hrest, and_false, or_false]
    omega

theorem longMonthSecond_le_iff {a b : Moment} (ha : a.IsValid) (hb : b.IsValid) :
    a.longMonthSecond ≤ b.longMonthSecond ↔ a.toSeconds ≤ b.toSeconds := by
  have hmono : StrictMono fun seconds => (ofSeconds seconds).longMonthSecond :=
    fun _ _ => longMonthSecond_lt
  have h := hmono.le_iff_le (a := a.toSeconds) (b := b.toSeconds)
  simpa only [ha.ofSeconds_toSeconds, hb.ofSeconds_toSeconds] using h

/-- The order of valid moments in time is that of their dates and times of day. -/
theorem toSeconds_le_iff {a b : Moment} (ha : a.IsValid) (hb : b.IsValid) :
    a.toSeconds ≤ b.toSeconds ↔ a.yearsOn 0 ≤ b.yearsOn 0 := by
  rw [yearsOn_le_iff ha hb, Int.zero_mul, monthsOn_le_iff ha hb, ← longMonthSecond_le_iff ha hb]
  omega

theorem wholeMonths_swap {start finish : Moment} (hs : start.IsValid) (hf : finish.IsValid) :
    wholeMonths start finish = -wholeMonths finish start := by
  rw [wholeMonths_eq hs hf, wholeMonths_eq hf hs, ← Int.neg_tdiv, Int.neg_sub]

section
variable {start finish : Moment} (hs : start.IsValid) (hf : finish.IsValid)
  (h : start.toSeconds ≤ finish.toSeconds)
include hs hf h

theorem wholeMonths_nonneg : 0 ≤ wholeMonths start finish := by
  have hlong := (longMonthSecond_le_iff hs hf).mpr h
  rw [wholeMonths_eq hs hf]
  exact Int.tdiv_nonneg (by omega) (by decide)

theorem le_wholeMonths_iff {months : Int} :
    months ≤ wholeMonths start finish ↔ start.monthsOn months ≤ finish.monthsOn 0 := by
  have hlong := (longMonthSecond_le_iff hs hf).mpr h
  rw [monthsOn_le_iff hs hf, wholeMonths_eq hs hf, Int.tdiv_eq_ediv_of_nonneg (by omega),
    Int.le_ediv_iff_mul_le (by decide)]

theorem le_wholeYears_iff {years : Int} :
    years ≤ (wholeMonths start finish).tdiv 12 ↔ start.yearsOn years ≤ finish.yearsOn 0 := by
  rw [yearsOn_le_iff hs hf, ← le_wholeMonths_iff hs hf h,
    Int.tdiv_eq_ediv_of_nonneg (wholeMonths_nonneg hs hf h), Int.le_ediv_iff_mul_le (by decide)]

end

/-- The greatest number, none below zero, up to which a property holds. -/
private theorem isGreatest_of_le_iff {n : Int} {holds : Int → Prop} (hn : 0 ≤ n)
    (h : ∀ k, k ≤ n ↔ holds k) : IsGreatest {k | 0 ≤ k ∧ holds k} n :=
  ⟨⟨hn, (h n).mp le_rfl⟩, fun k hk => (h k).mpr hk.2⟩

/-- From a moment to one that is not before it the whole months are the most that can be added to
its month, and the whole years the most that can be added to its year, so that the date and time of
day do not come after those of the other. Between the moments exchanged they are the negatives. -/
theorem whole_months_and_years_are_greatest {start finish : Moment} (hs : start.IsValid)
    (hf : finish.IsValid) :
    (start.toSeconds ≤ finish.toSeconds ↔ start.yearsOn 0 ≤ finish.yearsOn 0) ∧
    (start.toSeconds ≤ finish.toSeconds →
      IsGreatest {k | 0 ≤ k ∧ start.monthsOn k ≤ finish.monthsOn 0} (wholeMonths start finish) ∧
      IsGreatest {k | 0 ≤ k ∧ start.yearsOn k ≤ finish.yearsOn 0}
        ((wholeMonths start finish).tdiv 12)) ∧
    (finish.toSeconds < start.toSeconds →
      wholeMonths start finish = -wholeMonths finish start ∧
        (wholeMonths start finish).tdiv 12 = -(wholeMonths finish start).tdiv 12) := by
  refine ⟨toSeconds_le_iff hs hf, fun hle => ?_, fun _ => ?_⟩
  · have hnonneg : 0 ≤ wholeMonths start finish := wholeMonths_nonneg hs hf hle
    have hyears : 0 ≤ (wholeMonths start finish).tdiv 12 := Int.tdiv_nonneg hnonneg (by decide)
    exact ⟨isGreatest_of_le_iff hnonneg fun _ => le_wholeMonths_iff hs hf hle,
      isGreatest_of_le_iff hyears fun _ => le_wholeYears_iff hs hf hle⟩
  · have hswap := wholeMonths_swap hs hf
    exact ⟨hswap, by rw [hswap, Int.neg_tdiv]⟩

/-- Noon of the last day of 2023. -/
def newYearsEve : Moment := ⟨⟨2023, 12, 31⟩, 43200⟩

/-- The beginning of the last but one day of January 2025. -/
def lateJanuary : Moment := ⟨⟨2025, 1, 30⟩, 0⟩

/-- Thirteen months on is a day too late, so that twelve are whole, and one year; back they are as
many less than none. -/
theorem twelve_months_to_late_january :
    IsGreatest {k | 0 ≤ k ∧ newYearsEve.monthsOn k ≤ lateJanuary.monthsOn 0} 12 ∧
      IsGreatest {k | 0 ≤ k ∧ newYearsEve.yearsOn k ≤ lateJanuary.yearsOn 0} 1 ∧
      wholeMonths lateJanuary newYearsEve = -12 := by
  have heve : newYearsEve.IsValid :=
    ⟨⟨by decide, by decide, by decide, by decide⟩, by decide, by decide⟩
  have hlate : lateJanuary.IsValid :=
    ⟨⟨by decide, by decide, by decide, by decide⟩, by decide, by decide⟩
  obtain ⟨-, hforward, -⟩ := whole_months_and_years_are_greatest heve hlate
  obtain ⟨-, -, hback⟩ := whole_months_and_years_are_greatest hlate heve
  obtain ⟨hmonths, hyears⟩ := hforward (by decide)
  have hwhole : wholeMonths newYearsEve lateJanuary = 12 := by decide
  rw [hwhole] at hmonths hyears
  obtain ⟨hnegative, -⟩ := hback (by decide)
  rw [hwhole] at hnegative
  exact ⟨hmonths, hyears, hnegative⟩

end Moment

end Questionnaire
