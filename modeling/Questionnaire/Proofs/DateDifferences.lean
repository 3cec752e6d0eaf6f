import Questionnaire.Evaluation
import Questionnaire.Proofs.CivilDates
import Questionnaire.Proofs.WireForm

/-! Differences of dates: in every unit they follow the order of the moments, and they change their
sign when the moments are exchanged. -/
namespace Questionnaire

/-- Dividing toward zero in two steps is dividing by the product. -/
theorem tdiv_tdiv {a : Int} (ha : 0 ≤ a) (b n : Int) :
    (n.tdiv a).tdiv b = n.tdiv (a * b) := by
  have hnonneg : ∀ m : Int, 0 ≤ m → (m.tdiv a).tdiv b = m.tdiv (a * b) := by
    intro m hm
    rw [Int.tdiv_eq_ediv_of_nonneg (Int.tdiv_nonneg hm ha), Int.tdiv_eq_ediv_of_nonneg hm,
      Int.tdiv_eq_ediv_of_nonneg hm, Int.ediv_ediv_of_nonneg ha]
  rcases Int.le_total 0 n with hpos | hneg
  · exact hnonneg n hpos
  · have h := hnonneg (-n) (by omega)
    rwa [Int.neg_tdiv, Int.neg_tdiv, Int.neg_tdiv, Int.neg_inj] at h

namespace Date

theorem IsValid.day_le_month {d : Date} (h : d.IsValid) : d.day ≤ 31 := by
  have hday := h.day_le
  unfold daysInMonth at hday
  split_ifs at hday <;> omega

/-- The days of a calendar in which every month has 31 days. -/
def longMonthDay (d : Date) : Int := 31 * d.monthNumber + d.day

theorem IsValid.longMonthDay_lt_next {d : Date} (h : d.IsValid) :
    d.longMonthDay < d.next.longMonthDay := by
  have hday := h.day_le_month
  have hmonth := h.month_le
  unfold next longMonthDay monthNumber
  split_ifs <;> dsimp only <;> omega

theorem longMonthDay_lt {m n : Int} (h : m < n) :
    (ofDay m).longMonthDay < (ofDay n).longMonthDay := by
  have hsucc : ∀ n, (ofDay n).longMonthDay < (ofDay (n + 1)).longMonthDay := fun n => by
    rw [ofDay_succ]
    exact (isValid_ofDay n).longMonthDay_lt_next
  exact strictMono_int_of_lt_succ hsucc h

end Date

namespace Moment

/-- Whether the year of a moment has at most four digits. -/
def InRange (seconds : Int) : Prop := firstSecond ≤ seconds ∧ seconds ≤ lastSecond

instance (seconds : Int) : Decidable (InRange seconds) := inferInstanceAs (Decidable (_ ∧ _))

theorem InRange.toInt64?_eq {d : Decimal} (h : InRange d.integerPart) :
    d.toInt64? = some (.ofInt d.integerPart) := by
  unfold InRange firstSecond lastSecond at h
  have hmin : Int64.minValue.toInt = -2 ^ 63 := by decide
  have hmax : Int64.maxValue.toInt = 2 ^ 63 - 1 := by decide
  exact if_pos ⟨by omega, by omega⟩

/-- The moment some seconds after the beginning of 1970, in whichever year. -/
def ofSeconds (seconds : Int) : Moment :=
  ⟨.ofDay (seconds / secondsPerDay), seconds % secondsPerDay⟩

theorem ofSeconds?_eq (seconds : Int) :
    ofSeconds? seconds = if InRange seconds then some (ofSeconds seconds) else none := rfl

example : (ofSeconds firstSecond).date = ⟨-9999, 1, 1⟩ ∧
    (ofSeconds (lastSecond + 1)).date = ⟨10000, 1, 1⟩ := by decide +kernel

@[simp] theorem toSeconds_ofSeconds (seconds : Int) : (ofSeconds seconds).toSeconds = seconds := by
  simp only [toSeconds, ofSeconds, Date.toDay_ofDay]
  exact Int.ediv_mul_add_emod seconds secondsPerDay

/-- Date and second exist. -/
structure IsValid (m : Moment) : Prop where
  date : m.date.IsValid
  second_bounds : 0 ≤ m.second ∧ m.second < secondsPerDay

theorem isValid_ofSeconds (seconds : Int) : (ofSeconds seconds).IsValid :=
  ⟨Date.isValid_ofDay _, Int.emod_nonneg _ (by decide), Int.emod_lt_of_pos _ (by decide)⟩

/-- The seconds of a calendar in which every month has 31 days. -/
def longMonthSecond (m : Moment) : Int := m.date.longMonthDay * secondsPerDay + m.second

theorem longMonthSecond_lt {s t : Int} (h : s < t) :
    (ofSeconds s).longMonthSecond < (ofSeconds t).longMonthSecond := by
  have hs := (isValid_ofSeconds s).second_bounds
  have ht := (isValid_ofSeconds t).second_bounds
  simp only [longMonthSecond, ofSeconds, secondsPerDay] at *
  rcases (show s / 86400 ≤ t / 86400 by omega).eq_or_lt with hday | hday
  · rw [hday]
    omega
  · have hdays := Date.longMonthDay_lt hday
    omega

/-- A month of 31 days. -/
def longMonth : Int := 31 * secondsPerDay

/-- A rest of the other sign takes one from the months. -/
theorem tdiv_longMonth {months rest : Int} (h : -longMonth < rest ∧ rest < longMonth) :
    (longMonth * months + rest).tdiv longMonth =
      if 0 < months ∧ rest < 0 then months - 1
      else if months < 0 ∧ 0 < rest then months + 1
      else months := by
  unfold longMonth secondsPerDay at *
  rcases Int.le_total 0 (31 * 86400 * months + rest) with hpos | hneg
  · rw [Int.tdiv_eq_ediv_of_nonneg hpos]
    split_ifs <;> omega
  · rw [← Int.neg_neg (31 * 86400 * months + rest), Int.neg_tdiv,
      Int.tdiv_eq_ediv_of_nonneg (by omega)]
    split_ifs <;> omega

/-- Where all months have 31 days, whole months are counted by division. -/
theorem wholeMonths_eq {start finish : Moment} (hs : start.IsValid) (hf : finish.IsValid) :
    wholeMonths start finish =
      (finish.longMonthSecond - start.longMonthSecond).tdiv longMonth := by
  have hsday := hs.date.day_le_month
  have hspos := hs.date.day_pos
  have hssecond := hs.second_bounds
  have hfday := hf.date.day_le_month
  have hfpos := hf.date.day_pos
  have hfsecond := hf.second_bounds
  have hearlier : ∀ a b : Moment, earlierInMonth a b = true ↔
      a.date.day < b.date.day ∨ a.date.day = b.date.day ∧ a.second < b.second := by
    intro a b
    simp [earlierInMonth]
  generalize hrest : (finish.date.day - start.date.day) * secondsPerDay +
    (finish.second - start.second) = rest
  generalize hmonths : finish.date.monthNumber - start.date.monthNumber = months
  have htotal : finish.longMonthSecond - start.longMonthSecond = longMonth * months + rest := by
    unfold longMonthSecond Date.longMonthDay longMonth secondsPerDay at *
    omega
  have hfewer : earlierInMonth finish start = true ↔ rest < 0 := by
    rw [hearlier]
    unfold secondsPerDay at *
    omega
  have hmore : earlierInMonth start finish = true ↔ 0 < rest := by
    rw [hearlier]
    unfold secondsPerDay at *
    omega
  rw [htotal, tdiv_longMonth (by unfold longMonth secondsPerDay at *; omega)]
  simp only [wholeMonths, hmonths, hfewer, hmore]

end Moment

/-- Units in which dates differ. -/
inductive TimeUnit where
  | hours
  | days
  | weeks
  | months
  | years
  deriving DecidableEq, Repr

namespace TimeUnit

def name : TimeUnit → String
  | .hours => "hours"
  | .days => "days"
  | .weeks => "weeks"
  | .months => "months"
  | .years => "years"

/-- What a moment shows on the clock by which the unit is counted. -/
def clock : TimeUnit → Moment → Int
  | .hours | .days | .weeks => Moment.toSeconds
  | .months | .years => Moment.longMonthSecond

/-- The length of the unit on its clock. -/
def length : TimeUnit → Int
  | .hours => 3600
  | .days => Moment.secondsPerDay
  | .weeks => 7 * Moment.secondsPerDay
  | .months => Moment.longMonth
  | .years => Moment.longMonth * 12

theorem length_pos (unit : TimeUnit) : 0 < unit.length := by cases unit <;> decide

theorem clock_lt (unit : TimeUnit) {s t : Int} (h : s < t) :
    unit.clock (.ofSeconds s) < unit.clock (.ofSeconds t) := by
  cases unit
  case hours | days | weeks => simpa only [clock, Moment.toSeconds_ofSeconds] using h
  case months | years => exact Moment.longMonthSecond_lt h

/-- Whole units from one second to another, counted toward zero. -/
def between (unit : TimeUnit) (start finish : Int) : Int :=
  (unit.clock (.ofSeconds finish) - unit.clock (.ofSeconds start)).tdiv unit.length

theorem unitsBetween_name (unit : TimeUnit) (start finish : Int) :
    Operator.unitsBetween unit.name (.ofSeconds start) (.ofSeconds finish) =
      some (unit.between start finish) := by
  have hs := Moment.isValid_ofSeconds start
  have hf := Moment.isValid_ofSeconds finish
  cases unit
  case months => exact congrArg some (Moment.wholeMonths_eq hs hf)
  case years =>
    change some ((Moment.wholeMonths _ _).tdiv 12) = _
    rw [Moment.wholeMonths_eq hs hf, tdiv_tdiv (by decide)]
    rfl
  all_goals rfl

@[simp] theorem between_self (unit : TimeUnit) (s : Int) : unit.between s s = 0 := by
  rw [between, Int.sub_self, Int.zero_tdiv]

/-- Exchanging the moments changes the sign. -/
theorem between_swap (unit : TimeUnit) (s t : Int) : unit.between t s = -unit.between s t := by
  rw [between, between, ← Int.neg_tdiv, Int.neg_sub]

theorem between_mono (unit : TimeUnit) (start : Int) {s t : Int} (h : s ≤ t) :
    unit.between start s ≤ unit.between start t := by
  rcases h.eq_or_lt with rfl | hlt
  · exact le_rfl
  · have hclock := unit.clock_lt hlt
    exact Int.tdiv_le_tdiv unit.length_pos (by omega)

end TimeUnit

namespace Operator

/-- A difference of dates is that of their moments, if both are in range. -/
theorem dateDifference_eq (op : Operator) (unit : TimeUnit) (ctx : Context) (stored : Decimal) :
    op.dateDifference ctx stored unit.name =
      if Moment.InRange stored.integerPart then
        if Moment.InRange ctx.evaluationTime.toInt then
          .ok (unit.between ctx.evaluationTime.toInt stored.integerPart)
        else .error (.overflow (.evaluationTime ctx.evaluationTime.toInt))
      else if stored.toInt64?.isSome then .error (.overflow (.dateSeconds stored.integerPart))
      else .error (.overflow (.dateValue stored)) := by
  cases hword : stored.toInt64? with
  | none =>
    have hrange : ¬ Moment.InRange stored.integerPart := fun hrange => by
      rw [hrange.toInt64?_eq] at hword
      cases hword
    simp only [dateDifference, hword, hrange, bind, Except.bind, Option.isSome_none,
      Bool.false_eq_true, if_false]
  | some seconds =>
    have hseconds := Decimal.toInt_of_toInt64? hword
    simp only [dateDifference, Context.moment, hword, hseconds, Moment.ofSeconds?_eq, bind,
      Except.bind, Option.isSome_some, if_true]
    by_cases hstored : Moment.InRange stored.integerPart
    · by_cases hnow : Moment.InRange ctx.evaluationTime.toInt
      · simp only [hstored, hnow, if_true, TimeUnit.unitsBetween_name]
        rfl
      · simp only [hstored, hnow, if_true, if_false]
    · simp only [hstored, if_false]

/-- In every unit a difference of dates follows the order of its moments: from equal moments it is
none, it grows with the stored one, and the moments exchanged give its negative. Past the range of
either there is none. The dates of the moments are those of the calendar. -/
theorem date_differences_follow_time (op : Operator) (unit : TimeUnit) (ctx : Context)
    (stored : Decimal) :
    (¬ Moment.InRange stored.integerPart ∨ ¬ Moment.InRange ctx.evaluationTime.toInt →
      ∃ excess, op.dateDifference ctx stored unit.name = .error (.overflow excess)) ∧
    (Moment.InRange stored.integerPart → Moment.InRange ctx.evaluationTime.toInt →
      ∃ units, op.dateDifference ctx stored unit.name = .ok units ∧
        units = unit.between ctx.evaluationTime.toInt stored.integerPart ∧
        (stored.integerPart = ctx.evaluationTime.toInt → units = 0) ∧
        (ctx.evaluationTime.toInt < stored.integerPart → 0 ≤ units) ∧
        (stored.integerPart < ctx.evaluationTime.toInt → units ≤ 0) ∧
        (∀ later : Decimal, Moment.InRange later.integerPart →
          stored.integerPart ≤ later.integerPart →
          ∃ more, op.dateDifference ctx later unit.name = .ok more ∧ units ≤ more) ∧
        (∀ (ctx' : Context) (stored' : Decimal),
          ctx'.evaluationTime.toInt = stored.integerPart →
          stored'.integerPart = ctx.evaluationTime.toInt →
          op.dateDifference ctx' stored' unit.name = .ok (-units))) ∧
    Date.ofDay 0 = ⟨1970, 1, 1⟩ ∧ ∀ day, Date.ofDay (day + 1) = (Date.ofDay day).next := by
  refine ⟨?_, ?_, by decide, Date.ofDay_succ⟩
  · intro hout
    rw [dateDifference_eq]
    split_ifs with hstored hnow hword
    · exact absurd hout (by simp only [hstored, hnow, not_true, or_self, not_false_iff])
    all_goals exact ⟨_, rfl⟩
  · intro hstored hnow
    have hself := unit.between_self ctx.evaluationTime.toInt
    refine ⟨_, by rw [dateDifference_eq, if_pos hstored, if_pos hnow], rfl, ?_, ?_, ?_, ?_, ?_⟩
    · intro heq
      rw [heq, hself]
    · intro hlt
      exact hself.ge.trans (unit.between_mono _ hlt.le)
    · intro hlt
      exact (unit.between_mono _ hlt.le).trans hself.le
    · intro later hlater hle
      exact ⟨_, by rw [dateDifference_eq, if_pos hlater, if_pos hnow], unit.between_mono _ hle⟩
    · intro ctx' stored' hctx hdecimal
      rw [dateDifference_eq, hctx, hdecimal, if_pos hnow, if_pos hstored, unit.between_swap]

/-- From 1 March 1970 back to the last day of 1969, stored with a fraction of a second that is
dropped, it is two whole months, as it is from there; to a second later it is not less, and the year
10000 has no date. -/
theorem months_around_epoch :
    let march := Context.empty 5097600
    let december : Decimal := ⟨true, 864005, 1, by decide, by decide⟩
    dateResponseDiffFromNow.dateDifference march december "months" = .ok (-2) ∧
      dateResponseDiffFromNow.dateDifference (.empty (-86400)) (.ofInt 5097600) "months" = .ok 2 ∧
      (∃ units,
        dateResponseDiffFromNow.dateDifference march (.ofInt (-86399)) "months" = .ok units ∧
        -2 ≤ units) ∧
      ∃ excess, dateResponseDiffFromNow.dateDifference march (.ofInt 253402300800) "months" =
        .error (.overflow excess) := by
  intro march december
  have hfollows := date_differences_follow_time dateResponseDiffFromNow .months march
  obtain ⟨units, hunits, hvalue, -, -, -, hlater, hswap⟩ :=
    (hfollows december).2.1 (by decide) (by decide)
  have htwo : TimeUnit.between .months march.evaluationTime.toInt december.integerPart = -2 := by
    decide +kernel
  rw [htwo] at hvalue
  subst hvalue
  exact ⟨hunits, hswap (.empty (-86400)) (.ofInt 5097600) (by decide) (by decide),
    hlater (.ofInt (-86399)) (by decide) (by decide),
    (hfollows (.ofInt 253402300800)).1 (.inl (by decide))⟩

end Operator

end Questionnaire
