import Mathlib.Tactic.FieldSimp
import Mathlib.Tactic.Linarith
import Mathlib.Tactic.Ring
import Questionnaire.Proofs.NormalForm

/-! Addition of decimals: the exact sum where it fits, the nearest number with fewer places where it
does not, and no result just where the integer part alone is too great. -/
namespace Questionnaire

/-- Twice the error is at most the denominator. -/
theorem roundHalfEven_mul_bounds (num : Nat) {den : Nat} (hden : 0 < den) :
    2 * (roundHalfEven num den * den) ≤ 2 * num + den ∧
      2 * num ≤ 2 * (roundHalfEven num den * den) + den := by
  have hdivision : num / den * den + num % den = num := Nat.div_add_mod' num den
  have hrest : num % den < den := Nat.mod_lt num hden
  have hparity : num / den % 2 = 0 ∨ num / den % 2 = 1 := Nat.mod_two_eq_zero_or_one _
  unfold roundHalfEven
  dsimp only
  split
  · omega
  · split
    · rw [Nat.add_mul]
      omega
    · rcases hparity with heven | hodd
      · rw [heven, Nat.add_zero]
        omega
      · rw [hodd, Nat.add_mul]
        omega

theorem roundHalfEven_error (num : Nat) {den : Nat} (hden : 0 < den) :
    |(roundHalfEven num den : Rat) - num / den| ≤ 1 / 2 := by
  obtain ⟨hlo, hhi⟩ := roundHalfEven_mul_bounds num hden
  have hpos : (0 : Rat) < den := by exact_mod_cast hden
  have hlo' : 2 * ((roundHalfEven num den : Rat) * den) ≤ 2 * num + den := by exact_mod_cast hlo
  have hhi' : 2 * (num : Rat) ≤ 2 * (roundHalfEven num den * den) + den := by exact_mod_cast hhi
  have hquotient : (num : Rat) / den * den = num := div_mul_cancel₀ _ hpos.ne'
  rw [abs_le]
  constructor
  · refine le_of_mul_le_mul_right ?_ hpos
    linarith
  · refine le_of_mul_le_mul_right ?_ hpos
    linarith

/-- What rounds to less than an even bound is nearer to the integer before it: halfway between the
two it would round to the bound. -/
theorem roundHalfEven_lt_iff (num : Nat) {den bound : Nat} (hden : 0 < den)
    (heven : bound % 2 = 0) :
    roundHalfEven num den < bound ↔ 2 * num + den < 2 * (bound * den) := by
  have hdivision : num / den * den + num % den = num := Nat.div_add_mod' num den
  have hrest : num % den < den := Nat.mod_lt num hden
  have hround : roundHalfEven num den = num / den ∨ roundHalfEven num den = num / den + 1 := by
    unfold roundHalfEven
    dsimp only
    split_ifs <;> omega
  rcases Nat.lt_trichotomy (num / den + 1) bound with hbelow | hnext | habove
  · have hproduct : (num / den + 2) * den ≤ bound * den := Nat.mul_le_mul_right den hbelow
    rw [Nat.add_mul] at hproduct
    constructor <;> omega
  · -- the quotient is odd, so that a half rounds up
    have hproduct : bound * den = num / den * den + den := by rw [← hnext, Nat.add_mul, Nat.one_mul]
    have hdown : roundHalfEven num den < bound ↔ 2 * (num % den) < den := by
      unfold roundHalfEven
      dsimp only
      split_ifs <;> omega
    rw [hdown, hproduct]
    omega
  · have hproduct : bound * den ≤ num / den * den := Nat.mul_le_mul_right den (by omega)
    constructor <;> omega

namespace Decimal
variable {a b d : Decimal}

theorem toRat_mul_pow (d : Decimal) : d.toRat * 10 ^ d.scale = d.signed := by
  have hpower : (10 : Rat) ^ d.scale ≠ 0 := by positivity
  rw [toRat_eq, div_mul_cancel₀ _ hpower]

theorem toRat_of_isZero (h : d.isZero = true) : d.toRat = 0 := by
  have hcoefficient : d.coefficient = 0 := of_decide_eq_true h
  have hsigned : d.signed = 0 := by simp [signed, hcoefficient]
  rw [toRat_eq, hsigned, Int.cast_zero, zero_div]

theorem abs_toRat_mul_pow (d : Decimal) : |d.toRat| * 10 ^ d.scale = d.coefficient := by
  have hpower : (0 : Rat) ≤ 10 ^ d.scale := by positivity
  rw [← natAbs_signed, Nat.cast_natAbs, Int.cast_abs, ← toRat_mul_pow, abs_mul,
    abs_of_nonneg hpower]

/-- The coefficient of the sum at the greater of the two scales. -/
def alignedSum (a b : Decimal) : Int :=
  a.signed * 10 ^ (max a.scale b.scale - a.scale) + b.signed * 10 ^ (max a.scale b.scale - b.scale)

theorem toRat_add_mul_pow (a b : Decimal) :
    (a.toRat + b.toRat) * 10 ^ max a.scale b.scale = alignedSum a b := by
  have hsplit : ∀ {s : Nat}, s ≤ max a.scale b.scale →
      (10 : Rat) ^ max a.scale b.scale = 10 ^ s * 10 ^ (max a.scale b.scale - s) := by
    intro s hs
    rw [← pow_add, Nat.add_sub_cancel' hs]
  have ha : a.toRat * 10 ^ max a.scale b.scale =
      a.signed * 10 ^ (max a.scale b.scale - a.scale) := by
    rw [hsplit (Nat.le_max_left _ _), ← mul_assoc, toRat_mul_pow]
  have hb : b.toRat * 10 ^ max a.scale b.scale =
      b.signed * 10 ^ (max a.scale b.scale - b.scale) := by
    rw [hsplit (Nat.le_max_right _ _), ← mul_assoc, toRat_mul_pow]
  rw [add_mul, ha, hb, alignedSum]
  push_cast
  rfl

theorem cast_pow_ten (n : Nat) : ((Nat.pow 10 n : Nat) : Int) = 10 ^ n := by
  change ((10 ^ n : Nat) : Int) = 10 ^ n
  push_cast
  rfl

/-- A zero changes nothing; any other two numbers are added at the greater scale. -/
theorem add?_cases (a b : Decimal) :
    (a.add? b = some b ∧ a.toRat = 0) ∨ (a.add? b = some a ∧ b.toRat = 0) ∨
      a.add? b =
        fit? (alignedSum a b < 0) (alignedSum a b).natAbs (max a.scale b.scale) := by
  unfold add?
  split
  · next hzero => exact .inl ⟨rfl, toRat_of_isZero hzero⟩
  · split
    · next hzero => exact .inr (.inl ⟨rfl, toRat_of_isZero hzero⟩)
    · simp only [cast_pow_ten]
      exact .inr (.inr rfl)

theorem signed_of_parts {sum : Int} (hnegative : d.negative = decide (sum < 0))
    (hcoefficient : d.coefficient = sum.natAbs) : d.signed = sum := by
  rw [signed, hnegative, hcoefficient]
  by_cases hneg : sum < 0
  · rw [decide_eq_true hneg, if_pos rfl]
    omega
  · rw [decide_eq_false hneg, if_neg Bool.false_ne_true]
    omega

theorem exists_of_fit? {negative : Bool} {c s : Nat} (h : fit? negative c s = some d) :
    ∃ dropped ≤ s, d.negative = negative ∧ d.coefficient = roundHalfEven c (10 ^ dropped) ∧
      d.scale = s - dropped := by
  obtain ⟨dropped, hmem, hparts⟩ := List.exists_of_findSome?_eq_some h
  rw [List.mem_range] at hmem
  unfold ofParts? at hparts
  split at hparts
  · obtain rfl := Option.some.inj hparts
    exact ⟨dropped, by omega, rfl, rfl, rfl⟩
  · cases hparts

/-- The result is nearest to the exact number among those with its places. -/
theorem error_of_fit? {sum : Int} {s : Nat} (h : fit? (sum < 0) sum.natAbs s = some d) :
    |d.toRat - sum / 10 ^ s| ≤ 1 / 2 / 10 ^ d.scale := by
  obtain ⟨dropped, hdropped, hnegative, hcoefficient, hscale⟩ := exists_of_fit? h
  have hunits : 0 < 10 ^ dropped := Nat.pow_pos (by decide)
  have hround := roundHalfEven_error sum.natAbs hunits
  have hpower : (0 : Rat) < 10 ^ d.scale := by positivity
  have hunit : (10 : Rat) ^ s = 10 ^ dropped * 10 ^ d.scale := by
    rw [← pow_add, hscale, Nat.add_sub_cancel' hdropped]
  push_cast at hround
  rw [← hcoefficient] at hround
  have hsigned : |(d.signed : Rat) - sum / 10 ^ dropped| ≤ 1 / 2 := by
    unfold signed
    rw [hnegative]
    by_cases hneg : sum < 0
    · have hsum : (sum : Rat) = -(sum.natAbs : Rat) := by
        rw [Nat.cast_natAbs, abs_of_neg hneg, Int.cast_neg, neg_neg]
      rw [decide_eq_true hneg, if_pos rfl, hsum, Int.cast_neg, Int.cast_natCast, neg_div,
        neg_sub_neg, abs_sub_comm]
      exact hround
    · have hsum : (sum : Rat) = (sum.natAbs : Rat) := by
        rw [Nat.cast_natAbs, abs_of_nonneg (Int.not_lt.mp hneg)]
      rw [decide_eq_false hneg, if_neg Bool.false_ne_true, hsum, Int.cast_natCast]
      exact hround
  have hdifference : d.toRat - sum / 10 ^ s =
      ((d.signed : Rat) - sum / 10 ^ dropped) / 10 ^ d.scale := by
    rw [toRat_eq, hunit]
    field_simp
  rw [hdifference, abs_div, abs_of_pos hpower]
  exact div_le_div_of_nonneg_right hsigned hpower.le

theorem fit?_eq_none_iff {negative : Bool} {c s : Nat} (hs : s ≤ 28) :
    fit? negative c s = none ↔ 2 * (coefficientBound * 10 ^ s) ≤ 2 * c + 10 ^ s := by
  have hparts : ∀ k, ofParts? negative (roundHalfEven c (10 ^ k)) (s - k) = none ↔
      2 * (coefficientBound * 10 ^ k) ≤ 2 * c + 10 ^ k := by
    intro k
    have hscale : s - k ≤ 28 := by omega
    have hunits : 0 < 10 ^ k := Nat.pow_pos (by decide)
    have heven : coefficientBound % 2 = 0 := by decide
    have hround := roundHalfEven_lt_iff c hunits heven
    unfold ofParts?
    simp only [hscale, and_true, hround, dite_eq_right_iff, reduceCtorEq, imp_false, not_lt]
  have hall : fit? negative c s = none ↔
      ∀ k ∈ List.range (s + 1), ofParts? negative (roundHalfEven c (10 ^ k)) (s - k) = none :=
    List.findSome?_eq_none_iff
  rw [hall]
  simp only [hparts, List.mem_range]
  constructor
  · intro h
    exact h s (Nat.lt_succ_self s)
  · -- the more places are dropped, the smaller the rounded coefficient
    intro h k hk
    have hpower : 10 ^ k ≤ 10 ^ s := Nat.pow_le_pow_right (by decide) (by omega)
    unfold coefficientBound at h ⊢
    omega

theorem cast_coefficientBound : (coefficientBound : Rat) = 2 ^ 96 := by
  norm_num [coefficientBound]

/-- No number exceeds the greatest coefficient. -/
theorem abs_toRat_le (d : Decimal) : |d.toRat| ≤ 2 ^ 96 - 1 := by
  have hunit : (1 : Rat) ≤ 10 ^ d.scale := one_le_pow₀ (by norm_num)
  have hmagnitude : |d.toRat| ≤ |d.toRat| * 10 ^ d.scale :=
    le_mul_of_one_le_right (abs_nonneg _) hunit
  have hcoefficient : (d.coefficient : Rat) + 1 ≤ coefficientBound := by
    exact_mod_cast d.coefficient_lt
  rw [abs_toRat_mul_pow] at hmagnitude
  rw [cast_coefficientBound] at hcoefficient
  linarith

theorem natAbs_alignedSum (a b : Decimal) :
    ((alignedSum a b).natAbs : Rat) = |a.toRat + b.toRat| * 10 ^ max a.scale b.scale := by
  have hpower : (0 : Rat) ≤ 10 ^ max a.scale b.scale := by positivity
  rw [Nat.cast_natAbs, Int.cast_abs, ← toRat_add_mul_pow, abs_mul, abs_of_nonneg hpower]

theorem max_scale_le (a b : Decimal) : max a.scale b.scale ≤ 28 :=
  Nat.max_le.mpr ⟨a.scale_le, b.scale_le⟩

theorem toRat_add_eq_div (a b : Decimal) :
    a.toRat + b.toRat = alignedSum a b / 10 ^ max a.scale b.scale := by
  have hpower : (10 : Rat) ^ max a.scale b.scale ≠ 0 := by positivity
  rw [← toRat_add_mul_pow, mul_div_cancel_right₀ _ hpower]

/-- A sum that fits at the greater of the two scales is exact. -/
theorem exists_add?_of_fits (h : |a.toRat + b.toRat| * 10 ^ max a.scale b.scale < 2 ^ 96) :
    ∃ d, a.add? b = some d ∧ d.toRat = a.toRat + b.toRat ∧ d.scale ≤ max a.scale b.scale := by
  rcases add?_cases a b with ⟨hadd, hzero⟩ | ⟨hadd, hzero⟩ | hadd
  · exact ⟨b, hadd, by rw [hzero, zero_add], Nat.le_max_right _ _⟩
  · exact ⟨a, hadd, by rw [hzero, add_zero], Nat.le_max_left _ _⟩
  · have hroom : (alignedSum a b).natAbs < coefficientBound := by
      rw [← natAbs_alignedSum, ← cast_coefficientBound] at h
      exact_mod_cast h
    rw [fit?_of_lt hroom (max_scale_le a b)] at hadd
    refine ⟨_, hadd, ?_, le_refl _⟩
    rw [toRat_add_eq_div, toRat_eq, signed_of_parts rfl rfl]

/-- Any sum is nearest to the exact one among the numbers with its places. -/
theorem error_of_add? (h : a.add? b = some d) :
    |d.toRat - (a.toRat + b.toRat)| ≤ 1 / 2 / 10 ^ d.scale := by
  have hunit : (0 : Rat) ≤ 1 / 2 / 10 ^ d.scale := by positivity
  rcases add?_cases a b with ⟨hadd, hzero⟩ | ⟨hadd, hzero⟩ | hadd
  · obtain rfl := Option.some.inj (h.symm.trans hadd)
    rwa [hzero, zero_add, sub_self, abs_zero]
  · obtain rfl := Option.some.inj (h.symm.trans hadd)
    rwa [hzero, add_zero, sub_self, abs_zero]
  · rw [toRat_add_eq_div]
    exact error_of_fit? (hadd.symm.trans h)

theorem abs_sub_le_half_of_add? (h : a.add? b = some d) :
    |d.toRat - (a.toRat + b.toRat)| ≤ 1 / 2 := by
  have hunit : (1 : Rat) ≤ 10 ^ d.scale := one_le_pow₀ (by norm_num)
  exact (error_of_add? h).trans (div_le_self (by norm_num) hunit)

/-- There is no sum just where the exact one would round beyond the greatest coefficient. -/
theorem add?_eq_none_iff : a.add? b = none ↔ 2 ^ 96 - 1 / 2 ≤ |a.toRat + b.toRat| := by
  rcases add?_cases a b with ⟨hadd, hzero⟩ | ⟨hadd, hzero⟩ | hadd
  · have hmagnitude := b.abs_toRat_le
    rw [hadd, hzero, zero_add]
    refine iff_of_false nofun ?_
    linarith
  · have hmagnitude := a.abs_toRat_le
    rw [hadd, hzero, add_zero]
    refine iff_of_false nofun ?_
    linarith
  · have hpower : (0 : Rat) < 10 ^ max a.scale b.scale := by positivity
    have hcast : 2 * (coefficientBound * 10 ^ max a.scale b.scale) ≤
          2 * (alignedSum a b).natAbs + 10 ^ max a.scale b.scale ↔
        2 * (2 ^ 96 * 10 ^ max a.scale b.scale) ≤
          2 * (|a.toRat + b.toRat| * 10 ^ max a.scale b.scale) + 10 ^ max a.scale b.scale := by
      rw [← natAbs_alignedSum, ← cast_coefficientBound]
      exact_mod_cast Iff.rfl
    rw [hadd, fit?_eq_none_iff (max_scale_le a b), hcast]
    constructor
    · intro h
      refine le_of_mul_le_mul_right ?_ hpower
      linarith
    · intro h
      have hscaled := mul_le_mul_of_nonneg_right h hpower.le
      linarith

end Decimal

end Questionnaire
