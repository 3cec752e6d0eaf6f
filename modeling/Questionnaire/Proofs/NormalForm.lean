import Mathlib.Algebra.Order.Field.Basic
import Mathlib.Algebra.Order.Ring.Rat
import Mathlib.Data.Rat.Lemmas
import Mathlib.Order.Compare
import Mathlib.Tactic.Positivity
import Questionnaire.Decimal

/-! Decimals by the numbers that they denote: equality and order look at nothing else, and of all
representations of a number exactly one is in normal form. -/
namespace Questionnaire.Decimal
variable {a b : Decimal}

theorem toRat_eq (d : Decimal) : d.toRat = (d.signed : Rat) / (10 : Rat) ^ d.scale := by
  have hpower : Nat.pow 10 d.scale = 10 ^ d.scale := rfl
  rw [toRat, Rat.mkRat_eq_div, hpower]
  push_cast
  rfl

theorem toRat_lt_iff :
    a.toRat < b.toRat ↔ a.signed * 10 ^ b.scale < b.signed * 10 ^ a.scale := by
  have ha : (0 : Rat) < 10 ^ a.scale := by positivity
  have hb : (0 : Rat) < 10 ^ b.scale := by positivity
  rw [toRat_eq, toRat_eq, div_lt_div_iff₀ ha hb]
  exact_mod_cast Iff.rfl

theorem toRat_inj_iff :
    a.toRat = b.toRat ↔ a.signed * 10 ^ b.scale = b.signed * 10 ^ a.scale := by
  have ha : (10 : Rat) ^ a.scale ≠ 0 := by positivity
  have hb : (10 : Rat) ^ b.scale ≠ 0 := by positivity
  rw [toRat_eq, toRat_eq, div_eq_div_iff ha hb]
  exact_mod_cast Iff.rfl

theorem aligned_eq (a b : Decimal) :
    aligned a b = (a.signed * 10 ^ b.scale, b.signed * 10 ^ a.scale) := by
  have hpower : ∀ n, ((Nat.pow 10 n : Nat) : Int) = 10 ^ n := fun n => by
    change ((10 ^ n : Nat) : Int) = 10 ^ n
    push_cast
    rfl
  rw [aligned, hpower, hpower]

theorem equal_iff : a.equal b = true ↔ a.toRat = b.toRat := by
  rw [equal, aligned_eq, toRat_inj_iff]
  exact decide_eq_true_iff

theorem order_eq_compare (a b : Decimal) : a.order b = compare a.toRat b.toRat := by
  rw [order, aligned_eq]
  dsimp only
  rcases lt_trichotomy a.toRat b.toRat with hlt | heq | hgt
  · rw [compare_lt_iff_lt.mpr hlt]
    exact compare_lt_iff_lt.mpr (toRat_lt_iff.mp hlt)
  · rw [compare_eq_iff_eq.mpr heq]
    exact compare_eq_iff_eq.mpr (toRat_inj_iff.mp heq)
  · rw [compare_gt_iff_gt.mpr hgt]
    exact compare_gt_iff_gt.mpr (toRat_lt_iff.mp hgt)

theorem order_eq_eq_iff : a.order b = .eq ↔ a.equal b = true := by
  rw [order_eq_compare, compare_eq_iff_eq, equal_iff]

/-- The places that are stripped were zeros. -/
theorem strip_fst_mul (c s : Nat) : (strip c s).1 * 10 ^ (s - (strip c s).2) = c := by
  induction s generalizing c with
  | zero => simp [strip]
  | succ s ih =>
    unfold strip
    split
    · next hzero =>
      have hplaces : s + 1 - (strip (c / 10) s).2 = s - (strip (c / 10) s).2 + 1 := by
        have hle := strip_snd_le (c / 10) s
        omega
      rw [hplaces, pow_succ, ← Nat.mul_assoc, ih]
      omega
    · simp

theorem strip_reduced (c s : Nat) : (strip c s).2 = 0 ∨ (strip c s).1 % 10 ≠ 0 := by
  induction s generalizing c with
  | zero => exact .inl rfl
  | succ s ih =>
    unfold strip
    split
    · exact ih _
    · next hdigit => exact .inr hdigit

/-- The fraction has no zero at its end, and zero has no sign. -/
structure IsNormal (d : Decimal) : Prop where
  reduced : d.scale = 0 ∨ d.coefficient % 10 ≠ 0
  unsigned_zero : d.negative = true → d.coefficient ≠ 0

theorem coefficient_normalize (d : Decimal) :
    d.normalize.coefficient * 10 ^ (d.scale - d.normalize.scale) = d.coefficient :=
  strip_fst_mul d.coefficient d.scale

theorem isNormal_normalize (d : Decimal) : d.normalize.IsNormal where
  reduced := strip_reduced d.coefficient d.scale
  unsigned_zero hnegative hzero := by
    have hcoefficient := coefficient_normalize d
    rw [hzero, Nat.zero_mul] at hcoefficient
    have hnonzero : (d.negative && !d.isZero) = true := hnegative
    simp [isZero, ← hcoefficient] at hnonzero

theorem signed_normalize (d : Decimal) :
    d.normalize.signed * 10 ^ (d.scale - d.normalize.scale) = d.signed := by
  have hcoefficient : (d.normalize.coefficient : Int) * 10 ^ (d.scale - d.normalize.scale) =
      d.coefficient := by
    exact_mod_cast coefficient_normalize d
  have hsign : d.normalize.negative = (d.negative && !d.isZero) := rfl
  unfold signed
  rw [hsign]
  by_cases hzero : d.coefficient = 0
  · have hnormal : (d.normalize.coefficient : Int) = 0 := by
      rw [hzero] at hcoefficient
      simpa using hcoefficient
    simp [hzero, hnormal]
  · cases hnegative : d.negative <;> simp [isZero, hzero, hcoefficient]

/-- A representation in normal form denotes the same number. -/
theorem toRat_normalize (d : Decimal) : d.normalize.toRat = d.toRat := by
  have hle : d.normalize.scale ≤ d.scale := strip_snd_le d.coefficient d.scale
  have hscale : d.scale = d.scale - d.normalize.scale + d.normalize.scale := by omega
  rw [toRat_inj_iff, ← signed_normalize d, mul_assoc, ← pow_add, ← hscale]

/-- A coefficient without a zero at its end decides how many places there are. -/
theorem le_of_mul_pow_eq {c c' s s' : Nat} (hreduced : s' = 0 ∨ c' % 10 ≠ 0)
    (h : c * 10 ^ s' = c' * 10 ^ s) : s' ≤ s := by
  rcases hreduced with hzero | hdigit
  · omega
  · by_contra hlt
    have hplaces : s' = s' - s - 1 + 1 + s := by omega
    rw [hplaces, pow_add, ← Nat.mul_assoc] at h
    have hcoefficient : c * 10 ^ (s' - s - 1 + 1) = c' :=
      Nat.eq_of_mul_eq_mul_right (by positivity) h
    rw [pow_succ, ← Nat.mul_assoc] at hcoefficient
    omega

theorem toRat_neg_iff (d : Decimal) : d.toRat < 0 ↔ d.signed < 0 := by
  have hpower : (0 : Rat) < 10 ^ d.scale := by positivity
  rw [toRat_eq, div_lt_iff₀ hpower, zero_mul]
  exact_mod_cast Iff.rfl

theorem IsNormal.negative_iff {d : Decimal} (h : d.IsNormal) : d.negative = true ↔ d.toRat < 0 := by
  have hzero := h.unsigned_zero
  rw [toRat_neg_iff, signed]
  cases hnegative : d.negative with
  | false => simp
  | true =>
    have hpos := hzero hnegative
    simp only [if_true, true_iff]
    omega

theorem natAbs_signed (d : Decimal) : d.signed.natAbs = d.coefficient := by
  unfold signed
  split <;> simp

/-- No two normal forms denote the same number. -/
theorem IsNormal.eq_of_toRat_eq (ha : a.IsNormal) (hb : b.IsNormal) (h : a.toRat = b.toRat) :
    a = b := by
  have hnegative : a.negative = b.negative := by
    rw [Bool.eq_iff_iff, ha.negative_iff, hb.negative_iff, h]
  have haligned : a.coefficient * 10 ^ b.scale = b.coefficient * 10 ^ a.scale := by
    have habs := congrArg Int.natAbs (toRat_inj_iff.mp h)
    simpa [Int.natAbs_mul, Int.natAbs_pow, natAbs_signed] using habs
  have hscale : a.scale = b.scale :=
    Nat.le_antisymm (le_of_mul_pow_eq ha.reduced haligned.symm)
      (le_of_mul_pow_eq hb.reduced haligned)
  have hcoefficient : a.coefficient = b.coefficient := by
    rw [hscale] at haligned
    exact Nat.eq_of_mul_eq_mul_right (by positivity) haligned
  obtain ⟨na, ca, sa, _, _⟩ := a
  obtain ⟨nb, cb, sb, _, _⟩ := b
  obtain rfl : na = nb := hnegative
  obtain rfl : ca = cb := hcoefficient
  obtain rfl : sa = sb := hscale
  rfl

theorem normalize_eq_iff : a.normalize = b.normalize ↔ a.toRat = b.toRat := by
  constructor
  · intro h
    rw [← toRat_normalize a, ← toRat_normalize b, h]
  · intro h
    refine (isNormal_normalize a).eq_of_toRat_eq (isNormal_normalize b) ?_
    rw [toRat_normalize, toRat_normalize, h]

end Questionnaire.Decimal
