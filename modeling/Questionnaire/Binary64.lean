/-! Binary floating-point numbers with 53 significant bits, and rounding to the nearest of them. -/
namespace Questionnaire

/-- The integer nearest to `num / den`, a half going to the even neighbour. -/
def roundHalfEven (num den : Nat) : Nat :=
  let q := num / den
  let r := num % den
  if 2 * r < den then q
  else if den < 2 * r then q + 1
  else q + q % 2

@[simp] theorem roundHalfEven_one (n : Nat) : roundHalfEven n 1 = n := by
  simp [roundHalfEven, Nat.mod_one]

/-- The number `significand * 2 ^ exponent`, negated if `negative` holds. A zero keeps its sign. -/
structure Binary64 where
  negative : Bool
  significand : Nat
  exponent : Int
  deriving DecidableEq, Repr, Inhabited

namespace Binary64

def zero (negative : Bool) : Binary64 := ⟨negative, 0, 0⟩

/-- Significands have 53 bits. -/
def significandBound : Nat := 0x20000000000000

/-- Subnormal numbers share this exponent. -/
def minExponent : Int := -1074

/-- Finite numbers have no larger exponent. -/
def maxExponent : Int := 971

def isFinite (x : Binary64) : Bool := x.exponent ≤ maxExponent

def isZero (x : Binary64) : Bool := x.significand = 0

/-- The quotient `num / den` scaled by `2 ^ (-exponent)`, as a numerator and a denominator. -/
def scaled (num den : Nat) (exponent : Int) : Nat × Nat :=
  if 0 ≤ exponent then (num, den <<< exponent.toNat) else (num <<< (-exponent).toNat, den)

/-- The exponent at which `num / den` has an integer part of 53 bits, unless it is subnormal. -/
def exponentOf (num den : Nat) : Int :=
  let low : Int := (num.log2 : Int) - den.log2 - 53
  let (n, d) := scaled num den low
  max minExponent (if n / d < significandBound then low else low + 1)

/-- The number nearest to `num / den`, ties to even. Overflow is left to `isFinite`. -/
def ofRatio (negative : Bool) (num den : Nat) : Binary64 :=
  if num = 0 then zero negative
  else
    let e := exponentOf num den
    let (n, d) := scaled num den e
    let m := roundHalfEven n d
    if m = 0 then zero negative
    else if m = significandBound then ⟨negative, significandBound / 2, e + 1⟩
    else ⟨negative, m, e⟩

def toRat (x : Binary64) : Rat :=
  let magnitude : Rat :=
    if 0 ≤ x.exponent then (x.significand <<< x.exponent.toNat : Nat)
    else mkRat x.significand (1 <<< (-x.exponent).toNat)
  if x.negative then -magnitude else magnitude

/-- Correct rounding of an exact number. -/
def nearest (q : Rat) : Binary64 := ofRatio (q < 0) q.num.natAbs q.den

end Binary64

end Questionnaire
