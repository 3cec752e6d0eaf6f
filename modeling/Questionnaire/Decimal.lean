import Questionnaire.Binary64

/-! Decimal numbers of at most 96 bits and 28 places: comparison, rounding, exact addition. -/
namespace Questionnaire

/-- Coefficients have 96 bits. -/
def Decimal.coefficientBound : Nat := 0x1000000000000000000000000

/-- The number `coefficient / 10 ^ scale`, negated when `negative` holds. One number has several
representations: `1.5` and `1.50` differ in scale, and a zero may be negative. -/
structure Decimal where
  negative : Bool
  coefficient : Nat
  scale : Nat
  coefficient_lt : coefficient < Decimal.coefficientBound
  scale_le : scale ≤ 28
  deriving DecidableEq, Repr

namespace Decimal

/-- The representation with these parts, if they are in range. -/
def ofParts? (negative : Bool) (coefficient scale : Nat) : Option Decimal :=
  if h : coefficient < coefficientBound ∧ scale ≤ 28 then
    some ⟨negative, coefficient, scale, h.1, h.2⟩
  else none

def zero : Decimal := ⟨false, 0, 0, by decide, by decide⟩

def one : Decimal := ⟨false, 1, 0, by decide, by decide⟩

instance : Inhabited Decimal := ⟨zero⟩

/-- An integer, if its magnitude has at most 96 bits. -/
def ofInt? (i : Int) : Option Decimal := ofParts? (i < 0) i.natAbs 0

/-- An integer, cut to the greatest magnitude of 96 bits. -/
def ofInt (i : Int) : Decimal :=
  ⟨i < 0, min i.natAbs (coefficientBound - 1), 0, by unfold coefficientBound; omega, by decide⟩

/-- The coefficient with its sign. -/
def signed (d : Decimal) : Int := if d.negative then -d.coefficient else d.coefficient

/-- The exact value. -/
def toRat (d : Decimal) : Rat := mkRat d.signed (Nat.pow 10 d.scale)

def isZero (d : Decimal) : Bool := d.coefficient = 0

def isInteger (d : Decimal) : Bool := d.coefficient % Nat.pow 10 d.scale = 0

/-- The value without its fraction. -/
def integerPart (d : Decimal) : Int := d.signed.tdiv (Nat.pow 10 d.scale)

/-- The integer part as a word of 64 bits, if it is in range. -/
def toInt64? (d : Decimal) : Option Int64 :=
  let i := d.integerPart
  if Int64.minValue.toInt ≤ i ∧ i ≤ Int64.maxValue.toInt then some (Int64.ofInt i) else none

/-- The coefficients that two numbers have at one common scale. -/
def aligned (a b : Decimal) : Int × Int :=
  (a.signed * Nat.pow 10 b.scale, b.signed * Nat.pow 10 a.scale)

/-- The order of the values, whatever their representations. -/
def order (a b : Decimal) : Ordering :=
  let (x, y) := aligned a b
  compare x y

/-- Whether two representations denote one number. -/
def equal (a b : Decimal) : Bool :=
  let (x, y) := aligned a b
  x = y

/-- A coefficient and scale without trailing zeros in the fraction. -/
def strip : Nat → Nat → Nat × Nat
  | c, 0 => (c, 0)
  | c, s + 1 => if c % 10 = 0 then strip (c / 10) s else (c, s + 1)

theorem strip_fst_le (c s : Nat) : (strip c s).1 ≤ c := by
  induction s generalizing c with
  | zero => simp [strip]
  | succ s ih =>
    unfold strip
    split
    · exact Nat.le_trans (ih _) (Nat.div_le_self _ _)
    · exact Nat.le_refl _

theorem strip_snd_le (c s : Nat) : (strip c s).2 ≤ s := by
  induction s generalizing c with
  | zero => simp [strip]
  | succ s ih =>
    unfold strip
    split
    · exact Nat.le_succ_of_le (ih _)
    · exact Nat.le_refl _

/-- The representation of least scale, with a positive zero. -/
def normalize (d : Decimal) : Decimal where
  negative := d.negative && !d.isZero
  coefficient := (strip d.coefficient d.scale).1
  scale := (strip d.coefficient d.scale).2
  coefficient_lt := Nat.lt_of_le_of_lt (strip_fst_le _ _) d.coefficient_lt
  scale_le := Nat.le_trans (strip_snd_le _ _) d.scale_le

/-- A coefficient of any size as a decimal: as few places are dropped as make it fit, with halves
going to the even neighbour. -/
def fit? (negative : Bool) (coefficient scale : Nat) : Option Decimal :=
  (List.range (scale + 1)).findSome? fun dropped =>
    ofParts? negative (roundHalfEven coefficient (Nat.pow 10 dropped)) (scale - dropped)

theorem fit?_of_lt {negative : Bool} {c s : Nat} (hc : c < coefficientBound) (hs : s ≤ 28) :
    fit? negative c s = some ⟨negative, c, s, hc, hs⟩ := by
  simp [fit?, List.range_succ_eq_map, ofParts?, hs, hc]

/-- The sum at the greater of the two scales, if need be with fewer places. A zero changes nothing,
not even the scale. -/
def add? (a b : Decimal) : Option Decimal :=
  if a.isZero then some b
  else if b.isZero then some a
  else
    let scale := max a.scale b.scale
    let sum := a.signed * Nat.pow 10 (scale - a.scale) + b.signed * Nat.pow 10 (scale - b.scale)
    fit? (sum < 0) sum.natAbs scale

/-- The floating-point number that stands for a decimal: an integer is rounded, and any other number
is the rounded sum of its integer part and its fraction, brought back to its own places. -/
def toBinary (d : Decimal) : Binary64 :=
  let power := Nat.pow 10 d.scale
  let whole := Binary64.ofRatio false (d.coefficient / power) 1
  let unit := Binary64.ofRatio false power 1
  let rest := Binary64.ofRatio false (d.coefficient % power) 1
  let fraction := Binary64.nearest (rest.toRat / unit.toRat)
  let magnitude :=
    if fraction.isZero then whole
    else
      let sum := Binary64.nearest (whole.toRat + fraction.toRat)
      let shifted := Binary64.nearest (sum.toRat * unit.toRat)
      let rounded := Binary64.nearest ((shifted.toRat + mkRat 1 2).floor : Rat)
      Binary64.nearest (rounded.toRat / unit.toRat)
  { magnitude with negative := d.negative }

end Decimal

end Questionnaire
