import Questionnaire.Binary64

/-! The shortest decimal text that reads back as a given floating-point number. -/
namespace Questionnaire.Binary64

/-- Four times the significand, and the two ends of the numbers that round to it, on the same
grid of quarters. Below a power of two the neighbours are closer. -/
structure Interval where
  low : Nat
  value : Nat
  high : Nat
  closed : Bool

def interval (x : Binary64) : Interval where
  low := 4 * x.significand -
    (if x.significand = significandBound / 2 ∧ minExponent < x.exponent then 1 else 2)
  value := 4 * x.significand
  high := 4 * x.significand + 2
  closed := x.significand % 2 = 0

/-- Whether `digits * 10 ^ place` rounds to the number whose interval is counted in units of
`num / den`. -/
def Interval.holds (i : Interval) (num den digits : Nat) (place : Int) : Bool :=
  let (n, d) :=
    if 0 ≤ place then (digits * Nat.pow 10 place.toNat, 1) else (digits, Nat.pow 10 (-place).toNat)
  let point := n * den
  let low := i.low * num * d
  let high := i.high * num * d
  if i.closed then low ≤ point && point ≤ high else low < point && point < high

/-- The decimal exponent `k` with `10 ^ (k - 1) ≤ num / den < 10 ^ k`, by trying all that a finite
number can have. -/
def decimalExponent (num den : Nat) : Int :=
  let below (k : Int) : Bool :=
    if 0 ≤ k then num < den * Nat.pow 10 k.toNat else num * Nat.pow 10 (-k).toNat < den
  let start : Int := ((num.log2 : Int) - den.log2) * 3 / 10 - 2
  ((List.range 40).map fun (i : Nat) => start + (i : Int)).find? below |>.getD start

/-- The decimal on the grid of `count` digits that reads back as the number and is nearest to it. -/
def onGrid (i : Interval) (num den count : Nat) (magnitude : Int) : Option (Nat × Int) :=
  let place := magnitude - count
  let (n, d) :=
    if 0 ≤ place then (i.value * num, den * Nat.pow 10 place.toNat)
    else (i.value * num * Nat.pow 10 (-place).toNat, den)
  let floor := n / d
  let lowHit := i.holds num den floor place
  let highHit := i.holds num den (floor + 1) place
  match lowHit, highHit with
  | false, false => none
  | true, false => some (floor, place)
  | false, true => some (floor + 1, place)
  | true, true => some (roundHalfEven n d, place)

/-- Digits and place of the shortest decimal that reads back; of several, the nearest. A number just
below a power of ten can meet it on the coarsest grid, written there with a zero. -/
def shortest (x : Binary64) : Nat × Int :=
  if x.isZero then (0, 0)
  else
    let unit := x.exponent - 2
    let num := 1 <<< unit.toNat
    let den := 1 <<< (-unit).toNat
    let i := x.interval
    let magnitude := decimalExponent (i.value * num) den
    let (digits, place) :=
      ((List.range 17).findSome? fun n => onGrid i num den (n + 1) magnitude).getD (0, 0)
    if digits % 10 = 0 then (digits / 10, place + 1) else (digits, place)

/-- Plain notation is used when the first digit stands for a power of ten in this range. -/
def isPlain (power : Int) : Bool := -5 ≤ power && power ≤ 15

/-- The text of a number: plain with a point, or one digit before the point and an exponent with
its sign. -/
def text (x : Binary64) : String :=
  let sign := if x.negative then "-" else ""
  if x.isZero then sign ++ "0.0"
  else
    let (value, place) := x.shortest
    let digits := Nat.toDigits 10 value
    let power : Int := place + digits.length - 1
    let body : List Char :=
      if isPlain power then
        if 0 ≤ place then digits ++ List.replicate place.toNat '0' ++ ['.', '0']
        else if 0 ≤ power then
          digits.take (power.toNat + 1) ++ '.' :: digits.drop (power.toNat + 1)
        else ['0', '.'] ++ List.replicate (-power - 1).toNat '0' ++ digits
      else
        let fraction := if digits.length ≤ 1 then [] else '.' :: digits.drop 1
        digits.take 1 ++ fraction ++ ['e', if power < 0 then '-' else '+'] ++
          Nat.toDigits 10 power.natAbs
    sign ++ String.ofList body

end Questionnaire.Binary64
