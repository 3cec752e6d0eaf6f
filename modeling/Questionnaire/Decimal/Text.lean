import Questionnaire.Decimal

/-! Decimal numbers as texts: plain notation, and reading with an exponent. -/
namespace Questionnaire.Decimal

/-- Plain notation with as many places as the scale. -/
def toText (d : Decimal) : String :=
  let digits := Nat.toDigits 10 d.coefficient
  let padded := List.replicate (d.scale + 1 - digits.length) '0' ++ digits
  let whole := padded.take (padded.length - d.scale)
  let fraction := padded.drop (padded.length - d.scale)
  String.ofList <| (if d.negative then ['-'] else []) ++ whole ++
    (if d.scale = 0 then [] else '.' :: fraction)

/-- The one text of a number, whatever its representation. -/
def canonicalText (d : Decimal) : String := d.normalize.toText

def digit? (c : Char) : Option Nat := if c.isDigit then some (c.toNat - '0'.toNat) else none

/-- What is read so far: coefficient and scale, and whether a point and a digit were seen. -/
structure Reading where
  coefficient : Nat
  scale : Nat
  point : Bool
  started : Bool

def Reading.empty : Reading := ⟨0, 0, false, false⟩

/-- Round up by one unit; a coefficient that no longer fits loses its last place. -/
def Reading.roundUp? (r : Reading) : Option Reading :=
  if r.coefficient + 1 < coefficientBound then some { r with coefficient := r.coefficient + 1 }
  else if r.scale = 0 then none
  else some { r with coefficient := (r.coefficient + 5) / 10, scale := r.scale - 1 }

/-- Digits with at most one point; underscores may follow a digit. The first digit that has no room
after the point rounds, and those after it are ignored. -/
def Reading.digits? (r : Reading) : List Char → Option Reading
  | [] => if r.started then some r else none
  | c :: rest =>
    match digit? c with
    | some d =>
      let next := 10 * r.coefficient + d
      if r.point && (r.scale = 28 || coefficientBound ≤ next) then
        if rest.all fun c => c.isDigit || c = '_' then
          if 5 ≤ d then r.roundUp? else some r
        else none
      else if coefficientBound ≤ next then none
      else
        digits? ⟨next, if r.point then r.scale + 1 else 0, r.point, true⟩ rest
    | none =>
      if c = '.' && !r.point then digits? { r with point := true } rest
      else if c = '_' && r.started then digits? r rest
      else none

/-- An optional sign before the digits. -/
def ofPlain? (s : List Char) : Option Decimal :=
  let (negative, body) :=
    match s with
    | '-' :: rest => (true, rest)
    | '+' :: rest => (false, rest)
    | s => (false, s)
  (Reading.empty.digits? body).bind fun r => ofParts? negative r.coefficient r.scale

/-- A natural number below `2 ^ 32`, after an optional plus sign. -/
def exponent? (s : List Char) : Option Nat :=
  let body := match s with
    | '+' :: rest => rest
    | s => s
  if body.isEmpty then none
  else
    (body.mapM digit?).bind fun ds =>
      let n := ds.foldl (fun n d => 10 * n + d) 0
      if n < UInt32.size then some n else none

/-- Move the point to the left; places beyond the last one are rounded off, halves upwards. -/
def shiftLeft? (d : Decimal) (n : Nat) : Option Decimal :=
  if 28 < n then none
  else if d.scale + n ≤ 28 then ofParts? d.negative d.coefficient (d.scale + n)
  else
    let unit := Nat.pow 10 (d.scale + n - 28)
    ofParts? d.negative ((d.coefficient + unit / 2) / unit) 28

/-- Move the point to the right. -/
def shiftRight? (d : Decimal) (n : Nat) : Option Decimal :=
  if n ≤ d.scale then ofParts? d.negative d.coefficient (d.scale - n)
  else if 28 < n then none
  else ofParts? d.negative (d.coefficient * Nat.pow 10 (n - d.scale)) 0

def isExponentMark (c : Char) : Bool := c = 'e' || c = 'E'

/-- A plain number, an `e` and an exponent. -/
def ofScientific? (s : List Char) : Option Decimal :=
  match s.dropWhile fun c => !isExponentMark c with
  | [] => none
  | _ :: exponent => do
    let base ← ofPlain? (s.takeWhile fun c => !isExponentMark c)
    match exponent with
    | '-' :: digits => base.shiftLeft? (← exponent? digits)
    | digits => base.shiftRight? (← exponent? digits)

/-- Read a number in plain or in scientific notation. -/
def ofText? (s : List Char) : Option Decimal :=
  match ofPlain? s with
  | some d => some d
  | none => ofScientific? s

end Questionnaire.Decimal
