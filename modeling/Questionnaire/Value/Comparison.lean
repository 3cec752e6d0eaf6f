import Questionnaire.Value.Conversion

/-! Equality, order and sums of values. -/
namespace Questionnaire.Value

/-- If either side is a text, the text forms are compared, and what has none equals nothing. Null
equals only itself, and a record compares with records alone. -/
def equals (left right : Value) : Except Error Bool :=
  match left, right with
  | .text s, v => .ok (v.toText? = some s)
  | v, .text s => .ok (v.toText? = some s)
  | .null, .null => .ok true
  | .null, _ => .ok false
  | _, .null => .ok false
  | .bool a, .bool b => .ok (a = b)
  | .record a, .record b => .ok (sameFields a b)
  | .record _, v => .error (.typeError "eq" (.recordAgainst v.kind))
  | v, .record _ => .error (.typeError "eq" (.recordAgainst v.kind))
  | v, w => do return (← asNumber "eq" v).equal (← asNumber "eq" w)

/-- Texts compare by code points and all else as numbers; nothing compares with null. -/
def order (operator : String) (left right : Value) : Except Error (Option Ordering) :=
  match left, right with
  | .null, _ => .ok none
  | _, .null => .ok none
  | .text s, .text t => .ok (some (compare s t))
  | v, w => do return some ((← asNumber operator v).order (← asNumber operator w))

/-- A summand, null counting as zero. -/
def summand : Value → Except Error Decimal
  | .null => .ok .zero
  | v => v.asNumber "sum"

def addSummand (total : Decimal) (v : Value) : Except Error Decimal := do
  let n ← v.summand
  match total.add? n with
  | some d => return d
  | none => .error (.overflow (.sum total n))

/-- The sum from left to right. -/
def sum (values : List Value) : Except Error Decimal := values.foldlM addSummand .zero

/-- A timestamp some seconds later. -/
def offset (base seconds : Decimal) : Except Error Decimal :=
  match base.add? seconds with
  | some d => .ok d
  | none => .error (.overflow (.offset base seconds))

end Questionnaire.Value
