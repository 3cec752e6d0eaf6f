import Questionnaire.Decimal.Text
import Questionnaire.Fields

/-! Values of expressions and attributes. -/
namespace Questionnaire

/-- A record has its fields in ascending order of their names. -/
inductive Value where
  | null
  | bool (value : Bool)
  | number (value : Decimal)
  | text (value : String)
  | record (fields : List (String × Value))
  deriving Repr, Inhabited

/-- The five kinds of values. -/
inductive Kind where
  | null
  | bool
  | number
  | text
  | record
  deriving DecidableEq, Repr

def Kind.name : Kind → String
  | .null => "Null"
  | .bool => "Bool"
  | .number => "Number"
  | .text => "Text"
  | .record => "Record"

namespace Value

def kind : Value → Kind
  | .null => .null
  | .bool _ => .bool
  | .number _ => .number
  | .text _ => .text
  | .record _ => .record

def isNull : Value → Bool
  | .null => true
  | _ => false

def int (i : Int) : Value := .number (.ofInt i)

/-- The text form by which texts compare with other scalars. -/
def toText? : Value → Option String
  | .text s => some s
  | .number d => some d.canonicalText
  | .bool b => some (if b then "true" else "false")
  | .null => none
  | .record _ => none

/-- How a value counts as the result of a rule. -/
def truthy : Value → Bool
  | .null => false
  | .bool b => b
  | .number d => !d.isZero
  | .text s => s ≠ ""
  | .record _ => true

mutual

/-- Equal values; numbers may differ in their representation. -/
def same : Value → Value → Bool
  | .null, .null => true
  | .bool a, .bool b => a = b
  | .number a, .number b => a.equal b
  | .text a, .text b => a = b
  | .record a, .record b => sameFields a b
  | _, _ => false

def sameFields : List (String × Value) → List (String × Value) → Bool
  | [], [] => true
  | (m, v) :: a, (n, w) :: b => m = n && same v w && sameFields a b
  | _, _ => false

end

/-- The value at the end of a path of field names. -/
def walk : List String → Value → Option Value
  | [], v => some v
  | segment :: path, .record fields => (Fields.get? segment fields).bind (walk path)
  | _ :: _, _ => none

end Value

end Questionnaire
