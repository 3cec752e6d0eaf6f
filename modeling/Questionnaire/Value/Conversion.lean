import Questionnaire.Error
import Questionnaire.Json.Writer
import Questionnaire.Text.Blank

/-! Values as booleans, numbers and texts, and as JSON. -/
namespace Questionnaire.Value

/-- The operator named in a type error is the one that asks for the boolean. -/
def asBool (operator : String) : Value → Except Error Bool
  | .bool b => .ok b
  | v => .error (.typeError operator (.notBool v.kind))

/-- A number, a boolean as one or zero, or a text that is a number but for white space around it. -/
def asNumber (operator : String) : Value → Except Error Decimal
  | .number d => .ok d
  | .bool b => .ok (if b then .one else .zero)
  | .text s =>
    match Decimal.ofText? (Text.trimmed s.toList) with
    | some d => .ok d
    | none => .error (.typeError operator (.textNotNumber s))
  | v => .error (.typeError operator (.notNumber v.kind))

def asText (operator : String) : Value → Except Error String
  | .text s => .ok s
  | v => .error (.typeError operator (.notText v.kind))

/-- An integer exactly, any other number through its shortest text. -/
def decimalOfNumber (n : Json.Number) : Except Error Decimal :=
  let decimal? :=
    match n with
    | .int i => Decimal.ofInt? i
    | .float x => Decimal.ofText? x.text.toList
  match decimal? with
  | some d => .ok d
  | none => .error (.malformed (.numberOutOfRange n))

mutual

/-- Objects become records; an array at any depth is refused. -/
def ofJson : Json → Except Error Value
  | .null => .ok .null
  | .bool b => .ok (.bool b)
  | .number n => (decimalOfNumber n).map .number
  | .string s => .ok (.text s)
  | .array _ => .error (.malformed .arrayAsValue)
  | .object members => (ofMembers members).map .record

def ofMembers : List (String × Json) → Except Error (List (String × Value))
  | [] => .ok []
  | (name, j) :: rest => do
    let v ← ofJson j
    return (name, v) :: (← ofMembers rest)

end

/-- An integer of 64 bits stays one, and any other number becomes binary. -/
def numberToJson (d : Decimal) : Json :=
  match if d.isInteger then d.toInt64? else none with
  | some i => .int i.toInt
  | none => .number (.float d.toBinary)

mutual

def toJson : Value → Json
  | .null => .null
  | .bool b => .bool b
  | .number d => numberToJson d
  | .text s => .string s
  | .record fields => .object (fieldsToJson fields)

def fieldsToJson : List (String × Value) → List (String × Json)
  | [] => []
  | (name, v) :: rest => (name, toJson v) :: fieldsToJson rest

end

/-- The text that shows a value: a text in quotes, a record as compact JSON. -/
def display : Value → String
  | .null => "null"
  | .bool b => if b then "true" else "false"
  | .number d => d.canonicalText
  | .text s => Text.quoted s
  | .record fields => (toJson (.record fields)).compact

end Questionnaire.Value
