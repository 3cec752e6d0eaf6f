import Questionnaire.Binary64.Shortest
import Questionnaire.Fields

/-! JSON values, with integers kept apart from other numbers. -/
namespace Questionnaire

/-- A JSON number: an integer, or any other number rounded to binary. -/
inductive Json.Number where
  | int (value : Int)
  | float (value : Binary64)
  deriving DecidableEq, Repr, Inhabited

/-- A JSON value. The members of an object are ascending by name, each name at most once. -/
inductive Json where
  | null
  | bool (value : Bool)
  | number (value : Json.Number)
  | string (value : String)
  | array (items : List Json)
  | object (members : List (String × Json))
  deriving Repr, Inhabited

namespace Json

def Number.text : Number → String
  | .int value => toString value
  | .float value => value.text

def int (value : Int) : Json := .number (.int value)

def nat (value : Nat) : Json := .number (.int value)

/-- An object from members in any order. -/
def ofMembers (members : List (String × Json)) : Json := .object (Fields.ofList members)

/-- An array of texts. -/
def ofTexts (texts : List String) : Json := .array (texts.map .string)

def member? (name : String) : Json → Option Json
  | .object members => Fields.get? name members
  | _ => none

def string? : Json → Option String
  | .string s => some s
  | _ => none

end Json

end Questionnaire
