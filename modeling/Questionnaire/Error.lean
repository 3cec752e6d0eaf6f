import Questionnaire.Calendar.Rfc3339
import Questionnaire.Document.Shape
import Questionnaire.Operator
import Questionnaire.Value

/-! The causes for which a document cannot be loaded or an expression has no value. -/
namespace Questionnaire

/-- Why a text is no document. -/
inductive Document.Fault where
  | missingMember (name : String)
  | unsupportedVersion (version : String)
  | notObject (what : String)
  | misshapen (fault : ShapeFault)
  deriving DecidableEq, Repr

def Document.Fault.message : Document.Fault → String
  | .missingMember name => s!"document missing required field: '{name}'"
  | .unsupportedVersion version => s!"unsupported canvass format version: '{version}'"
  | .notObject what => s!"invalid document: {what} must be a JSON object"
  | .misshapen fault => s!"invalid document: {fault.message}"

/-- Why a document or an expression cannot be loaded. -/
inductive LoadFault where
  | callWithoutName
  | argumentsNotArray (operator : String)
  | arrayAsExpression
  | arrayAsValue
  | numberOutOfRange (number : Json.Number)
  | unknownRole (name : String)
  | unknownOptionRole (name : String)
  | unknownSeverity (name : String)
  | unreadableTime (text : String) (fault : Rfc3339.Fault)
  | document (fault : Document.Fault)
  deriving DecidableEq, Repr

def LoadFault.message : LoadFault → String
  | .callWithoutName => "call missing string field 'name'"
  | .argumentsNotArray operator => s!"'args' of '{operator}' must be an array"
  | .arrayAsExpression => "expression must be a scalar literal or a call object"
  | .arrayAsValue => "arrays are not supported as values"
  | .numberOutOfRange number => s!"number out of range: {number.text}"
  | .unknownRole name => s!"unknown response role: '{name}'"
  | .unknownOptionRole name => s!"unknown option role: '{name}'"
  | .unknownSeverity name => s!"unknown severity: '{name}'"
  | .unreadableTime text fault => s!"evaluationTime '{text}' is not RFC 3339: {fault.message}"
  | .document fault => fault.message

/-- Why an operand does not suit its operator. -/
inductive TypeFault where
  | notBool (found : Kind)
  | notNumber (found : Kind)
  | textNotNumber (text : String)
  | notText (found : Kind)
  | argumentNotText (found : Kind)
  | keyNotText (found : Kind)
  | recordAgainst (other : Kind)
  | nodeIsGroup (path item : String)
  | baseNotRecord (found : Kind)
  | unknownUnit (unit : String)
  deriving DecidableEq, Repr

def TypeFault.message : TypeFault → String
  | .notBool found => s!"expected Bool, got {found.name}"
  | .notNumber found => s!"expected Number, got {found.name}"
  | .textNotNumber text => s!"text '{text}' is not a number"
  | .notText found => s!"expected Text, got {found.name}"
  | .argumentNotText found => s!"expected Text argument, got {found.name}"
  | .keyNotText found => s!"option keys must be Text, got {found.name}"
  | .recordAgainst other => s!"cannot compare Record with {other.name}"
  | .nodeIsGroup path item => s!"response node '{path}' of item '{item}' is a group, not a value"
  | .baseNotRecord found => s!"attribute base must be a Record, got {found.name}"
  | .unknownUnit unit =>
    s!"unknown date unit '{unit}' (expected years, months, weeks, days or hours)"

/-- What exceeds the range of numbers or of dates. -/
inductive Overflow where
  | sum (total summand : Decimal)
  | offset (base seconds : Decimal)
  | dateValue (value : Decimal)
  | dateSeconds (seconds : Int)
  | evaluationTime (seconds : Int)
  deriving DecidableEq, Repr

def Overflow.message : Overflow → String
  | .sum total summand => s!"{total.toText} + {summand.toText}"
  | .offset base seconds => s!"timestamp {base.toText} offset by {seconds.toText}"
  | .dateValue value => s!"date value {value.toText} out of range"
  | .dateSeconds seconds => s!"date value {seconds}: timestamp was not in range"
  | .evaluationTime seconds => s!"evaluation time {seconds}: timestamp was not in range"

inductive Error where
  | unknownOperator (name : String)
  | arity (operator : Operator) (found : Nat)
  | typeError (operator : String) (fault : TypeFault)
  | missingResponse (item : String)
  | missingNode (item path : String)
  | missingAttribute (name : String)
  | overflow (cause : Overflow)
  | malformed (fault : LoadFault)
  | condition (item : String) (source : Error)
  deriving DecidableEq, Repr

namespace Error

def message : Error → String
  | unknownOperator name => s!"unknown operator: {name}"
  | arity operator found =>
    s!"operator '{operator.name}' expects {operator.arity.text} argument(s), got {found}"
  | typeError operator fault => s!"type error in '{operator}': {fault.message}"
  | missingResponse item => s!"no response for item '{item}'"
  | missingNode item path => s!"no response node at '{path}' for item '{item}'"
  | missingAttribute name => s!"attribute not found: {name}"
  | overflow cause => s!"numeric overflow: {cause.message}"
  | malformed fault => s!"deserialization error: {fault.message}"
  | condition item source =>
    s!"condition of item '{item}' could not be evaluated: {source.message}"

/-- Whether the only cause is that data is absent. -/
def isAbsence : Error → Bool
  | missingResponse _ => true
  | missingNode _ _ => true
  | missingAttribute _ => true
  | _ => false

end Error

end Questionnaire
