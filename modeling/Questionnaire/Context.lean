import Questionnaire.Error
import Questionnaire.Response

/-! What expressions are evaluated against: responses, attributes, and the time. -/
namespace Questionnaire

/-- The responses by item, the attributes by their first segment, and the second of evaluation. -/
structure Context where
  responses : Fields ResponseNode
  attributes : Fields Value
  participantId : Option String
  evaluationTime : Int64
  deriving Repr, Inhabited

namespace Context

/-- A context without any data. -/
def empty (evaluationTime : Int64) : Context := ⟨[], [], none, evaluationTime⟩

def withParticipantId (ctx : Context) (id : String) : Context :=
  { ctx with participantId := some id }

/-- Set the response to an item. -/
def insertResponse (ctx : Context) (item : String) (node : ResponseNode) : Context :=
  { ctx with responses := Fields.insert item node ctx.responses }

/-- The fields of a record; of anything else there are none. -/
def fieldsOf : Option Value → Fields Value
  | some (.record fields) => fields
  | _ => []

/-- Set the value at the end of a path. On the way records are made where there are none, in place
of scalars too. -/
def insertAt (value : Value) : List String → Fields Value → Fields Value
  | [], fields => fields
  | [last], fields => Fields.insert last value fields
  | segment :: path, fields =>
    Fields.insert segment
      (.record (insertAt value path (fieldsOf (Fields.get? segment fields)))) fields

/-- Set the attribute at a dotted path. -/
def insertAttribute (ctx : Context) (path : String) (value : Value) : Context :=
  { ctx with attributes := insertAt value (Text.segments path) ctx.attributes }

def response? (ctx : Context) (item : String) : Option ResponseNode :=
  Fields.get? item ctx.responses

/-- The attribute at a dotted path. -/
def attribute? (ctx : Context) (path : String) : Option Value :=
  Value.walk (Text.segments path) (.record ctx.attributes)

/-- The node at a dotted path in the response to an item. -/
def node? (ctx : Context) (item path : String) : Option ResponseNode :=
  (ctx.response? item).bind (·.resolve path)

def leafValue? (ctx : Context) (item path : String) : Option Value :=
  (ctx.node? item path).bind (·.leafValue?)

/-- The attributes, with the identity of the participant and the time of evaluation in place of any
attributes of these names. -/
def rootFields (ctx : Context) : Fields Value :=
  let named :=
    match ctx.participantId with
    | some id => Fields.insert "participantId" (.text id) ctx.attributes
    | none => ctx.attributes
  Fields.insert "evaluationTime" (.int ctx.evaluationTime.toInt) named

def rootRecord (ctx : Context) : Value := .record ctx.rootFields

/-- The date and time of evaluation. -/
def moment (ctx : Context) : Except Error Moment :=
  match Moment.ofSeconds? ctx.evaluationTime.toInt with
  | some moment => .ok moment
  | none => .error (.overflow (.evaluationTime ctx.evaluationTime.toInt))

/-- The flag of the participant with this key. -/
def participantFlag? (ctx : Context) (key : String) : Option Value :=
  match ctx.attribute? "participantFlags" with
  | some (.record flags) => Fields.get? key flags
  | _ => none

end Context

end Questionnaire
