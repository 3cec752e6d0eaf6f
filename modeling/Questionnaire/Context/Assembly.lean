import Questionnaire.Context
import Questionnaire.Document.Response
import Questionnaire.Value.Conversion

/-! Contexts from response documents. -/
namespace Questionnaire

mutual

/-- The node that a document describes. Of a node with items the value is not looked at. -/
def ResponseNode.ofDocument : Document.ResponseNode → Except Error ResponseNode
  | .mk key _ (some items) => return .group key (← ofDocuments items)
  | .mk key none none => .ok (.leaf key none)
  | .mk key (some value) none => return .leaf key (some (← Value.ofJson value))

def ResponseNode.ofDocuments : List Document.ResponseNode → Except Error (List ResponseNode)
  | [] => .ok []
  | node :: rest => do
    let first ← ResponseNode.ofDocument node
    return first :: (← ofDocuments rest)

end

/-- The second that a document gives as the time of evaluation. -/
def Document.EvaluationTime.seconds : Document.EvaluationTime → Except Error Int64
  | .unix seconds => .ok seconds
  | .text s =>
    match Rfc3339.seconds? s.toList with
    | .ok seconds => .ok (.ofInt seconds)
    | .error fault => .error (.malformed (.unreadableTime s fault))

namespace Context

def addAttribute (ctx : Context) (named : String × Json) : Except Error Context := do
  return ctx.insertAttribute named.1 (← Value.ofJson named.2)

def addResponse (ctx : Context) (entry : Document.ResponseEntry) : Except Error Context := do
  return ctx.insertResponse entry.key (← ResponseNode.ofDocument entry.response)

/-- The context of a document: first the time, then the attributes in the order of their names, then
the responses as they stand, a later one to an item in place of an earlier one. -/
def ofDocument (document : Document.Response) (now : Int64) : Except Error Context := do
  let time ← (document.evaluationTime.map (·.seconds)).getD (.ok now)
  let start := { empty time with participantId := document.participantId }
  let attributed ← document.attributes.foldlM addAttribute start
  document.responses.foldlM addResponse attributed

/-- The context of a response document. Without a time of its own it is evaluated `now`. -/
def ofJson (j : Json) (now : Int64) : Except Error Context :=
  match Document.Response.ofJson j with
  | .ok document => ofDocument document now
  | .error fault => .error (.malformed (.document fault))

end Context

end Questionnaire
