import Questionnaire.Error

/-! Response documents: what a respondent answered, with attributes and the time of evaluation. -/
namespace Questionnaire.Document

/-- A node with items is a group, and one without is a leaf. -/
inductive ResponseNode where
  | mk (key : String) (value : Option Json) (items : Option (List ResponseNode))
  deriving Inhabited

/-- The response to an item. -/
structure ResponseEntry where
  key : String
  response : ResponseNode

/-- Seconds since the beginning of 1970, or a text. -/
inductive EvaluationTime where
  | unix (seconds : Int64)
  | text (text : String)
  deriving DecidableEq, Repr

structure Response where
  participantId : Option String
  evaluationTime : Option EvaluationTime
  attributes : List (String × Json)
  responses : List ResponseEntry

namespace ResponseNode

def form : RecordForm := ⟨"struct ResponseNodeConstruct", ["key", "value", "items"], false⟩

structure Draft where
  key : Option String
  value : Option Json
  items : Option (List ResponseNode)

/-- A part as it stands, and as a list of nodes. -/
abbrev Part := Json × Except ShapeFault (Option (List ResponseNode))

def Draft.put (draft : Draft) (name : String) (part : Part) : Except ShapeFault Draft :=
  match name with
  | "key" => return { draft with key := some (← readText part.1) }
  | "value" => return { draft with value := ← readOptional readAny part.1 }
  | "items" => return { draft with items := ← part.2 }
  | _ => .ok draft

def Draft.finish (draft : Draft) : Except String ResponseNode :=
  match draft.key with
  | some key => .ok (.mk key draft.value draft.items)
  | none => .error "key"

def ofParts (parts : Parts Part) : Except ShapeFault ResponseNode :=
  form.read ⟨none, none, none⟩ Draft.put Draft.finish parts

mutual

def ofJson : Json → Except ShapeFault ResponseNode
  | .object members => ofParts (.named (memberParts members))
  | .array items => ofParts (.positional (itemParts items))
  | j => wrongType j (.record form.name)

def listOfJson : List Json → Except ShapeFault (List ResponseNode)
  | [] => .ok []
  | j :: rest => do
    let node ← ofJson j
    return node :: (← listOfJson rest)

def memberParts : List (String × Json) → List (String × Part)
  | [] => []
  | (name, j) :: rest => (name, part j) :: memberParts rest

def itemParts : List Json → List Part
  | [] => []
  | j :: rest => part j :: itemParts rest

def part : Json → Part
  | .array items => (.array items, (listOfJson items).map some)
  | .null => (.null, .ok none)
  | j => (j, wrongType j .list)

end

mutual

def toJson : ResponseNode → Json
  | .mk key value none => .ofMembers <|
    ("key", .string key) :: (value.map fun v => ("value", v)).toList
  | .mk key value (some items) => .ofMembers <|
    ("items", .array (listToJson items)) :: ("key", .string key) ::
      (value.map fun v => ("value", v)).toList

def listToJson : List ResponseNode → List Json
  | [] => []
  | node :: rest => toJson node :: listToJson rest

end

end ResponseNode

namespace ResponseEntry

def form : RecordForm := ⟨"struct ResponseConstruct", ["key", "response"], false⟩

structure Draft where
  key : Option String
  response : Option ResponseNode

def Draft.put (draft : Draft) (name : String) (j : Json) : Except ShapeFault Draft :=
  match name with
  | "key" => return { draft with key := some (← readText j) }
  | "response" => return { draft with response := some (← ResponseNode.ofJson j) }
  | _ => .ok draft

def Draft.finish (draft : Draft) : Except String ResponseEntry :=
  match draft.key, draft.response with
  | none, _ => .error "key"
  | _, none => .error "response"
  | some key, some response => .ok ⟨key, response⟩

def ofJson (j : Json) : Except ShapeFault ResponseEntry :=
  form.readJson ⟨none, none⟩ Draft.put Draft.finish j

def toJson (entry : ResponseEntry) : Json :=
  .object [("key", .string entry.key), ("response", entry.response.toJson)]

end ResponseEntry

namespace EvaluationTime

def ofJson : Json → Except ShapeFault EvaluationTime
  | .number (.int i) =>
    if Int64.minValue.toInt ≤ i ∧ i ≤ Int64.maxValue.toInt then .ok (.unix (.ofInt i))
    else .error (.noVariant "EvaluationTime")
  | .string s => .ok (.text s)
  | _ => .error (.noVariant "EvaluationTime")

def toJson : EvaluationTime → Json
  | unix seconds => .int seconds.toInt
  | text s => .string s

end EvaluationTime

namespace Response

def form : RecordForm :=
  ⟨"struct ResponseDocument", ["participantId", "evaluationTime", "attributes", "responses"], false⟩

def readAttributes : Json → Except ShapeFault (List (String × Json))
  | .object members => .ok members
  | j => wrongType j .map

def empty : Response := ⟨none, none, [], []⟩

def put (draft : Response) (name : String) (j : Json) : Except ShapeFault Response :=
  match name with
  | "participantId" => return { draft with participantId := ← readOptional readText j }
  | "evaluationTime" =>
    return { draft with evaluationTime := ← readOptional EvaluationTime.ofJson j }
  | "attributes" => return { draft with attributes := ← readAttributes j }
  | "responses" => return { draft with responses := ← readList ResponseEntry.ofJson j }
  | _ => .ok draft

def ofJson (j : Json) : Except Fault Response :=
  match j with
  | .object _ =>
    match form.readJson empty put (fun draft => .ok draft) j with
    | .ok document => .ok document
    | .error fault => .error (.misshapen fault)
  | _ => .error (.notObject "responses")

def toJson (document : Response) : Json := .ofMembers <|
  [("attributes", .object document.attributes),
    ("responses", .array (document.responses.map ResponseEntry.toJson))] ++
  (document.participantId.map fun id => ("participantId", .string id)).toList ++
  (document.evaluationTime.map fun t => ("evaluationTime", t.toJson)).toList

end Response

end Questionnaire.Document
