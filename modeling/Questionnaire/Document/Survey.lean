import Questionnaire.Error
import Questionnaire.Terms

/-! Survey documents: trees of groups, questions and page breaks, with their expressions as JSON. -/
namespace Questionnaire.Document

/-- A rule of an item. -/
structure Rule where
  key : String
  severity : String
  rule : Json

/-- An option of a question. -/
structure Choice where
  key : String
  role : String
  displayCondition : Option Json
  disabled : Option Json

inductive Item where
  | group (key : String) (version : Nat) (condition : Option Json) (rules : List Rule)
      (selection : Selection) (items : List Item)
  | question (key : String) (version : Nat) (condition : Option Json) (rules : List Rule)
      (role : String) (options : List Choice)
  | pageBreak (key : String) (condition : Option Json)
  deriving Inhabited

structure Survey where
  id : String
  format : Option String
  root : Item

/-- A member that is written only if there is a value. -/
def optionalMember (name : String) (value : Option Json) : List (String × Json) :=
  (value.map fun j => (name, j)).toList

/-- A member that is written only if the list is not empty. -/
def listMember (name : String) (items : List Json) : List (String × Json) :=
  if items.isEmpty then [] else [(name, .array items)]

namespace Rule

def form : RecordForm := ⟨"struct ValidationConstruct", ["key", "severity", "rule"], true⟩

structure Draft where
  key : Option String
  severity : Option String
  rule : Option Json

def Draft.put (draft : Draft) (name : String) (j : Json) : Except ShapeFault Draft :=
  match name with
  | "key" => return { draft with key := some (← readText j) }
  | "severity" => return { draft with severity := some (← readText j) }
  | "rule" => return { draft with rule := some j }
  | _ => .ok draft

def Draft.finish (draft : Draft) : Except String Rule :=
  match draft.key, draft.severity, draft.rule with
  | none, _, _ => .error "key"
  | _, none, _ => .error "severity"
  | _, _, none => .error "rule"
  | some key, some severity, some rule => .ok ⟨key, severity, rule⟩

def ofJson (j : Json) : Except ShapeFault Rule :=
  form.readJson ⟨none, none, none⟩ Draft.put Draft.finish j

def toJson (r : Rule) : Json :=
  .object [("key", .string r.key), ("rule", r.rule), ("severity", .string r.severity)]

end Rule

namespace Choice

def form : RecordForm :=
  ⟨"struct OptionConstruct", ["key", "role", "displayCondition", "disabled"], true⟩

structure Draft where
  key : Option String
  role : String
  displayCondition : Option Json
  disabled : Option Json

def Draft.put (draft : Draft) (name : String) (j : Json) : Except ShapeFault Draft :=
  match name with
  | "key" => return { draft with key := some (← readText j) }
  | "role" => return { draft with role := ← readText j }
  | "displayCondition" => return { draft with displayCondition := ← readOptional readAny j }
  | "disabled" => return { draft with disabled := ← readOptional readAny j }
  | _ => .ok draft

def Draft.finish (draft : Draft) : Except String Choice :=
  match draft.key with
  | some key => .ok ⟨key, draft.role, draft.displayCondition, draft.disabled⟩
  | none => .error "key"

def ofJson (j : Json) : Except ShapeFault Choice :=
  form.readJson ⟨none, OptionRole.option.name, none, none⟩ Draft.put Draft.finish j

def toJson (c : Choice) : Json := .ofMembers <|
  [("key", .string c.key), ("role", .string c.role)] ++
  optionalMember "displayCondition" c.displayCondition ++ optionalMember "disabled" c.disabled

end Choice

/-- How a group's selection is written. -/
def selectionForm : TaggedForm := ⟨"SelectionConstruct", "method", ["sequential", "randomSubset"]⟩

def subsetForm : RecordForm := ⟨"struct variant SelectionConstruct::RandomSubset", ["n"], true⟩

def putCount (draft : Option Nat) (name : String) (j : Json) : Except ShapeFault (Option Nat) :=
  match name with
  | "n" => return some (← readSize j)
  | _ => .ok draft

def finishCount : Option Nat → Except String Selection
  | some n => .ok (.randomSubset n)
  | none => .error "n"

def readSelection (j : Json) : Except ShapeFault Selection :=
  match parts? j with
  | none => wrongType j (.tagged selectionForm.name)
  | some parts => do
    match ← selectionForm.split true id parts with
    | (0, .positional (item :: items)) =>
      .error (.wrongLength (item :: items).length (.exactly 0))
    | (0, _) => return .sequential
    | (_, parts) => subsetForm.read none putCount finishCount parts

def selectionToJson : Selection → Json
  | .sequential => .object [("method", .string "sequential")]
  | .randomSubset n => .object [("method", .string "randomSubset"), ("n", .nat n)]

namespace Item

def key : Item → String
  | group key .. => key
  | question key .. => key
  | pageBreak key _ => key

def form : TaggedForm := ⟨"ItemConstruct", "kind", ["group", "question", "pageBreak"]⟩

/-- A part as it stands, and as a list of items. -/
abbrev Part := Json × Except ShapeFault (List Item)

def groupForm : RecordForm :=
  ⟨"struct GroupConstruct",
    ["key", "version", "condition", "validations", "selection", "items"], true⟩

structure GroupDraft where
  key : Option String
  version : Nat
  condition : Option Json
  rules : List Rule
  selection : Selection
  items : List Item

def GroupDraft.empty : GroupDraft := ⟨none, 0, none, [], .sequential, []⟩

def GroupDraft.put (draft : GroupDraft) (name : String) (part : Part) :
    Except ShapeFault GroupDraft :=
  match name with
  | "key" => return { draft with key := some (← readText part.1) }
  | "version" => return { draft with version := ← readWord32 part.1 }
  | "condition" => return { draft with condition := ← readOptional readAny part.1 }
  | "validations" => return { draft with rules := ← readList Rule.ofJson part.1 }
  | "selection" => return { draft with selection := ← readSelection part.1 }
  | "items" => return { draft with items := ← part.2 }
  | _ => .ok draft

def GroupDraft.finish (draft : GroupDraft) : Except String Item :=
  match draft.key with
  | some key =>
    .ok (.group key draft.version draft.condition draft.rules draft.selection draft.items)
  | none => .error "key"

def questionForm : RecordForm :=
  ⟨"struct QuestionConstruct",
    ["key", "version", "condition", "validations", "role", "options"], true⟩

structure QuestionDraft where
  key : Option String
  version : Nat
  condition : Option Json
  rules : List Rule
  role : Option String
  options : List Choice

def QuestionDraft.empty : QuestionDraft := ⟨none, 0, none, [], none, []⟩

def QuestionDraft.put (draft : QuestionDraft) (name : String) (part : Part) :
    Except ShapeFault QuestionDraft :=
  match name with
  | "key" => return { draft with key := some (← readText part.1) }
  | "version" => return { draft with version := ← readWord32 part.1 }
  | "condition" => return { draft with condition := ← readOptional readAny part.1 }
  | "validations" => return { draft with rules := ← readList Rule.ofJson part.1 }
  | "role" => return { draft with role := some (← readText part.1) }
  | "options" => return { draft with options := ← readList Choice.ofJson part.1 }
  | _ => .ok draft

def QuestionDraft.finish (draft : QuestionDraft) : Except String Item :=
  match draft.key, draft.role with
  | none, _ => .error "key"
  | _, none => .error "role"
  | some key, some role =>
    .ok (.question key draft.version draft.condition draft.rules role draft.options)

def pageBreakForm : RecordForm := ⟨"struct PageBreakConstruct", ["key", "condition"], true⟩

structure PageBreakDraft where
  key : Option String
  condition : Option Json

def PageBreakDraft.put (draft : PageBreakDraft) (name : String) (part : Part) :
    Except ShapeFault PageBreakDraft :=
  match name with
  | "key" => return { draft with key := some (← readText part.1) }
  | "condition" => return { draft with condition := ← readOptional readAny part.1 }
  | _ => .ok draft

def PageBreakDraft.finish (draft : PageBreakDraft) : Except String Item :=
  match draft.key with
  | some key => .ok (.pageBreak key draft.condition)
  | none => .error "key"

/-- An item from its parts; only the outermost item needs its kind in words. -/
def ofParts (inner : Bool) (parts : Parts Part) : Except ShapeFault Item := do
  match ← form.split inner Prod.fst parts with
  | (0, parts) => groupForm.read .empty GroupDraft.put GroupDraft.finish parts
  | (1, parts) => questionForm.read .empty QuestionDraft.put QuestionDraft.finish parts
  | (_, parts) => pageBreakForm.read ⟨none, none⟩ PageBreakDraft.put PageBreakDraft.finish parts

mutual

def ofJson (inner : Bool) : Json → Except ShapeFault Item
  | .object members => ofParts inner (.named (memberParts members))
  | .array items => ofParts inner (.positional (itemParts items))
  | j => wrongType j (.tagged form.name)

def listOfJson : List Json → Except ShapeFault (List Item)
  | [] => .ok []
  | j :: rest => do
    let item ← ofJson true j
    return item :: (← listOfJson rest)

def memberParts : List (String × Json) → List (String × Part)
  | [] => []
  | (name, j) :: rest => (name, part j) :: memberParts rest

def itemParts : List Json → List Part
  | [] => []
  | j :: rest => part j :: itemParts rest

def part : Json → Part
  | .array items => (.array items, listOfJson items)
  | j => (j, wrongType j .list)

end

mutual

def toJson : Item → Json
  | group key version condition rules selection items => .ofMembers <|
    [("kind", .string "group"), ("key", .string key), ("version", .nat version),
      ("selection", selectionToJson selection), ("items", .array (listToJson items))] ++
    optionalMember "condition" condition ++ listMember "validations" (rules.map Rule.toJson)
  | question key version condition rules role options => .ofMembers <|
    [("kind", .string "question"), ("key", .string key), ("version", .nat version),
      ("role", .string role)] ++
    optionalMember "condition" condition ++ listMember "validations" (rules.map Rule.toJson) ++
    listMember "options" (options.map Choice.toJson)
  | pageBreak key condition => .ofMembers <|
    [("kind", .string "pageBreak"), ("key", .string key)] ++ optionalMember "condition" condition

def listToJson : List Item → List Json
  | [] => []
  | item :: rest => toJson item :: listToJson rest

end

end Item

namespace Survey

def form : RecordForm := ⟨"struct SurveyDocument", ["id", "canvass", "root"], false⟩

structure Draft where
  id : Option String
  format : Option String
  root : Option Item

def Draft.put (draft : Draft) (name : String) (j : Json) : Except ShapeFault Draft :=
  match name with
  | "id" => return { draft with id := some (← readText j) }
  | "canvass" => return { draft with format := ← readOptional readText j }
  | "root" => return { draft with root := some (← Item.ofJson false j) }
  | _ => .ok draft

def Draft.finish (draft : Draft) : Except String Survey :=
  match draft.id, draft.root with
  | none, _ => .error "id"
  | _, none => .error "root"
  | some id, some root => .ok ⟨id, draft.format, root⟩

/-- Only version 1 of the format is read; a document that states none is taken to have it. -/
def isSupported (version : String) : Bool :=
  match version.toList with
  | '1' :: '.' :: _ => true
  | _ => false

/-- What must hold of the members of a document before their shapes are looked at. -/
def check (members : List (String × Json)) : Except Fault Unit := do
  for name in ["id", "root"] do
    if (Fields.get? name members).isNone then .error (.missingMember name)
  match Fields.get? "canvass" members with
  | some (.string version) => if !isSupported version then .error (.unsupportedVersion version)
  | _ => return

def ofJson : Json → Except Fault Survey
  | .object members => do
    check members
    match form.readJson ⟨none, none, none⟩ Draft.put Draft.finish (.object members) with
    | .ok document => return document
    | .error fault => .error (.misshapen fault)
  | _ => .error (.notObject "survey")

def toJson (document : Survey) : Json := .ofMembers <|
  [("id", .string document.id), ("root", document.root.toJson)] ++
  optionalMember "canvass" (document.format.map .string)

end Survey

end Questionnaire.Document
