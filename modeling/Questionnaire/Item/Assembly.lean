import Questionnaire.Document.Survey
import Questionnaire.Item

/-! Questionnaires from survey documents. -/
namespace Questionnaire

/-- The term that a name stands for. -/
def named {α : Type} (ofName? : String → Option α) (fault : String → LoadFault) (name : String) :
    Except Error α :=
  match ofName? name with
  | some term => .ok term
  | none => .error (.malformed (fault name))

def Role.ofName : String → Except Error Role := named ofName? .unknownRole

def OptionRole.ofName : String → Except Error OptionRole := named ofName? .unknownOptionRole

def Severity.ofName : String → Except Error Severity := named ofName? .unknownSeverity

def Expression.ofOptional : Option Json → Except Error (Option Expression)
  | none => .ok none
  | some j => (Expression.ofJson j).map some

def Rule.ofDocument (r : Document.Rule) : Except Error Rule := do
  let severity ← Severity.ofName r.severity
  return ⟨r.key, severity, ← Expression.ofJson r.rule⟩

def Choice.ofDocument (c : Document.Choice) : Except Error Choice := do
  let role ← OptionRole.ofName c.role
  let displayCondition ← Expression.ofOptional c.displayCondition
  return ⟨c.key, role, displayCondition, ← Expression.ofOptional c.disabled⟩

/-- The condition is read before the rules. -/
def Header.ofDocument (key : String) (version : Nat) (condition : Option Json)
    (rules : List Document.Rule) : Except Error Header := do
  let condition ← Expression.ofOptional condition
  return ⟨key, version, condition, ← rules.mapM Rule.ofDocument⟩

mutual

/-- The item that a document describes, read depth first. -/
def Item.ofDocument : Document.Item → Except Error Item
  | .group key version condition rules selection items => do
    let header ← Header.ofDocument key version condition rules
    return .group header selection (← ofDocuments items)
  | .question key version condition rules role options => do
    let header ← Header.ofDocument key version condition rules
    let role ← Role.ofName role
    return .question header role (← options.mapM Choice.ofDocument)
  | .pageBreak key condition => do
    return .pageBreak key (← Expression.ofOptional condition)

def Item.ofDocuments : List Document.Item → Except Error (List Item)
  | [] => .ok []
  | item :: rest => do
    let first ← Item.ofDocument item
    return first :: (← ofDocuments rest)

end

/-- A questionnaire with its identifier. -/
structure Survey where
  id : String
  root : Item
  deriving Repr, Inhabited

/-- The questionnaire of a survey document. -/
def Survey.ofJson (j : Json) : Except Error Survey :=
  match Document.Survey.ofJson j with
  | .ok document => do return ⟨document.id, ← Item.ofDocument document.root⟩
  | .error fault => .error (.malformed (.document fault))

end Questionnaire
