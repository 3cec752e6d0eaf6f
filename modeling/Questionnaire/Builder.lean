import Questionnaire.Item

/-! Building questionnaires with keys composed from the keys of the groups around. -/
namespace Questionnaire

/-- A parent's key and a local key with a dot between them; an empty parent counts as none. -/
def composeKey (parent : Option String) (localKey : String) : String :=
  match parent with
  | some p => if p = "" then localKey else p ++ "." ++ localKey
  | none => localKey

/-- A group in the making. -/
structure GroupBuilder where
  key : String
  version : Nat
  condition : Option Expression
  rules : List Rule
  selection : Selection
  items : List Item

/-- A question in the making. -/
structure QuestionBuilder where
  key : String
  version : Nat
  role : Role
  condition : Option Expression
  rules : List Rule
  options : List Choice

namespace GroupBuilder

def withKey (key : String) : GroupBuilder := ⟨key, 1, none, [], .sequential, []⟩

/-- The outermost group of a questionnaire. -/
def root (key : String) : GroupBuilder := withKey key

/-- A group inside another; a key given in place of the default one takes its place. -/
def group (parent : GroupBuilder) (default : String) (override : Option String) : GroupBuilder :=
  withKey (composeKey (some parent.key) (override.getD default))

/-- A question inside a group. -/
def question (parent : GroupBuilder) (default : String) (override : Option String) (role : Role) :
    QuestionBuilder :=
  ⟨composeKey (some parent.key) (override.getD default), 1, role, none, [], []⟩

def withVersion (b : GroupBuilder) (version : Nat) : GroupBuilder := { b with version := version }

def withCondition (b : GroupBuilder) (condition : Expression) : GroupBuilder :=
  { b with condition := some condition }

def withSelection (b : GroupBuilder) (selection : Selection) : GroupBuilder :=
  { b with selection := selection }

def addRule (b : GroupBuilder) (key : String) (severity : Severity) (rule : Expression) :
    GroupBuilder :=
  { b with rules := b.rules ++ [⟨key, severity, rule⟩] }

def addItem (b : GroupBuilder) (item : Item) : GroupBuilder := { b with items := b.items ++ [item] }

def addPageBreak (b : GroupBuilder) (localKey : String) : GroupBuilder :=
  b.addItem (.pageBreak (composeKey (some b.key) localKey) none)

def build (b : GroupBuilder) : Item :=
  .group ⟨b.key, b.version, b.condition, b.rules⟩ b.selection b.items

end GroupBuilder

namespace QuestionBuilder

def withVersion (b : QuestionBuilder) (version : Nat) : QuestionBuilder :=
  { b with version := version }

def withCondition (b : QuestionBuilder) (condition : Expression) : QuestionBuilder :=
  { b with condition := some condition }

def addRule (b : QuestionBuilder) (key : String) (severity : Severity) (rule : Expression) :
    QuestionBuilder :=
  { b with rules := b.rules ++ [⟨key, severity, rule⟩] }

def addChoice (b : QuestionBuilder) (choice : Choice) : QuestionBuilder :=
  { b with options := b.options ++ [choice] }

/-- An option with nothing but a key. -/
def addOption (b : QuestionBuilder) (key : String) : QuestionBuilder :=
  b.addChoice ⟨key, .option, none, none⟩

def build (b : QuestionBuilder) : Item :=
  .question ⟨b.key, b.version, b.condition, b.rules⟩ b.role b.options

end QuestionBuilder

end Questionnaire
