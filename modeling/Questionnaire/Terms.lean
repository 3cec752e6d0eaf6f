/-! The closed vocabularies of a questionnaire: roles, severities and ways to select items. -/
namespace Questionnaire

/-- What kind of answer a question takes. -/
inductive Role where
  | singleChoice
  | multipleChoice
  | dateInput
  | matrix
  | text
  | numberInput
  | dropdown
  | display
  deriving DecidableEq, Repr

/-- What kind of entry an option is. -/
inductive OptionRole where
  | option
  | textInput
  | numberInput
  | dateInput
  deriving DecidableEq, Repr

/-- Hard rules block a submission, soft rules only advise. -/
inductive Severity where
  | hard
  | soft
  deriving DecidableEq, Repr

/-- Which of its items a group presents: all, or a number of them chosen for each respondent. -/
inductive Selection where
  | sequential
  | randomSubset (count : Nat)
  deriving DecidableEq, Repr

namespace Role

def all : List Role :=
  [.singleChoice, .multipleChoice, .dateInput, .matrix, .text, .numberInput, .dropdown, .display]

def name : Role → String
  | .singleChoice => "singleChoice"
  | .multipleChoice => "multipleChoice"
  | .dateInput => "dateInput"
  | .matrix => "matrix"
  | .text => "text"
  | .numberInput => "numberInput"
  | .dropdown => "dropdown"
  | .display => "display"

def ofName? (name : String) : Option Role := all.find? (·.name = name)

@[simp] theorem ofName?_name (r : Role) : ofName? r.name = some r := by cases r <;> decide

end Role

namespace OptionRole

def all : List OptionRole := [.option, .textInput, .numberInput, .dateInput]

def name : OptionRole → String
  | .option => "option"
  | .textInput => "textInput"
  | .numberInput => "numberInput"
  | .dateInput => "dateInput"

def ofName? (name : String) : Option OptionRole := all.find? (·.name = name)

@[simp] theorem ofName?_name (r : OptionRole) : ofName? r.name = some r := by cases r <;> decide

end OptionRole

namespace Severity

def all : List Severity := [.hard, .soft]

def name : Severity → String
  | .hard => "hard"
  | .soft => "soft"

def ofName? (name : String) : Option Severity := all.find? (·.name = name)

@[simp] theorem ofName?_name (s : Severity) : ofName? s.name = some s := by cases s <;> decide

end Severity

end Questionnaire
