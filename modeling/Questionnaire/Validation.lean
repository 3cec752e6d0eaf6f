import Questionnaire.Walk

/-! Validation of visible items by their rules. -/
namespace Questionnaire

/-- A rule without a value is broken; it is neither passed nor failed. -/
inductive RuleStatus where
  | passed
  | failed
  | broken (error : Error)
  deriving DecidableEq, Repr

/-- The result of a rule. -/
structure RuleOutcome where
  key : String
  severity : Severity
  status : RuleStatus
  deriving DecidableEq, Repr

namespace RuleOutcome

def passed (o : RuleOutcome) : Bool := o.status = .passed

/-- Only hard rules block a submission, also when they are broken. -/
def blocks (o : RuleOutcome) : Bool := o.severity = .hard && !o.passed

end RuleOutcome

def Rule.status (ctx : Context) (r : Rule) : RuleStatus :=
  match r.rule.evaluate ctx with
  | .ok v => if v.truthy then .passed else .failed
  | .error e => .broken e

def Rule.outcome (ctx : Context) (r : Rule) : RuleOutcome := ⟨r.key, r.severity, r.status ctx⟩

/-- The results of the rules of an item, in the order of definition. -/
def Item.validate (ctx : Context) (item : Item) : List RuleOutcome :=
  item.rules.map (Rule.outcome ctx)

/-- The results of the rules of one visible item. -/
structure ItemReport where
  item : String
  outcomes : List RuleOutcome
  deriving DecidableEq, Repr

/-- The results of all visible items that have rules. -/
structure Report where
  items : List ItemReport
  deriving DecidableEq, Repr

namespace Report

def outcomes (report : Report) : List RuleOutcome := report.items.flatMap (·.outcomes)

def blocksSubmission (report : Report) : Bool := report.outcomes.any (·.blocks)

/-- The results other than passed, each with the key of its item. -/
def failures (report : Report) : List (String × RuleOutcome) :=
  report.items.flatMap fun item =>
    (item.outcomes.filter fun o => !o.passed).map fun o => (item.item, o)

end Report

def RuleStatus.name : RuleStatus → String
  | .passed => "passed"
  | .failed => "failed"
  | .broken _ => "broken"

def RuleOutcome.toJson (o : RuleOutcome) : Json := .ofMembers <|
  [("key", .string o.key), ("severity", .string o.severity.name),
    ("status", .string o.status.name)] ++
  match o.status with
  | .broken e => [("error", .string e.message)]
  | _ => []

def ItemReport.toJson (item : ItemReport) : Json :=
  .object [("item", .string item.item), ("outcomes", .array (item.outcomes.map RuleOutcome.toJson))]

def Report.toJson (report : Report) : Json :=
  .object [("blocksSubmission", .bool report.blocksSubmission),
    ("items", .array (report.items.map ItemReport.toJson))]

/-- Validate the items of a walk; those without rules are left out. -/
def Report.ofItems (ctx : Context) (items : List Item) : Report :=
  ⟨(items.filter fun item => !item.rules.isEmpty).map fun item =>
    ⟨item.key, item.validate ctx⟩⟩

/-- Validate all visible groups and questions. An error of visibility leaves no report. -/
def Item.validateVisible (ctx : Context) (seeder : Seeder) (root : Item) : Except Error Report := do
  return .ofItems ctx (← Walk.items ⟨ctx, seeder, .withGroups⟩ root)

end Questionnaire
