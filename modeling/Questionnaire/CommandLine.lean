import Questionnaire.CommandLine.Request
import Questionnaire.Config
import Questionnaire.Document.Schema
import Questionnaire.Json.Reader
import Questionnaire.Lint
import Questionnaire.Survey

/-! The command line: what a request answers, given the files that it may read. -/
namespace Questionnaire.CommandLine

/-- What an attempt to read a file as text gives. -/
inductive FileState where
  | missing
  | unreadable (reason : String)
  | text (content : String)
  deriving DecidableEq, Repr

/-- What stands at a path. -/
abbrev Files := String → FileState

/-- A file is given by its content if it is there. -/
instance : Coe (Option String) FileState where
  coe
    | some content => .text content
    | none => .missing

/-- The content of a file, or the reason why there is none. -/
def FileState.read : FileState → Except String String
  | missing => .error "No such file or directory (os error 2)"
  | unreadable reason => .error reason
  | text content => .ok content

/-- Why a command has no answer. -/
inductive Fault where
  | unreadableConfig (path reason : String)
  | malformedConfig (path diagnosis : String)
  | notFound (what path : String)
  | malformedJson (path message : String)
  | invalid (what path : String) (error : Error)
  | evaluation (error : Error)
  deriving DecidableEq, Repr

def Fault.message : Fault → String
  | unreadableConfig path reason => s!"error: could not read '{path}': {reason}"
  | malformedConfig path diagnosis => s!"error: could not parse '{path}': {diagnosis}"
  | notFound what path => s!"error: {what} file not found: {path}"
  | malformedJson path message => s!"error: invalid JSON in {path}: {message}"
  | invalid what path error => s!"error: invalid {what} {path}: {error.message}"
  | evaluation error => s!"evaluation error: {error.message}"

/-- What a command says, in lines and as JSON, and whether it finds something amiss. -/
structure Answer where
  lines : List String
  json : Json
  failing : Bool

/-- What a run leaves behind. -/
@[ext]
structure Outcome where
  exit : UInt8
  stdout : String
  stderr : String
  deriving DecidableEq, Repr

def readJson (files : Files) (what path : String) : Except Fault Json :=
  match (files path).read with
  | .error _ => .error (.notFound what path)
  | .ok text => (Json.ofText text).mapError (.malformedJson path)

def readSurvey (files : Files) (path : String) : Except Fault Survey := do
  (Survey.ofJson (← readJson files "survey" path)).mapError (.invalid "survey" path)

def readContext (files : Files) (now : Int64) (path : String) : Except Fault Context := do
  (Context.ofJson (← readJson files "responses" path) now).mapError (.invalid "responses" path)

def readExpression (files : Files) (path : String) : Except Fault Expression := do
  (Expression.ofJson (← readJson files "expression" path)).mapError (.invalid "expression" path)

/-- The visible questions, each on a line. -/
def flattened (survey : Survey) (visible : List Item) : Answer :=
  let keys := visible.map Item.key
  ⟨keys, .object [("survey", .string survey.id), ("visible", .ofTexts keys)], false⟩

/-- The pages, each on a line with its number. -/
def paged (survey : Survey) (pages : List (List Item)) : Answer :=
  let pages := pages.map (·.map Item.key)
  let line := fun (keys, n) => s!"page {n}: " ++ String.intercalate ", " keys
  ⟨(pages.zipIdx 1).map line,
    .object [("pages", .array (pages.map .ofTexts)), ("survey", .string survey.id)], false⟩

def statusText : RuleStatus → String
  | .passed => "pass"
  | .failed => "FAIL"
  | .broken error => s!"BROKEN ({error.message})"

def outcomeLine (item : String) (o : RuleOutcome) : String :=
  s!"{statusText o.status} {item}/{o.key} [{o.severity.name}]"

/-- The results of the rules, each on a line, and whether they block a submission. -/
def validated (report : Report) : Answer :=
  let results := report.items.flatMap fun item => item.outcomes.map (outcomeLine item.item)
  let verdict := if report.blocksSubmission then "submission blocked" else "ok"
  ⟨results ++ [verdict], report.toJson, report.blocksSubmission⟩

def evaluated (expression : Expression) (value : Value) : Answer :=
  ⟨[value.display],
    .object [("expression", .string expression.display), ("value", value.toJson)], false⟩

/-- What is wrong with a survey document. Reads of later items are told, but not held against it. -/
def linted (violations : List String) (findings : List Finding) : Answer :=
  let failing := !violations.isEmpty || findings.any fun f => !f.issue.isForwardReference
  let lines := violations.map (fun v => "[schema] " ++ v) ++ findings.map Finding.text
  ⟨if lines.isEmpty then ["clean"] else lines,
    .object [("findings", .array (findings.map Finding.toJson)),
      ("schemaErrors", .ofTexts violations), ("valid", .bool !failing)],
    failing⟩

/-- A document that breaks the schema is not looked at any further. -/
def lint (files : Files) (path : String) : Except Fault Answer := do
  let document ← readJson files "survey" path
  match Document.Schema.violations document with
  | [] =>
    let survey ← (Survey.ofJson document).mapError (.invalid "survey" path)
    return linted [] survey.root.lint
  | violations => return linted (violations.map Document.Schema.Violation.message) []

/-- The answer of a command. Files are read in the order in which it names them. -/
def Command.answer (files : Files) (now : Int64) (seed : Option UInt64) :
    Command → Except Fault Answer
  | flatten survey responses => do
    let survey ← readSurvey files survey
    let ctx ← readContext files now responses
    let visible ← (survey.root.flatten ctx (.ofOption seed)).mapError .evaluation
    return flattened survey visible
  | pages survey responses => do
    let survey ← readSurvey files survey
    let ctx ← readContext files now responses
    let pages ← (survey.root.pages ctx (.ofOption seed)).mapError .evaluation
    return paged survey pages
  | validate survey responses => do
    let survey ← readSurvey files survey
    let ctx ← readContext files now responses
    let report ← (survey.root.validateVisible ctx (.ofOption seed)).mapError .evaluation
    return validated report
  | eval expression responses => do
    let expression ← readExpression files expression
    let ctx ← readContext files now responses
    let value ← (expression.evaluate ctx).mapError .evaluation
    return evaluated expression value
  | lint survey => CommandLine.lint files survey

/-- The settings in a named file, or in the default one if there is any. What is wrong with a file
is told in the words of `diagnose`. -/
def readConfig (diagnose : String → String) (files : Files) (named : Option String) :
    Except Fault Config :=
  let path := named.getD Config.defaultFile
  match files path, named with
  | .missing, none => .ok .empty
  | state, _ =>
    match state.read with
    | .error reason => .error (.unreadableConfig path reason)
    | .ok text =>
      match Config.ofText? text with
      | some config => .ok config
      | none => .error (.malformedConfig path (diagnose text))

/-- Each line of an output ends. -/
def lineTexts (lines : List String) : String := String.join (lines.map (· ++ "\n"))

/-- Faults go to the error output. -/
def Outcome.ofFault (output : OutputFormat) (quiet : Bool) (fault : Fault) : Outcome :=
  let text :=
    match output with
    | .text => fault.message
    | .json => (Json.object [("error", .string fault.message)]).compact
  ⟨1, "", if quiet then "" else lineTexts [text]⟩

def Outcome.ofAnswer (output : OutputFormat) (quiet : Bool) (answer : Answer) : Outcome :=
  let text :=
    match output with
    | .text => lineTexts answer.lines
    | .json => lineTexts [answer.json.pretty]
  ⟨if answer.failing then 1 else 0, if quiet then "" else text, ""⟩

/-- Run a command. The command line takes precedence over the configuration, which tells how to
report all faults but its own. -/
def Command.run (diagnose : String → String) (files : Files) (now : Int64) (options : Options)
    (command : Command) : Outcome :=
  match readConfig diagnose files options.config with
  | .error fault => .ofFault (options.output.getD .text) options.quiet fault
  | .ok config =>
    let configured := config.format.bind OutputFormat.ofName?
    let output := (options.output <|> configured).getD .text
    let seed := options.seed <|> config.seed.map .ofNat
    match command.answer files now seed with
    | .error fault => .ofFault output options.quiet fault
    | .ok answer => .ofAnswer output options.quiet answer

def versionLine : String := "canvass 0.1.0"

def usageLine : String :=
  "Usage: canvass [OPTIONS] <flatten|pages|validate|eval|lint> <FILE> [--responses <FILE>]"

/-- The files that a request may read. -/
def Request.paths : Request → List String
  | run options command =>
    options.config.getD Config.defaultFile ::
      match command with
      | .flatten survey responses => [survey, responses]
      | .pages survey responses => [survey, responses]
      | .validate survey responses => [survey, responses]
      | .eval expression responses => [expression, responses]
      | .lint survey => [survey]
  | version => []
  | usage => []

/-- Words for any malformed configuration; those of a parser would say where it is malformed. -/
def diagnosis (_ : String) : String := "not a table of known settings"

/-- Run a request; arguments that make none are misused. -/
def run (files : Files) (now : Int64) (request : Option Request) : Outcome :=
  match request with
  | some (.run options command) => command.run diagnosis files now options
  | some .version => ⟨0, lineTexts [versionLine], ""⟩
  | some .usage => ⟨0, lineTexts [usageLine], ""⟩
  | none => ⟨2, "", lineTexts [usageLine]⟩

end Questionnaire.CommandLine
