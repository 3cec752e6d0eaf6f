/-! Requests given by the arguments of the command line. -/
namespace Questionnaire.CommandLine

inductive OutputFormat where
  | text
  | json
  deriving DecidableEq, Repr

def OutputFormat.ofName? : String → Option OutputFormat
  | "text" => some .text
  | "json" => some .json
  | _ => none

/-- Options of every command; they may stand before and after its name. -/
structure Options where
  output : Option OutputFormat
  quiet : Bool
  config : Option String
  seed : Option UInt64
  deriving DecidableEq, Repr

/-- A command with the files that it reads. -/
inductive Command where
  | flatten (survey responses : String)
  | pages (survey responses : String)
  | validate (survey responses : String)
  | eval (expression responses : String)
  | lint (survey : String)
  deriving DecidableEq, Repr

inductive Request where
  | run (options : Options) (command : Command)
  | version
  | usage
  deriving DecidableEq, Repr

namespace Options

def none : Options := ⟨.none, false, .none, .none⟩

/-- Options before the name of a command count where those after it do not say otherwise. -/
def before (outer inner : Options) : Options :=
  ⟨inner.output <|> outer.output, inner.quiet || outer.quiet, inner.config <|> outer.config,
    inner.seed <|> outer.seed⟩

/-- A decimal number below `2 ^ 64`, with or without a plus sign. -/
def seed? (text : String) : Option UInt64 := do
  let digits := match text.toList with
    | '+' :: rest => rest
    | s => s
  if digits ≠ [] ∧ digits.all Char.isDigit then
    let n := digits.foldl (fun n c => 10 * n + (c.toNat - '0'.toNat)) 0
    if n < UInt64.size then some (.ofNat n) else .none
  else .none

/-- A path is not empty. -/
def path? (text : String) : Option String := if text = "" then .none else some text

/-- Give an option its value; no option is given twice. -/
def put? (options : Options) (name value : String) : Option Options := do
  match name, options with
  | "--output", ⟨.none, quiet, config, seed⟩ =>
    return ⟨← OutputFormat.ofName? value, quiet, config, seed⟩
  | "--config", ⟨output, quiet, .none, seed⟩ => return ⟨output, quiet, ← path? value, seed⟩
  | "--seed", ⟨output, quiet, config, .none⟩ => return ⟨output, quiet, config, ← seed? value⟩
  | _, _ => .none

end Options

/-- Whether an argument is an option by its form; a dash alone is a file. -/
def isOption (argument : String) : Bool := argument.startsWith "-" && argument ≠ "-"

/-- The name of an option, and the value after an equals sign. -/
def splitOption (argument : String) : String × Option String :=
  match argument.toList.dropWhile (· ≠ '=') with
  | [] => (argument, none)
  | _ :: value =>
    (String.ofList (argument.toList.takeWhile (· ≠ '=')), some (String.ofList value))

/-- What stands after the name of a command: options, at most one file of its own, and the responses
for it if it takes any. -/
structure Operands where
  options : Options
  file : Option String
  responses : Option String

def Operands.none : Operands := ⟨.none, .none, .none⟩

/-- A file of the command's own; there is at most one. -/
def Operands.putFile? (operands : Operands) (path : String) : Option Operands := do
  match operands.file with
  | some _ => .none
  | .none => return { operands with file := ← Options.path? path }

/-- Give an option its value, where `responses` may be among the options. -/
def Operands.put? (responses : Bool) (operands : Operands) (name value : String) :
    Option Operands := do
  if responses ∧ name = "--responses" then
    match operands.responses with
    | some _ => .none
    | .none => return { operands with responses := ← Options.path? value }
  else return { operands with options := ← operands.options.put? name value }

/-- What the arguments read so far ask for. -/
inductive Reading (α : Type) where
  | done (result : α)
  | usage
  | misuse

/-- The arguments after the name of a command. Behind two dashes all of them are files. -/
def readOperands (responses : Bool) (operands : Operands) : List String → Reading Operands
  | [] => .done operands
  | "--" :: rest =>
    match rest.foldlM Operands.putFile? operands with
    | some operands => .done operands
    | none => .misuse
  | "--help" :: _ => .usage
  | "--quiet" :: rest =>
    if operands.options.quiet then .misuse
    else
      let options := { operands.options with quiet := true }
      readOperands responses { operands with options := options } rest
  | argument :: rest =>
    if argument.startsWith "-h" then .usage
    else if isOption argument then
      match splitOption argument, rest with
      | (name, some value), rest =>
        match operands.put? responses name value with
        | some operands => readOperands responses operands rest
        | none => .misuse
      | (_, none), [] => .misuse
      | (name, none), value :: rest =>
        match if isOption value then none else operands.put? responses name value with
        | some operands => readOperands responses operands rest
        | none => .misuse
    else
      match operands.putFile? argument with
      | some operands => readOperands responses operands rest
      | none => .misuse

/-- The command with a name, from its file and from the responses. -/
def Command.named? : String → Option (String → String → Command)
  | "flatten" => some .flatten
  | "pages" => some .pages
  | "validate" => some .validate
  | "eval" => some .eval
  | _ => none

def Command.names : List String := ["flatten", "pages", "validate", "eval", "lint", "help"]

/-- Help may be asked for one command. -/
def Request.ofTopics? : List String → Option Request
  | [] => some .usage
  | [name] => if Command.names.contains name then some .usage else none
  | _ => none

/-- The request of a command's name and the arguments after it. -/
def Request.ofCommand? (options : Options) (name : String) (arguments : List String) :
    Option Request :=
  if name = "help" then ofTopics? arguments
  else if name = "lint" then
    match readOperands false .none arguments with
    | .done ⟨inner, some file, _⟩ => some (.run (options.before inner) (.lint file))
    | .usage => some .usage
    | _ => none
  else do
    let command ← Command.named? name
    match readOperands true .none arguments with
    | .done ⟨inner, some file, some responses⟩ =>
      some (.run (options.before inner) (command file responses))
    | .usage => some .usage
    | _ => none

/-- The request of all arguments, after the options read so far. -/
def Request.read? (options : Options) : List String → Option Request
  | [] => none
  | "--help" :: _ => some .usage
  | "--version" :: _ => some .version
  | "--quiet" :: rest =>
    if options.quiet then none else read? { options with quiet := true } rest
  | argument :: rest =>
    if argument.startsWith "-h" then some .usage
    else if argument.startsWith "-V" then some .version
    else if isOption argument then
      match splitOption argument, rest with
      | (name, some value), rest => do read? (← options.put? name value) rest
      | (_, none), [] => none
      | (name, none), value :: rest =>
        if isOption value then none else do read? (← options.put? name value) rest
    else ofCommand? options argument rest

/-- The request that arguments make, if they make one. -/
def Request.ofArguments? (arguments : List String) : Option Request := read? .none arguments

end Questionnaire.CommandLine
