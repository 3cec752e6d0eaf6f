import Questionnaire.Value.Conversion

/-! Expressions: literals and calls of operators. -/
namespace Questionnaire

inductive Expression where
  | literal (value : Value)
  | call (operator : Operator) (arguments : List Expression)
  deriving Repr, Inhabited

namespace Expression

/-- A call with a number of arguments that its operator accepts. -/
def call? (operator : Operator) (arguments : List Expression) : Except Error Expression :=
  if operator.arity.accepts arguments.length then .ok (.call operator arguments)
  else .error (.arity operator arguments.length)

mutual

/-- Whether every call in an expression has an accepted number of arguments. -/
def wellFormed : Expression → Bool
  | .literal _ => true
  | .call operator arguments => operator.arity.accepts arguments.length && allWellFormed arguments

def allWellFormed : List Expression → Bool
  | [] => true
  | e :: rest => wellFormed e && allWellFormed rest

end

mutual

/-- Call syntax, with literals as they are displayed. -/
def display : Expression → String
  | .literal v => v.display
  | .call operator arguments =>
    operator.name ++ "(" ++ String.intercalate ", " (displayAll arguments) ++ ")"

def displayAll : List Expression → List String
  | [] => []
  | e :: rest => display e :: displayAll rest

end

mutual

def toJson : Expression → Json
  | .literal v => v.toJson
  | .call operator arguments =>
    .object [("args", .array (toJsonAll arguments)), ("name", .string operator.name)]

def toJsonAll : List Expression → List Json
  | [] => []
  | e :: rest => toJson e :: toJsonAll rest

end

/-- The operator that a call names. -/
def operatorOf (members : List (String × Json)) : Except Error Operator :=
  match (Fields.get? "name" members).bind Json.string? with
  | none => .error (.malformed .callWithoutName)
  | some name =>
    match Operator.ofName? name with
    | some operator => .ok operator
    | none => .error (.unknownOperator name)

mutual

/-- A scalar is a literal, and an object a call. The operator is looked up before the arguments are
read, and their number is checked after it. -/
def ofJson : Json → Except Error Expression
  | .object members => do
    let operator ← operatorOf members
    let arguments ← argumentsOf operator members
    call? operator arguments
  | .array _ => .error (.malformed .arrayAsExpression)
  | j => (Value.ofJson j).map .literal

/-- The arguments among the members of a call; without any there are none. -/
def argumentsOf (operator : Operator) : List (String × Json) → Except Error (List Expression)
  | [] => .ok []
  | (name, .array items) :: rest =>
    if name = "args" then ofJsonAll items else argumentsOf operator rest
  | (name, _) :: rest =>
    if name = "args" then .error (.malformed (.argumentsNotArray operator.name))
    else argumentsOf operator rest

def ofJsonAll : List Json → Except Error (List Expression)
  | [] => .ok []
  | j :: rest => do
    let e ← ofJson j
    return e :: (← ofJsonAll rest)

end

end Expression

end Questionnaire
