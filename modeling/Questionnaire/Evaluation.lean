import Questionnaire.Context
import Questionnaire.Expression
import Questionnaire.Value.Comparison

/-!
Evaluation of expressions. An operator is given its arguments as they stand, and an evaluator for
them: it evaluates them from left to right, and an argument that it does not come to has no
influence, even if it would be an error.
-/
namespace Questionnaire

abbrev Outcome := Except Error Value

namespace Value

/-- An argument that must be a text. -/
def asArgument (operator : String) : Value → Except Error String
  | .text s => .ok s
  | v => .error (.typeError operator (.argumentNotText v.kind))

/-- An option key; a number stands for its text. -/
def asKey (operator : String) : Value → Except Error String
  | .text s => .ok s
  | .number d => .ok d.canonicalText
  | v => .error (.typeError operator (.keyNotText v.kind))

end Value

namespace Operator

/-- Whether two values stand in the order that a comparison asks for. -/
def holds : Operator → Ordering → Bool
  | .lt, o => o = .lt
  | .lte, o => o ≠ .gt
  | .gt, o => o = .gt
  | _, o => o ≠ .lt

def anyOf (keys selected : List String) : Bool := selected.any keys.contains

def allOf (keys selected : List String) : Bool := !keys.isEmpty && keys.all selected.contains

def noneOf (keys selected : List String) : Bool :=
  !selected.isEmpty && selected.all fun key => !keys.contains key

/-- Whole units of time from one moment to another, counted toward zero. -/
def unitsBetween (unit : String) (start finish : Moment) : Option Int :=
  let seconds := finish.toSeconds - start.toSeconds
  match unit with
  | "hours" => some (seconds.tdiv 3600)
  | "days" => some (seconds.tdiv 86400)
  | "weeks" => some (seconds.tdiv 604800)
  | "months" => some (Moment.wholeMonths start finish)
  | "years" => some (Moment.wholeYears start finish)
  | _ => none

/-- Whole units from the time of evaluation to a stored one, positive when that lies ahead. -/
def dateDifference (op : Operator) (ctx : Context) (stored : Decimal) (unit : String) :
    Except Error Int := do
  let seconds ←
    match stored.toInt64? with
    | some seconds => .ok seconds.toInt
    | none => .error (.overflow (.dateValue stored))
  let finish ←
    match Moment.ofSeconds? seconds with
    | some moment => .ok moment
    | none => .error (.overflow (.dateSeconds seconds))
  let start ← ctx.moment
  match unitsBetween unit start finish with
  | some units => return units
  | none => .error (.typeError op.name (.unknownUnit unit))

/-- The field of a record at a dotted path. -/
def field (op : Operator) (base : Value) (name : String) : Outcome :=
  match base with
  | .record fields =>
    match Value.walk (Text.segments name) (.record fields) with
    | some v => .ok v
    | none => .error (.missingAttribute name)
  | v => .error (.typeError op.name (.baseNotRecord v.kind))

section
variable (eval : Expression → Outcome)

/-- True if all arguments are, up to the first that is not. -/
def conjunction : List Expression → Except Error Bool
  | [] => .ok true
  | e :: rest => do
    if ← (← eval e).asBool and.name then conjunction rest else return false

/-- True if one of the arguments is, up to the first that is. -/
def disjunction : List Expression → Except Error Bool
  | [] => .ok false
  | e :: rest => do
    if ← (← eval e).asBool or.name then return true else disjunction rest

def comparison (op : Operator) (left right : Expression) : Except Error Bool := do
  let left ← eval left
  let right ← eval right
  match ← Value.order op.name left right with
  | none => return false
  | some o => return op.holds o

/-- Null and absent data are not defined; any other error stays one. -/
def definedness (e : Expression) : Except Error Bool :=
  match eval e with
  | .ok v => .ok !v.isNull
  | .error err => if err.isAbsence then .ok false else .error err

def textOf (op : Operator) (e : Expression) : Except Error String := do
  (← eval e).asArgument op.name

def keyOf (op : Operator) (e : Expression) : Except Error String := do
  (← eval e).asKey op.name

/-- The node that two arguments name, if there is one. -/
def nodeOf (op : Operator) (ctx : Context) (item path : Expression) :
    Except Error (Option ResponseNode) := do
  let item ← op.textOf eval item
  let path ← op.textOf eval path
  return ctx.node? item path

/-- The value other than null at the leaf that two arguments name. -/
def leafValueOf (op : Operator) (ctx : Context) (item path : Expression) :
    Except Error (Option Value) := do
  return (← op.nodeOf eval ctx item path).bind (·.leafValue?)

/-- Whether the selected keys of a node stand in a relation to the listed ones; without a node they
do not. -/
def selects (op : Operator) (ctx : Context) (item path : Expression) (keys : List Expression)
    (relation : List String → List String → Bool) : Except Error Bool := do
  let item ← op.textOf eval item
  let path ← op.textOf eval path
  let keys ← keys.mapM (op.keyOf eval)
  match ctx.node? item path with
  | some node => return relation keys node.selectedKeys
  | none => return false

/-- The value of a leaf, with an error for each way in which there is none. -/
def responseValue (op : Operator) (ctx : Context) (item path : Expression) : Outcome := do
  let item ← op.textOf eval item
  let path ← op.textOf eval path
  match ctx.response? item with
  | none => .error (.missingResponse item)
  | some root =>
    match root.resolve path with
    | none => .error (.missingNode item path)
    | some (.leaf _ value) => return value.getD .null
    | some (.group _ _) => .error (.typeError op.name (.nodeIsGroup path item))

/-- The number of a leaf; null where there is none. -/
def responseNumber (op : Operator) (ctx : Context) (item path : Expression) : Outcome := do
  match ← op.leafValueOf eval ctx item path with
  | none => return .null
  | some v =>
    match v.asNumber op.name with
    | .ok d => return .number d
    | .error _ => return .null

/-- The text form of a leaf; null where there is none. -/
def responseText (op : Operator) (ctx : Context) (item path : Expression) : Outcome := do
  match (← op.leafValueOf eval ctx item path).bind Value.toText? with
  | some s => return .text s
  | none => return .null

def responseCount (op : Operator) (ctx : Context) (item path : Expression) : Outcome := do
  match ← op.nodeOf eval ctx item path with
  | some node => return .int node.selectedKeys.length
  | none => return .int 0

def fieldOf (op : Operator) (base name : Expression) : Outcome := do
  let base ← eval base
  let name ← op.textOf eval name
  op.field base name

def flagEquals (op : Operator) (ctx : Context) (key expected : Expression) :
    Except Error Bool := do
  let key ← op.textOf eval key
  let expected ← eval expected
  match ctx.participantFlag? key with
  | some flag => flag.equals expected
  | none => return false

/-- The time some seconds after another, or after the time of evaluation. -/
def laterTime (op : Operator) (ctx : Context) (seconds : Expression) (base : Option Expression) :
    Outcome := do
  let seconds ← (← eval seconds).asNumber op.name
  let base ←
    match base with
    | some base => (← eval base).asNumber op.name
    | none => .ok (Decimal.ofInt ctx.evaluationTime.toInt)
  return .number (← Value.offset base seconds)

def responseDateDifference (op : Operator) (ctx : Context) (item path unit : Expression)
    (absolute : Option Expression) : Outcome := do
  let item ← op.textOf eval item
  let path ← op.textOf eval path
  let unit ← op.textOf eval unit
  let absolute ←
    match absolute with
    | some absolute => (← eval absolute).asBool op.name
    | none => .ok false
  match ctx.leafValue? item path with
  | none => return .null
  | some v =>
    let difference ← op.dateDifference ctx (← v.asNumber op.name) unit
    return .int (if absolute then difference.natAbs else difference)

/-- The outcome of an operator, given as many arguments as it accepts. -/
def operate (ctx : Context) (op : Operator) (arguments : List Expression) : Outcome :=
  match op, arguments with
  | .and, arguments => (conjunction eval arguments).map .bool
  | .or, arguments => (disjunction eval arguments).map .bool
  | .not, [e] => do return .bool !(← (← eval e).asBool not.name)
  | .eq, [left, right] => do return .bool (← Value.equals (← eval left) (← eval right))
  | .lt, [left, right] => (lt.comparison eval left right).map .bool
  | .lte, [left, right] => (lte.comparison eval left right).map .bool
  | .gt, [left, right] => (gt.comparison eval left right).map .bool
  | .gte, [left, right] => (gte.comparison eval left right).map .bool
  | .isDefined, [e] => (definedness eval e).map .bool
  | .sum, arguments => do return .number (← Value.sum (← arguments.mapM eval))
  | .hasResponse, [item, path] => do
    return .bool ((← hasResponse.nodeOf eval ctx item path).any fun node => !node.isEmpty)
  | .responseHasKeysAny, item :: path :: keys =>
    (responseHasKeysAny.selects eval ctx item path keys anyOf).map .bool
  | .responseHasKeysAll, item :: path :: keys =>
    (responseHasKeysAll.selects eval ctx item path keys allOf).map .bool
  | .responseHasOnlyKeysOtherThan, item :: path :: keys =>
    (responseHasOnlyKeysOtherThan.selects eval ctx item path keys noneOf).map .bool
  | .getResponseItem, [item, path] => getResponseItem.responseValue eval ctx item path
  | .getResponseValueAsNum, [item, path] =>
    getResponseValueAsNum.responseNumber eval ctx item path
  | .getResponseValueAsStr, [item, path] => getResponseValueAsStr.responseText eval ctx item path
  | .countResponseItems, [item, path] => countResponseItems.responseCount eval ctx item path
  | .getContext, [] => .ok ctx.rootRecord
  | .getAttribute, [base, name] => getAttribute.fieldOf eval base name
  | .hasParticipantFlag, [key] => do
    return .bool (ctx.participantFlag? (← hasParticipantFlag.textOf eval key)).isSome
  | .hasParticipantFlagKeyAndValue, [key, expected] =>
    (hasParticipantFlagKeyAndValue.flagEquals eval ctx key expected).map .bool
  | .timestampWithOffset, [seconds] => timestampWithOffset.laterTime eval ctx seconds none
  | .timestampWithOffset, [seconds, base] =>
    timestampWithOffset.laterTime eval ctx seconds (some base)
  | .dateResponseDiffFromNow, [item, path, unit] =>
    dateResponseDiffFromNow.responseDateDifference eval ctx item path unit none
  | .dateResponseDiffFromNow, [item, path, unit, absolute] =>
    dateResponseDiffFromNow.responseDateDifference eval ctx item path unit (some absolute)
  | op, arguments => .error (.arity op arguments.length)

/-- The outcome of an operator with any number of arguments. -/
def apply (ctx : Context) (op : Operator) (arguments : List Expression) : Outcome :=
  if op.arity.accepts arguments.length then op.operate eval ctx arguments
  else .error (.arity op arguments.length)

end

end Operator

namespace Expression

mutual

/-- How many calls stand around each other. -/
def depth : Expression → Nat
  | .literal _ => 0
  | .call _ arguments => depthAll arguments + 1

def depthAll : List Expression → Nat
  | [] => 0
  | e :: rest => max (depth e) (depthAll rest)

end

/-- The outcome of an expression of at most the given depth. -/
def evaluateWithin (ctx : Context) : Nat → Expression → Outcome
  | _, .literal v => .ok v
  | 0, .call op arguments => .error (.arity op arguments.length)
  | depth + 1, .call op arguments => op.apply (evaluateWithin ctx depth) ctx arguments

/-- The value of an expression, or the error that keeps it from having one. -/
def evaluate (ctx : Context) (e : Expression) : Outcome := evaluateWithin ctx e.depth e

/-- The value of a condition, which must be a boolean. -/
def evaluateBool (ctx : Context) (e : Expression) : Except Error Bool := do
  (← e.evaluate ctx).asBool "condition"

end Expression

end Questionnaire
