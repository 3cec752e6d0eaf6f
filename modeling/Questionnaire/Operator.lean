/-! The operators of the expression language and the numbers of arguments they take. -/
namespace Questionnaire

inductive Operator where
  | and
  | or
  | not
  | eq
  | lt
  | lte
  | gt
  | gte
  | isDefined
  | sum
  | hasResponse
  | responseHasKeysAny
  | responseHasKeysAll
  | responseHasOnlyKeysOtherThan
  | getResponseItem
  | getResponseValueAsNum
  | getResponseValueAsStr
  | countResponseItems
  | getContext
  | getAttribute
  | hasParticipantFlag
  | hasParticipantFlagKeyAndValue
  | timestampWithOffset
  | dateResponseDiffFromNow
  deriving DecidableEq, Repr

/-- The least number of arguments, and the greatest if there is one. -/
structure Arity where
  min : Nat
  max : Option Nat
  deriving DecidableEq, Repr

namespace Arity

def exactly (n : Nat) : Arity := ⟨n, some n⟩

def atLeast (n : Nat) : Arity := ⟨n, none⟩

def between (min max : Nat) : Arity := ⟨min, some max⟩

def accepts (a : Arity) (n : Nat) : Bool :=
  a.min ≤ n && match a.max with
    | some max => n ≤ max
    | none => true

theorem accepts_iff {a : Arity} {n : Nat} :
    a.accepts n = true ↔ a.min ≤ n ∧ ∀ max ∈ a.max, n ≤ max := by
  obtain ⟨min, max⟩ := a
  cases max <;> simp [accepts]

theorem accepts_exactly {m n : Nat} : (exactly m).accepts n = true ↔ n = m := by
  rw [accepts_iff]
  simp only [exactly, Option.mem_some_iff, forall_eq']
  omega

theorem accepts_atLeast {m n : Nat} : (atLeast m).accepts n = true ↔ m ≤ n := by
  rw [accepts_iff]
  simp [atLeast]

theorem accepts_between {least most n : Nat} :
    (between least most).accepts n = true ↔ least ≤ n ∧ n ≤ most := by
  rw [accepts_iff]
  simp [between]

def text (a : Arity) : String :=
  match a.max with
  | some max => if max = a.min then s!"exactly {max}" else s!"{a.min} to {max}"
  | none => s!"at least {a.min}"

end Arity

namespace Operator

def all : List Operator :=
  [.and, .or, .not, .eq, .lt, .lte, .gt, .gte, .isDefined, .sum, .hasResponse,
    .responseHasKeysAny, .responseHasKeysAll, .responseHasOnlyKeysOtherThan, .getResponseItem,
    .getResponseValueAsNum, .getResponseValueAsStr, .countResponseItems, .getContext,
    .getAttribute, .hasParticipantFlag, .hasParticipantFlagKeyAndValue, .timestampWithOffset,
    .dateResponseDiffFromNow]

def name : Operator → String
  | .and => "and"
  | .or => "or"
  | .not => "not"
  | .eq => "eq"
  | .lt => "lt"
  | .lte => "lte"
  | .gt => "gt"
  | .gte => "gte"
  | .isDefined => "isDefined"
  | .sum => "sum"
  | .hasResponse => "hasResponse"
  | .responseHasKeysAny => "responseHasKeysAny"
  | .responseHasKeysAll => "responseHasKeysAll"
  | .responseHasOnlyKeysOtherThan => "responseHasOnlyKeysOtherThan"
  | .getResponseItem => "getResponseItem"
  | .getResponseValueAsNum => "getResponseValueAsNum"
  | .getResponseValueAsStr => "getResponseValueAsStr"
  | .countResponseItems => "countResponseItems"
  | .getContext => "getContext"
  | .getAttribute => "getAttribute"
  | .hasParticipantFlag => "hasParticipantFlag"
  | .hasParticipantFlagKeyAndValue => "hasParticipantFlagKeyAndValue"
  | .timestampWithOffset => "timestampWithOffset"
  | .dateResponseDiffFromNow => "dateResponseDiffFromNow"

def ofName? (name : String) : Option Operator := all.find? (·.name = name)

@[simp] theorem ofName?_name (op : Operator) : ofName? op.name = some op := by cases op <;> decide

def arity : Operator → Arity
  | .and | .or | .sum => .atLeast 1
  | .not | .isDefined | .hasParticipantFlag => .exactly 1
  | .eq | .lt | .lte | .gt | .gte => .exactly 2
  | .hasResponse | .getResponseItem | .getResponseValueAsNum | .getResponseValueAsStr
  | .countResponseItems | .getAttribute | .hasParticipantFlagKeyAndValue => .exactly 2
  | .responseHasKeysAny | .responseHasKeysAll | .responseHasOnlyKeysOtherThan => .atLeast 2
  | .getContext => .exactly 0
  | .timestampWithOffset => .between 1 2
  | .dateResponseDiffFromNow => .between 3 4

/-- Whether the first argument names an item whose response is read. -/
def referencesItem : Operator → Bool
  | .hasResponse | .responseHasKeysAny | .responseHasKeysAll | .responseHasOnlyKeysOtherThan
  | .getResponseItem | .getResponseValueAsNum | .getResponseValueAsStr | .countResponseItems
  | .dateResponseDiffFromNow => true
  | _ => false

end Operator

end Questionnaire
