import Questionnaire.Json.Writer

/-!
The published schema of survey documents. A form constrains the members of objects only, so that it
holds of everything that is no object unless it asks for one.
-/
namespace Questionnaire.Document.Schema

/-! The names that the schema lists. -/

def operatorNames : List String :=
  ["and", "or", "not", "eq", "lt", "lte", "gt", "gte", "isDefined", "sum", "hasResponse",
    "responseHasKeysAny", "responseHasKeysAll", "responseHasOnlyKeysOtherThan", "getResponseItem",
    "getResponseValueAsNum", "getResponseValueAsStr", "countResponseItems", "getContext",
    "getAttribute", "hasParticipantFlag", "hasParticipantFlagKeyAndValue", "timestampWithOffset",
    "dateResponseDiffFromNow"]

def severityNames : List String := ["hard", "soft"]

def optionRoleNames : List String := ["option", "textInput", "numberInput", "dateInput"]

def roleNames : List String :=
  ["singleChoice", "multipleChoice", "dateInput", "matrix", "text", "numberInput", "dropdown",
    "display"]

/-- A text that is not empty. -/
def isKey : Json → Bool
  | .string s => s ≠ ""
  | _ => false

def isOneOf (names : List String) : Json → Bool
  | .string s => names.contains s
  | _ => false

/-- A natural number, also one that is written with a fraction of zero. -/
def isCount : Json → Bool
  | .number (.int i) => 0 ≤ i
  | .number (.float x) => x.toRat.den = 1 && 0 ≤ x.toRat
  | _ => false

/-- Whether an object has a member; anything else needs none. -/
def requires (name : String) : Json → Bool
  | .object members => (Fields.get? name members).isSome
  | _ => true

/-- Whether every member of an object suits the rule for its name. -/
def membersAll (rule : String → Json → Bool) : Json → Bool
  | .object members => members.all fun (name, value) => rule name value
  | _ => true

def isObject : Json → Bool
  | .object _ => true
  | _ => false

/-- An array whose items all suit a rule. -/
def isListOf (rule : Json → Bool) : Json → Bool
  | .array items => items.all rule
  | _ => false

mutual

/-- A scalar, or a call of a known operator. -/
def isExpression : Json → Bool
  | .array _ => false
  | .object members => (Fields.get? "name" members).isSome && areCallMembers members
  | _ => true

def areCallMembers : List (String × Json) → Bool
  | [] => true
  | (name, value) :: rest =>
    (match name with
      | "name" => isOneOf operatorNames value
      | "args" => isArguments value
      | _ => false) && areCallMembers rest

def isArguments : Json → Bool
  | .array items => areExpressions items
  | _ => false

def areExpressions : List Json → Bool
  | [] => true
  | item :: rest => isExpression item && areExpressions rest

end

def ruleMember (name : String) (value : Json) : Bool :=
  match name with
  | "key" => isKey value
  | "severity" => isOneOf severityNames value
  | "rule" => isExpression value
  | _ => false

def isRule (j : Json) : Bool :=
  isObject j && requires "key" j && requires "severity" j && requires "rule" j &&
    membersAll ruleMember j

def choiceMember (name : String) (value : Json) : Bool :=
  match name with
  | "key" => isKey value
  | "role" => isOneOf optionRoleNames value
  | "displayCondition" => isExpression value
  | "disabled" => isExpression value
  | _ => false

def isChoice (j : Json) : Bool := isObject j && requires "key" j && membersAll choiceMember j

def sequentialMember (name : String) (value : Json) : Bool :=
  name = "method" && isOneOf ["sequential"] value

def isSequential (j : Json) : Bool :=
  isObject j && requires "method" j && membersAll sequentialMember j

def subsetMember (name : String) (value : Json) : Bool :=
  match name with
  | "method" => isOneOf ["randomSubset"] value
  | "n" => isCount value
  | _ => false

def isSubset (j : Json) : Bool :=
  isObject j && requires "method" j && requires "n" j && membersAll subsetMember j

def isSelection (j : Json) : Bool := isSequential j != isSubset j

def questionMember (name : String) (value : Json) : Bool :=
  match name with
  | "kind" => isOneOf ["question"] value
  | "key" => isKey value
  | "version" => isCount value
  | "condition" => isExpression value
  | "validations" => isListOf isRule value
  | "role" => isOneOf roleNames value
  | "options" => isListOf isChoice value
  | _ => false

def isQuestion (j : Json) : Bool := requires "role" j && membersAll questionMember j

def pageBreakMember (name : String) (value : Json) : Bool :=
  match name with
  | "kind" => isOneOf ["pageBreak"] value
  | "key" => isKey value
  | "condition" => isExpression value
  | _ => false

def isPageBreak (j : Json) : Bool := membersAll pageBreakMember j

def kinds : List String := ["group", "question", "pageBreak"]

/-- Whether the kind of an item is a known one, if it is given. -/
def kindSuits : Json → Bool
  | .object members => ((Fields.get? "kind" members).map (isOneOf kinds)).getD true
  | _ => true

/-- How many of the three forms of an item hold, when it is known whether it is a group. -/
def formsBeside (group : Bool) (j : Json) : Nat :=
  [group, isQuestion j, isPageBreak j].count true

mutual

/-- An object with a known kind and a key that is either a group, a question or a page break. -/
def isItem : Json → Bool
  | .object members =>
    requires "kind" (.object members) && requires "key" (.object members) &&
      kindSuits (.object members) &&
      formsBeside (areGroupMembers members) (.object members) = 1
  | _ => false

def areGroupMembers : List (String × Json) → Bool
  | [] => true
  | (name, value) :: rest =>
    (match name with
      | "kind" => isOneOf ["group"] value
      | "key" => isKey value
      | "version" => isCount value
      | "condition" => isExpression value
      | "validations" => isListOf isRule value
      | "selection" => isSelection value
      | "items" => isItemList value
      | _ => false) && areGroupMembers rest

def isItemList : Json → Bool
  | .array items => areItems items
  | _ => false

def areItems : List Json → Bool
  | [] => true
  | item :: rest => isItem item && areItems rest

end

def isGroup : Json → Bool
  | .object members => areGroupMembers members
  | _ => true

/-- How many of the three forms of an item hold. -/
def forms (j : Json) : Nat := formsBeside (isGroup j) j

/-- A rule of the schema that a document breaks. Of what stands below the outermost item, only that
the item has no form, or more than one, is told. -/
inductive Violation where
  | notOfType (found : Json) (type : String)
  | missing (name : String)
  | emptyText
  | otherVersion (version : String)
  | unknownKind (found : Json)
  | noForm (found : Json)
  | severalForms (found : Json)
  | unexpected (names : List String)

/-- A rule that holds if a condition does. -/
def demand (holds : Bool) (violation : Violation) : List Violation :=
  if holds then [] else [violation]

/-- What is wrong with the outermost item. -/
def itemViolations (j : Json) : List Violation :=
  demand (isObject j) (.notOfType j "object") ++
  demand (requires "kind" j) (.missing "kind") ++
  demand (requires "key" j) (.missing "key") ++
  demand (kindSuits j) (.unknownKind ((j.member? "kind").getD .null)) ++
  demand (forms j ≠ 0) (.noForm j) ++
  demand (forms j ≤ 1) (.severalForms j)

/-- Format versions start with a one and a point. -/
def isVersion (s : String) : Bool := ['1', '.'].isPrefixOf s.toList

/-- What is wrong with a member of a document, besides its name. -/
def memberViolations (name : String) (value : Json) : List Violation :=
  match name, value with
  | "canvass", .string s => demand (isVersion s) (.otherVersion s)
  | "canvass", j => [.notOfType j "string"]
  | "id", .string s => demand (s ≠ "") .emptyText
  | "id", j => [.notOfType j "string"]
  | "root", j => itemViolations j
  | _, _ => []

def memberNames : List String := ["canvass", "id", "root"]

/-- The rules that a document breaks. -/
def violations (j : Json) : List Violation :=
  match j with
  | .object members =>
    let unknown := (Fields.names members).filter fun name => !memberNames.contains name
    demand (requires "id" j) (.missing "id") ++
    demand (requires "root" j) (.missing "root") ++
    members.flatMap (fun (name, value) => memberViolations name value) ++
    demand unknown.isEmpty (.unexpected unknown)
  | j => [.notOfType j "object"]

def Violation.message : Violation → String
  | notOfType found type => s!"{found.compact} is not of type \"{type}\""
  | missing name => s!"\"{name}\" is a required property"
  | emptyText => "\"\" is shorter than 1 character"
  | otherVersion version => s!"{Json.stringText version} does not match \"^1\\.\""
  | unknownKind found =>
    s!"{found.compact} is not one of \"group\", \"question\" or \"pageBreak\""
  | noForm found =>
    s!"{found.compact} is not valid under any of the schemas listed in the 'oneOf' keyword"
  | severalForms found =>
    s!"{found.compact} is valid under more than one of the schemas listed in the 'oneOf' keyword"
  | unexpected names =>
    let listed := String.intercalate ", " (names.map fun name => s!"'{name}'")
    let verb := if names.length = 1 then "was" else "were"
    s!"Additional properties are not allowed ({listed} {verb} unexpected)"

@[simp] theorem demand_eq_nil_iff (holds : Bool) (violation : Violation) :
    demand holds violation = [] ↔ holds = true := by
  cases holds <;> simp [demand]

/-- An item further inside is held to the same rules as the outermost one. -/
theorem isItem_iff (j : Json) : isItem j = true ↔ itemViolations j = [] := by
  cases j with
  | object members =>
    simp only [isItem, itemViolations, isObject, forms, isGroup, Bool.and_eq_true,
      List.append_eq_nil_iff, demand_eq_nil_iff, decide_eq_true_eq]
    constructor
    · rintro ⟨⟨⟨kind, key⟩, suits⟩, one⟩
      exact ⟨⟨⟨⟨⟨trivial, kind⟩, key⟩, suits⟩, by simp [one]⟩, by simp [one]⟩
    · rintro ⟨⟨⟨⟨⟨-, kind⟩, key⟩, suits⟩, some⟩, few⟩
      have positive := of_decide_eq_true some
      have single := of_decide_eq_true few
      exact ⟨⟨⟨kind, key⟩, suits⟩, by omega⟩
  | _ => simp [isItem, itemViolations, isObject]

end Questionnaire.Document.Schema
