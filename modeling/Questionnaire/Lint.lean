import Questionnaire.Expression.References
import Questionnaire.Item

/-! Checks for authors: keys used twice, and reads of items that come later or do not exist. -/
namespace Questionnaire

/-- Where in an item an expression stands. -/
inductive Site where
  | condition
  | rule (key : String)
  | optionDisplay (key : String)
  | optionDisabled (key : String)
  deriving DecidableEq, Repr

def Site.text : Site → String
  | .condition => "condition"
  | .rule key => s!"validation '{key}'"
  | .optionDisplay key => s!"display condition of option '{key}'"
  | .optionDisabled key => s!"disabled rule of option '{key}'"

namespace Item

/-- All expressions of an item with their sites. -/
def expressions (item : Item) : List (Site × Expression) :=
  (item.condition.map fun e => (Site.condition, e)).toList ++
  (item.rules.map fun r => (Site.rule r.key, r.rule)) ++
  item.options.flatMap fun c =>
    (c.displayCondition.map fun e => (Site.optionDisplay c.key, e)).toList ++
    (c.disabled.map fun e => (Site.optionDisabled c.key, e)).toList

/-- The items that each expression of an item reads, with the sites of the reads. -/
def reads (item : Item) : List (Site × String) :=
  item.expressions.flatMap fun (site, e) => e.references.items.map fun key => (site, key)

end Item

/-- What a finding is about. -/
inductive Issue where
  | duplicateKey (count : Nat)
  | forwardReference (site : Site) (target : String)
  | unknownReference (site : Site) (target : String)
  deriving DecidableEq, Repr

structure Finding where
  item : String
  issue : Issue
  deriving DecidableEq, Repr

namespace Issue

def name : Issue → String
  | duplicateKey _ => "duplicate-key"
  | forwardReference _ _ => "forward-reference"
  | unknownReference _ _ => "unknown-reference"

def message : Issue → String
  | duplicateKey count => s!"key is used by {count} items"
  | forwardReference site target => s!"{site.text} reads '{target}' which appears later"
  | unknownReference site target => s!"{site.text} reads unknown item '{target}'"

/-- A read of a later item is allowed. -/
def isForwardReference : Issue → Bool
  | forwardReference _ _ => true
  | _ => false

end Issue

namespace Finding

def text (f : Finding) : String := s!"[{f.issue.name}] {f.item}: {f.issue.message}"

def toJson (f : Finding) : Json :=
  .object [("item", .string f.item), ("kind", .string f.issue.name),
    ("message", .string f.issue.message)]

end Finding

/-- How often each text occurs, in ascending order of the texts. -/
def countTexts (texts : List String) : Fields Nat :=
  texts.foldl (fun counts s => Fields.insert s ((Fields.get? s counts).getD 0 + 1) counts) []

namespace Item

/-- The keys of all items in the order of definition. -/
def keys (root : Item) : List String := root.descendants.map key

/-- Keys of more than one item, in ascending order. -/
def duplicateKeys (root : Item) : List Finding :=
  (countTexts root.keys).filterMap fun (key, count) =>
    if 1 < count then some ⟨key, .duplicateKey count⟩ else none

/-- The finding of a read of an item that first occurs after the reading one. An item may read its
own response. -/
def forwardReference? (keys : List String) (position : Nat) (item : Item) (read : Site × String) :
    Option Finding :=
  if read.2 = item.key then none
  else
    match keys.idxOf? read.2 with
    | some target =>
      if position < target then some ⟨item.key, .forwardReference read.1 read.2⟩ else none
    | none => none

def forwardReferences (root : Item) : List Finding :=
  root.descendants.zipIdx.flatMap fun (item, position) =>
    item.reads.filterMap (forwardReference? root.keys position item)

def unknownReference? (keys : List String) (item : Item) (read : Site × String) :
    Option Finding :=
  if keys.contains read.2 then none else some ⟨item.key, .unknownReference read.1 read.2⟩

def unknownReferences (root : Item) : List Finding :=
  root.descendants.flatMap fun item => item.reads.filterMap (unknownReference? root.keys item)

/-- All findings, by kind. -/
def lint (root : Item) : List Finding :=
  root.duplicateKeys ++ root.forwardReferences ++ root.unknownReferences

end Item

end Questionnaire
