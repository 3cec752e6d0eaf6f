import Questionnaire.Expression
import Questionnaire.Terms

/-!
Questionnaires: trees of groups, questions and page breaks. They are those that documents and
builders give; a page break of these has no rules, and its version is zero.
-/
namespace Questionnaire

/-- A rule that a visible item is validated by. -/
structure Rule where
  key : String
  severity : Severity
  rule : Expression
  deriving Repr

/-- An option of a question, with the conditions under which it is shown and disabled. -/
structure Choice where
  key : String
  role : OptionRole
  displayCondition : Option Expression
  disabled : Option Expression
  deriving Repr

/-- What groups and questions have in common. Without a condition an item is always visible. -/
structure Header where
  key : String
  version : Nat
  condition : Option Expression
  rules : List Rule
  deriving Repr, Inhabited

inductive Item where
  | group (header : Header) (selection : Selection) (items : List Item)
  | question (header : Header) (role : Role) (options : List Choice)
  | pageBreak (key : String) (condition : Option Expression)
  deriving Repr, Inhabited

namespace Item

def key : Item → String
  | group header _ _ => header.key
  | question header _ _ => header.key
  | pageBreak key _ => key

def version : Item → Nat
  | group header _ _ => header.version
  | question header _ _ => header.version
  | pageBreak _ _ => 0

def condition : Item → Option Expression
  | group header _ _ => header.condition
  | question header _ _ => header.condition
  | pageBreak _ condition => condition

def rules : Item → List Rule
  | group header _ _ => header.rules
  | question header _ _ => header.rules
  | pageBreak _ _ => []

def isGroup : Item → Bool
  | group _ _ _ => true
  | _ => false

def isPageBreak : Item → Bool
  | pageBreak _ _ => true
  | _ => false

def children : Item → List Item
  | group _ _ items => items
  | _ => []

def options : Item → List Choice
  | question _ _ options => options
  | _ => []

mutual

/-- All items of a tree in the order of definition, each before its children. -/
def preorder : Item → List Item
  | group header selection items => group header selection items :: preorders items
  | question header role options => [question header role options]
  | pageBreak key condition => [pageBreak key condition]

def preorders : List Item → List Item
  | [] => []
  | item :: rest => preorder item ++ preorders rest

end

theorem sizeOf_children_le (item : Item) : sizeOf item.children ≤ sizeOf item := by
  cases item <;> simp only [children, group.sizeOf_spec, question.sizeOf_spec,
    pageBreak.sizeOf_spec, List.nil.sizeOf_spec] <;> omega

theorem sizeOf_append (xs ys : List Item) :
    sizeOf (xs ++ ys) + 1 = sizeOf xs + sizeOf ys := by
  induction xs with
  | nil => simp only [List.nil_append, List.nil.sizeOf_spec]; omega
  | cons x xs ih => simp only [List.cons_append, List.cons.sizeOf_spec]; omega

/-- The items that a stack of items stands for: the topmost is taken, and its children put in its
place. -/
def unfold : List Item → List Item
  | [] => []
  | item :: stack => item :: unfold (item.children ++ stack)
termination_by stack => sizeOf stack
decreasing_by
  have := sizeOf_children_le item
  have := sizeOf_append item.children stack
  simp only [List.cons.sizeOf_spec]
  omega

/-- All items of a tree, from a stack that holds it. -/
def descendants (root : Item) : List Item := unfold [root]

/-- The first item of a tree with a key. -/
def find? (root : Item) (key : String) : Option Item := root.descendants.find? (·.key = key)

end Item

end Questionnaire
