import Questionnaire.Text.Path
import Questionnaire.Value

/-! Responses to items: trees of named nodes with values at the leaves. -/
namespace Questionnaire

/-- A leaf without a value is a bare selection. -/
inductive ResponseNode where
  | leaf (key : String) (value : Option Value)
  | group (key : String) (children : List ResponseNode)
  deriving Repr, Inhabited

namespace ResponseNode

def key : ResponseNode → String
  | leaf key _ => key
  | group key _ => key

/-- The nodes directly beneath; a leaf has none. -/
def children : ResponseNode → List ResponseNode
  | leaf _ _ => []
  | group _ children => children

/-- The first child with a key. -/
def child? (node : ResponseNode) (key : String) : Option ResponseNode :=
  node.children.find? (·.key = key)

/-- The keys of the children, in the order of submission. -/
def selectedKeys (node : ResponseNode) : List String := node.children.map key

/-- The node at the end of a path of child keys. -/
def descend (node : ResponseNode) : List String → Option ResponseNode
  | [] => some node
  | segment :: path => (node.child? segment).bind (descend · path)

/-- The node at a dotted path whose first segment names this node. -/
def resolve (node : ResponseNode) (path : String) : Option ResponseNode :=
  match Text.segments path with
  | [] => none
  | segment :: path => if segment = node.key then node.descend path else none

mutual

/-- A group is empty when all beneath it is, and a leaf when its value is null or an empty text. -/
def isEmpty : ResponseNode → Bool
  | leaf _ none => false
  | leaf _ (some .null) => true
  | leaf _ (some (.text s)) => s = ""
  | leaf _ (some _) => false
  | group _ children => allEmpty children

def allEmpty : List ResponseNode → Bool
  | [] => true
  | node :: rest => isEmpty node && allEmpty rest

end

/-- The value of a leaf, if it has one other than null. -/
def leafValue? : ResponseNode → Option Value
  | leaf _ (some .null) => none
  | leaf _ value => value
  | group _ _ => none

end ResponseNode

end Questionnaire
