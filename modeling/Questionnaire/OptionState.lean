import Questionnaire.Evaluation
import Questionnaire.Item

/-! Which options of a question are shown and which of them are disabled. -/
namespace Questionnaire

structure OptionState where
  key : String
  visible : Bool
  disabled : Bool
  deriving DecidableEq, Repr

namespace Choice

/-- A condition of an option, with a value for its absence. An error names the item and the
option. -/
def holds (ctx : Context) (item option : String) (absent : Bool) :
    Option Expression → Except Error Bool
  | none => .ok absent
  | some e =>
    match e.evaluateBool ctx with
    | .ok b => .ok b
    | .error e => .error (.condition (item ++ "." ++ option) e)

def state (ctx : Context) (item : String) (c : Choice) : Except Error OptionState := do
  let visible ← holds ctx item c.key true c.displayCondition
  return ⟨c.key, visible, ← holds ctx item c.key false c.disabled⟩

end Choice

/-- The states of all options of an item, in the order of definition. -/
def Item.optionStates (ctx : Context) (item : Item) : Except Error (List OptionState) :=
  item.options.mapM (Choice.state ctx item.key)

end Questionnaire
