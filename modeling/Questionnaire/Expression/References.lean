import Questionnaire.Expression

/-! The items whose responses an expression reads. -/
namespace Questionnaire

/-- The keys of the items read, in the order of their first use, and the number of reads whose key
is not a literal text. -/
structure References where
  items : List String
  dynamic : Nat
  deriving DecidableEq, Repr

namespace References

def empty : References := ⟨[], 0⟩

def addItem (refs : References) (key : String) : References :=
  if refs.items.contains key then refs else { refs with items := refs.items ++ [key] }

/-- The read that a call itself makes. -/
def addCall (refs : References) (operator : Operator) (arguments : List Expression) : References :=
  if operator.referencesItem then
    match arguments with
    | .literal (.text key) :: _ => refs.addItem key
    | _ :: _ => { refs with dynamic := refs.dynamic + 1 }
    | [] => refs
  else refs

mutual

/-- Add the reads of an expression: those of a call come before those of its arguments. -/
def visit (refs : References) : Expression → References
  | .literal _ => refs
  | .call operator arguments => visitAll (refs.addCall operator arguments) arguments

def visitAll (refs : References) : List Expression → References
  | [] => refs
  | e :: rest => visitAll (visit refs e) rest

end

end References

/-- Everything that an expression reads. -/
def Expression.references (e : Expression) : References := References.empty.visit e

end Questionnaire
