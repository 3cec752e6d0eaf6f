import Questionnaire.Expression

/-! Constructors of calls for authors of questionnaires. Where the signature fixes the number of
arguments, the calls are well formed. -/
namespace Questionnaire.Expression

def text (s : String) : Expression := .literal (.text s)

def int (i : Int) : Expression := .literal (.int i)

def and (arguments : List Expression) : Expression := .call .and arguments

def or (arguments : List Expression) : Expression := .call .or arguments

def not (argument : Expression) : Expression := .call .not [argument]

def eq (left right : Expression) : Expression := .call .eq [left, right]

def lt (left right : Expression) : Expression := .call .lt [left, right]

def gt (left right : Expression) : Expression := .call .gt [left, right]

def isDefined (argument : Expression) : Expression := .call .isDefined [argument]

/-- A call about a node of the response to an item, with option keys where it takes any. -/
def onResponse (operator : Operator) (item path : String) (keys : List String) : Expression :=
  .call operator (text item :: text path :: keys.map text)

def hasResponse (item path : String) : Expression := onResponse .hasResponse item path []

def responseHasKeysAny (item path : String) (keys : List String) : Expression :=
  onResponse .responseHasKeysAny item path keys

def responseHasKeysAll (item path : String) (keys : List String) : Expression :=
  onResponse .responseHasKeysAll item path keys

def responseHasOnlyKeysOtherThan (item path : String) (keys : List String) : Expression :=
  onResponse .responseHasOnlyKeysOtherThan item path keys

def getResponseItem (item path : String) : Expression := onResponse .getResponseItem item path []

def getResponseValueAsNum (item path : String) : Expression :=
  onResponse .getResponseValueAsNum item path []

def getContext : Expression := .call .getContext []

def getAttribute (base : Expression) (name : String) : Expression :=
  .call .getAttribute [base, text name]

def hasParticipantFlag (key : String) : Expression := .call .hasParticipantFlag [text key]

def timestampWithOffset (seconds : Int) : Expression := .call .timestampWithOffset [int seconds]

end Questionnaire.Expression
