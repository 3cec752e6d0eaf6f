import Questionnaire.Json
import Questionnaire.Text.Hexadecimal

/-! JSON texts: a compact form, and one with a line for each member and item. -/
namespace Questionnaire.Json

def escapedChar (c : Char) : String :=
  match c with
  | '"' => "\\\""
  | '\\' => "\\\\"
  | '\x08' => "\\b"
  | '\x0c' => "\\f"
  | '\n' => "\\n"
  | '\r' => "\\r"
  | '\t' => "\\t"
  | c =>
    if c.toNat < 0x20 then
      (if c.toNat < 0x10 then "\\u000" else "\\u00") ++ Text.hexadecimal c.toNat
    else c.toString

def stringText (s : String) : String :=
  s.toList.foldl (fun text c => text ++ escapedChar c) "\"" ++ "\""

mutual

/-- The text without any white space. -/
def compact : Json → String
  | .null => "null"
  | .bool true => "true"
  | .bool false => "false"
  | .number n => n.text
  | .string s => stringText s
  | .array items => "[" ++ String.intercalate "," (compactItems items) ++ "]"
  | .object members => "\x7b" ++ String.intercalate "," (compactMembers members) ++ "\x7d"

def compactItems : List Json → List String
  | [] => []
  | item :: rest => item.compact :: compactItems rest

def compactMembers : List (String × Json) → List String
  | [] => []
  | (name, value) :: rest => (stringText name ++ ":" ++ value.compact) :: compactMembers rest

end

def indent (depth : Nat) : String := String.ofList (List.replicate (2 * depth) ' ')

/-- Entries on lines of their own between two brackets, indented one step further than these. -/
def block (depth : Nat) (left : String) (entries : List String) (right : String) : String :=
  if entries.isEmpty then left ++ right
  else
    left ++ "\n" ++
      String.intercalate ",\n" (entries.map fun entry => indent (depth + 1) ++ entry) ++
      "\n" ++ indent depth ++ right

mutual

/-- The text with indentation by two blanks for each level of nesting, starting at `depth`. -/
def prettyAt (depth : Nat) : Json → String
  | .null => "null"
  | .bool true => "true"
  | .bool false => "false"
  | .number n => n.text
  | .string s => stringText s
  | .array items => block depth "[" (prettyItems (depth + 1) items) "]"
  | .object members => block depth "\x7b" (prettyMembers (depth + 1) members) "\x7d"

def prettyItems (depth : Nat) : List Json → List String
  | [] => []
  | item :: rest => item.prettyAt depth :: prettyItems depth rest

def prettyMembers (depth : Nat) : List (String × Json) → List String
  | [] => []
  | (name, value) :: rest =>
    (stringText name ++ ": " ++ value.prettyAt depth) :: prettyMembers depth rest

end

def pretty (j : Json) : String := j.prettyAt 0

end Questionnaire.Json
