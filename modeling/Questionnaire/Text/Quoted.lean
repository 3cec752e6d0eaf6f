import Questionnaire.Text.Hexadecimal
import Questionnaire.Text.Unprintable

/-! Quoted texts: escapes for quotes, backslashes and unprintable characters. -/
namespace Questionnaire.Text

def escaped (c : Char) : String :=
  match c with
  | '"' => "\\\""
  | '\\' => "\\\\"
  | '\t' => "\\t"
  | '\n' => "\\n"
  | '\r' => "\\r"
  | '\x00' => "\\0"
  | c => if isUnprintable c then "\\u\x7b" ++ hexadecimal c.toNat ++ "\x7d" else c.toString

def quoted (s : String) : String :=
  s.toList.foldl (fun text c => text ++ escaped c) "\"" ++ "\""

end Questionnaire.Text
