import Questionnaire.Text.Hexadecimal

/-! Quoted texts and dotted keys of TOML documents. -/
namespace Questionnaire.Toml

def isBlank (c : Char) : Bool := c = ' ' || c = '\t'

/-- Skip blanks inside a line. -/
def skipBlanks (s : List Char) : List Char := s.dropWhile isBlank

/-- Whether a character may stand inside a line. Of the control characters only the tab may. -/
def isPlain (c : Char) : Bool := c = '\t' || (0x20 ≤ c.toNat && c.toNat ≠ 0x7f)

/-- The text after the end of a line. -/
def newline? : List Char → Option (List Char)
  | '\n' :: rest => some rest
  | '\r' :: '\n' :: rest => some rest
  | _ => none

def simpleEscape? : Char → Option Char
  | '"' => some '"'
  | '\\' => some '\\'
  | 'b' => some '\x08'
  | 'f' => some '\x0c'
  | 'n' => some '\n'
  | 'r' => some '\r'
  | 't' => some '\t'
  | _ => none

/-- The character with a code in hexadecimal digits. -/
def codePoint? (digits : List Char) : Option Char := do
  let digits ← digits.mapM Text.hexDigit?
  let code := digits.foldl (fun code digit => 16 * code + digit) 0
  if code.isValidChar then some (Char.ofNat code) else none

/-- The rest of a text in double quotes; `read` holds its characters so far, reversed. -/
def readBasic? (read : List Char) : List Char → Option (String × List Char)
  | [] => none
  | '"' :: rest => some (String.ofList read.reverse, rest)
  | '\\' :: 'u' :: a :: b :: c :: d :: rest => do
    readBasic? ((← codePoint? [a, b, c, d]) :: read) rest
  | '\\' :: 'U' :: a :: b :: c :: d :: e :: f :: g :: h :: rest => do
    readBasic? ((← codePoint? [a, b, c, d, e, f, g, h]) :: read) rest
  | '\\' :: c :: rest => do readBasic? ((← simpleEscape? c) :: read) rest
  | c :: rest => if isPlain c then readBasic? (c :: read) rest else none

/-- The rest of a text in three double quotes. A backslash at the end of a line takes away all white
space that follows, which `trimming` tells; up to two quotes may stand before the closing ones. -/
def readBasicLines? (trimming : Bool) (read : List Char) : List Char → Option (String × List Char)
  | [] => none
  | '"' :: '"' :: '"' :: '"' :: '"' :: rest =>
    some (String.ofList ('"' :: '"' :: read).reverse, rest)
  | '"' :: '"' :: '"' :: '"' :: rest => some (String.ofList ('"' :: read).reverse, rest)
  | '"' :: '"' :: '"' :: rest => some (String.ofList read.reverse, rest)
  | '\\' :: 'u' :: a :: b :: c :: d :: rest => do
    readBasicLines? false ((← codePoint? [a, b, c, d]) :: read) rest
  | '\\' :: 'U' :: a :: b :: c :: d :: e :: f :: g :: h :: rest => do
    readBasicLines? false ((← codePoint? [a, b, c, d, e, f, g, h]) :: read) rest
  | '\\' :: c :: rest =>
    if (newline? (skipBlanks (c :: rest))).isSome then readBasicLines? true read (c :: rest)
    else do readBasicLines? false ((← simpleEscape? c) :: read) rest
  | '\r' :: '\n' :: rest => readBasicLines? trimming (if trimming then read else '\n' :: read) rest
  | c :: rest =>
    if trimming ∧ (isBlank c ∨ c = '\n') then readBasicLines? true read rest
    else if isPlain c ∨ c = '\n' then readBasicLines? false (c :: read) rest
    else none

/-- The rest of a text in single quotes, where a backslash stands for itself. -/
def readLiteral? (s : List Char) : Option (String × List Char) :=
  match s.takeWhile isLiteral, s.dropWhile isLiteral with
  | text, '\'' :: rest => some (String.ofList text, rest)
  | _, _ => none
where
  isLiteral (c : Char) : Bool := c ≠ '\'' && isPlain c

/-- The rest of a text in three single quotes. -/
def readLiteralLines? (read : List Char) : List Char → Option (String × List Char)
  | [] => none
  | '\'' :: '\'' :: '\'' :: '\'' :: '\'' :: rest =>
    some (String.ofList ('\'' :: '\'' :: read).reverse, rest)
  | '\'' :: '\'' :: '\'' :: '\'' :: rest => some (String.ofList ('\'' :: read).reverse, rest)
  | '\'' :: '\'' :: '\'' :: rest => some (String.ofList read.reverse, rest)
  | '\r' :: '\n' :: rest => readLiteralLines? ('\n' :: read) rest
  | c :: rest => if isPlain c ∨ c = '\n' then readLiteralLines? (c :: read) rest else none

/-- The first line of a text on several lines may be left empty. -/
def skipNewline (s : List Char) : List Char := (newline? s).getD s

/-- A text in quotes of any kind. -/
def readText? : List Char → Option (String × List Char)
  | '"' :: '"' :: '"' :: rest => readBasicLines? false [] (skipNewline rest)
  | '"' :: rest => readBasic? [] rest
  | '\'' :: '\'' :: '\'' :: rest => readLiteralLines? [] (skipNewline rest)
  | '\'' :: rest => readLiteral? rest
  | _ => none

/-- Characters of keys and numbers without quotes. -/
def isWordChar (c : Char) : Bool := c.isAlphanum || c = '_' || c = '-'

/-- One part of a dotted key. -/
def readKeyPart? : List Char → Option (String × List Char)
  | '"' :: rest => readBasic? [] rest
  | '\'' :: rest => readLiteral? rest
  | s =>
    match s.takeWhile isWordChar with
    | [] => none
    | word => some (String.ofList word, s.dropWhile isWordChar)

/-- A dotted key of at most `limit` parts, and the text after it without blanks. -/
def readKey? : Nat → List Char → Option (List String × List Char)
  | 0, _ => none
  | limit + 1, s => do
    let (part, rest) ← readKeyPart? s
    match skipBlanks rest with
    | '.' :: rest =>
      let (others, rest) ← readKey? limit (skipBlanks rest)
      return (part :: others, rest)
    | rest => return ([part], rest)

end Questionnaire.Toml
