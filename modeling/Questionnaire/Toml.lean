import Questionnaire.Toml.Text

/-!
TOML documents of tables with texts, integers and truth values, and with arrays of these. Values of
other kinds are refused, and so are arrays and tables inside of a value.
-/
namespace Questionnaire.Toml

inductive Scalar where
  | text (value : String)
  | integer (value : Int)
  | boolean (value : Bool)
  deriving DecidableEq, Repr

/-- A value under a dotted key. -/
abbrev Entry (α : Type) := List String × α

inductive Value where
  | scalar (value : Scalar)
  | table (entries : List (Entry Scalar))
  | array (items : List Scalar)
  deriving DecidableEq, Repr

/-- A table with its own heading. -/
structure Section where
  name : List String
  entries : List (Entry Value)
  deriving DecidableEq, Repr

/-- The entries before the first heading, and the headed tables in order. -/
structure Document where
  top : List (Entry Value)
  sections : List Section
  deriving DecidableEq, Repr

/-- The number written by digits, with single underscores between some of them. -/
def digits? (base : Nat) (s : List Char) : Option Nat :=
  match s with
  | [] => none
  | '_' :: _ => none
  | _ => go 0 s
where
  go (n : Nat) : List Char → Option Nat
    | [] => some n
    | '_' :: c :: rest => do go (base * n + (← digit? c)) rest
    | c :: rest => do go (base * n + (← digit? c)) rest
  digit? (c : Char) : Option Nat := (Text.hexDigit? c).filter (· < base)

/-- Decimal digits, without leading zeros. -/
def decimal? : List Char → Option Nat
  | ['0'] => some 0
  | '0' :: _ => none
  | s => digits? 10 s

def integer? (word : List Char) : Option Int := do
  let i : Int ← match word with
    | '+' :: rest => (decimal? rest).map Int.ofNat
    | '-' :: rest => (decimal? rest).map fun n => -(n : Int)
    | '0' :: 'x' :: rest => (digits? 16 rest).map Int.ofNat
    | '0' :: 'o' :: rest => (digits? 8 rest).map Int.ofNat
    | '0' :: 'b' :: rest => (digits? 2 rest).map Int.ofNat
    | rest => (decimal? rest).map Int.ofNat
  if Int64.minValue.toInt ≤ i ∧ i ≤ Int64.maxValue.toInt then some i else none

def word? (word : String) : Option Scalar :=
  match word with
  | "true" => some (.boolean true)
  | "false" => some (.boolean false)
  | word => (integer? word.toList).map .integer

def readScalar? (s : List Char) : Option (Scalar × List Char) :=
  match s with
  | '"' :: _ => (readText? s).map fun (text, rest) => (.text text, rest)
  | '\'' :: _ => (readText? s).map fun (text, rest) => (.text text, rest)
  | '+' :: rest => readWord ['+'] rest
  | s => readWord [] s
where
  readWord (sign : List Char) (s : List Char) : Option (Scalar × List Char) := do
    return (← word? (String.ofList (sign ++ s.takeWhile isWordChar)), s.dropWhile isWordChar)

/-- A key, an equals sign and a value. -/
def readEntry? {α : Type} (value : List Char → Option (α × List Char)) (s : List Char) :
    Option (Entry α × List Char) := do
  match ← readKey? s.length s with
  | (key, '=' :: rest) =>
    let (v, rest) ← value (skipBlanks rest)
    return ((key, v), rest)
  | _ => none

/-- The entries of a table written as a value, after the first; each takes a character at least, so
`limit` is never reached when it is the length of the text. -/
def readEntries? : Nat → List Char → Option (List (Entry Scalar) × List Char)
  | 0, _ => none
  | limit + 1, s =>
    match skipBlanks s with
    | '\x7d' :: rest => some ([], rest)
    | ',' :: rest => do
      let (entry, rest) ← readEntry? readScalar? (skipBlanks rest)
      let (entries, rest) ← readEntries? limit rest
      return (entry :: entries, rest)
    | _ => none

/-- A table written as a value, after its opening brace. -/
def readTable? (s : List Char) : Option (List (Entry Scalar) × List Char) :=
  match skipBlanks s with
  | '\x7d' :: rest => some ([], rest)
  | s => do
    let (entry, rest) ← readEntry? readScalar? s
    let (entries, rest) ← readEntries? rest.length rest
    return (entry :: entries, rest)

/-- Skip blanks, ends of lines and comments; the flag tells whether a comment goes on. -/
def skipGaps : Bool → List Char → List Char
  | _, [] => []
  | _, '\n' :: rest => skipGaps false rest
  | _, '\r' :: '\n' :: rest => skipGaps false rest
  | false, '#' :: rest => skipGaps true rest
  | comment, c :: rest =>
    if isBlank c || (comment && isPlain c) then skipGaps comment rest else c :: rest

/-- The items of an array after its opening bracket, on any number of lines; a comma may follow the
last one. The `limit` is as for entries. -/
def readItems? : Nat → List Char → Option (List Scalar × List Char)
  | 0, _ => none
  | limit + 1, s =>
    match skipGaps false s with
    | ']' :: rest => some ([], rest)
    | s => do
      let (item, rest) ← readScalar? s
      match skipGaps false rest with
      | ']' :: rest => return ([item], rest)
      | ',' :: rest =>
        let (items, rest) ← readItems? limit rest
        return (item :: items, rest)
      | _ => none

def readValue? : List Char → Option (Value × List Char)
  | '\x7b' :: rest => (readTable? rest).map fun (entries, rest) => (.table entries, rest)
  | '[' :: rest => (readItems? (rest.length + 1) rest).map fun (items, rest) => (.array items, rest)
  | s => (readScalar? s).map fun (value, rest) => (.scalar value, rest)

def skipComment : List Char → List Char
  | '#' :: rest => rest.dropWhile isPlain
  | s => s

/-- The text after blanks, a comment and the end of the line. -/
def lineEnd? (s : List Char) : Option (List Char) :=
  match skipComment (skipBlanks s) with
  | [] => some []
  | s => newline? s

/-- A heading after its opening bracket. -/
def readHeading? (s : List Char) : Option (List String × List Char) := do
  match ← readKey? s.length (skipBlanks s) with
  | (name, ']' :: rest) => return (name, rest)
  | _ => none

/-- Put an entry in front of those that stand before the first heading. -/
def Document.addEntry (entry : Entry Value) (d : Document) : Document :=
  { d with top := entry :: d.top }

/-- Put a heading in front, which takes the entries up to the first heading so far. -/
def Document.addHeading (name : List String) (d : Document) : Document :=
  ⟨[], ⟨name, d.top⟩ :: d.sections⟩

/-- The document in a text; each line takes a character, so `limit` is never reached when it is
greater than the length of the text. -/
def readLines? : Nat → List Char → Option Document
  | 0, _ => none
  | _, [] => some ⟨[], []⟩
  | limit + 1, s =>
    match lineEnd? s, skipBlanks s with
    | some rest, _ => readLines? limit rest
    | none, '[' :: rest => do
      let (name, rest) ← readHeading? rest
      return (← readLines? limit (← lineEnd? rest)).addHeading name
    | none, s => do
      let (entry, rest) ← readEntry? readValue? s
      return (← readLines? limit (← lineEnd? rest)).addEntry entry

/-- The document in a text, with or without a byte-order mark. -/
def Document.ofText? (text : String) : Option Document :=
  match text.toList with
  | '\ufeff' :: s => readLines? (s.length + 1) s
  | s => readLines? (s.length + 1) s

end Questionnaire.Toml
