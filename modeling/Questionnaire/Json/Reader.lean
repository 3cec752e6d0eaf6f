import Questionnaire.Json
import Questionnaire.Text.Hexadecimal

/-! Reading JSON texts, with the cause and the place of the first fault. -/
namespace Questionnaire.Json

inductive ReadCause where
  | listEnds
  | objectEnds
  | stringEnds
  | valueEnds
  | colonExpected
  | listSeparatorExpected
  | objectSeparatorExpected
  | wordExpected
  | valueExpected
  | invalidEscape
  | invalidNumber
  | numberOutOfRange
  | controlCharacter
  | keyNotString
  | loneSurrogate
  | surrogateExpected
  | trailingComma
  | trailingCharacters
  | nestedTooDeeply
  deriving DecidableEq, Repr

def ReadCause.message : ReadCause → String
  | .listEnds => "EOF while parsing a list"
  | .objectEnds => "EOF while parsing an object"
  | .stringEnds => "EOF while parsing a string"
  | .valueEnds => "EOF while parsing a value"
  | .colonExpected => "expected `:`"
  | .listSeparatorExpected => "expected `,` or `]`"
  | .objectSeparatorExpected => "expected `,` or `\x7d`"
  | .wordExpected => "expected ident"
  | .valueExpected => "expected value"
  | .invalidEscape => "invalid escape"
  | .invalidNumber => "invalid number"
  | .numberOutOfRange => "number out of range"
  | .controlCharacter => "control character (\\u0000-\\u001F) found while parsing a string"
  | .keyNotString => "key must be a string"
  | .loneSurrogate => "lone leading surrogate in hex escape"
  | .surrogateExpected => "unexpected end of hex escape"
  | .trailingComma => "trailing comma"
  | .trailingCharacters => "trailing characters"
  | .nestedTooDeeply => "recursion limit exceeded"

/-- A fault, and how many bytes of the text follow its place. -/
structure ReadFault where
  cause : ReadCause
  unread : Nat
  deriving DecidableEq, Repr

/-- The length of a text in UTF-8. -/
def byteLength (s : List Char) : Nat := s.foldr (fun c n => c.utf8Size + n) 0

/-- A fault `bytes` after the start of the unread text. -/
def ReadFault.at (cause : ReadCause) (s : List Char) (bytes : Nat) : ReadFault :=
  ⟨cause, byteLength s - bytes⟩

def isSpace (c : Char) : Bool := c = ' ' || c = '\n' || c = '\t' || c = '\r'

def skipSpace (s : List Char) : List Char := s.dropWhile isSpace

/-- The UTF-16 unit written by four hexadecimal digits. -/
def unit? (a b c d : Char) : Option Nat := do
  let digits ← [a, b, c, d].mapM Text.hexDigit?
  return digits.foldl (fun unit digit => 16 * unit + digit) 0

/-- The fault of an escape that lacks its four digits. -/
def unitFault (s : List Char) : ReadFault :=
  if 4 ≤ byteLength s then .at .invalidEscape s 4 else ⟨.stringEnds, 0⟩

/-- The fault of a text that does not go on with the second half of a surrogate pair. -/
def secondHalfFault : List Char → ReadFault
  | [] => ⟨.stringEnds, 0⟩
  | ['\\'] => ⟨.stringEnds, 0⟩
  | '\\' :: 'u' :: rest => unitFault rest
  | '\\' :: rest => .at .surrogateExpected rest 1
  | s => .at .surrogateExpected s 1

def simpleEscape? : Char → Option Char
  | '"' => some '"'
  | '\\' => some '\\'
  | '/' => some '/'
  | 'b' => some '\x08'
  | 'f' => some '\x0c'
  | 'n' => some '\n'
  | 'r' => some '\r'
  | 't' => some '\t'
  | _ => none

/-- The rest of a string after its opening quote; `read` holds its characters so far, reversed. -/
def readString (read : List Char) : List Char → Except ReadFault (String × List Char)
  | [] => .error ⟨.stringEnds, 0⟩
  | '"' :: rest => .ok (String.ofList read.reverse, rest)
  | '\\' :: 'u' :: a :: b :: c :: d :: rest =>
    match unit? a b c d with
    | none => .error (unitFault (a :: b :: c :: d :: rest))
    | some high =>
      if 0xdc00 ≤ high ∧ high ≤ 0xdfff then .error (.at .loneSurrogate rest 0)
      else if high < 0xd800 ∨ 0xdbff < high then readString (Char.ofNat high :: read) rest
      else
        match rest with
        | '\\' :: 'u' :: e :: f :: g :: h :: rest =>
          match unit? e f g h with
          | none => .error (unitFault (e :: f :: g :: h :: rest))
          | some low =>
            if 0xdc00 ≤ low ∧ low ≤ 0xdfff then
              let code := (high - 0xd800) * 0x400 + (low - 0xdc00) + 0x10000
              readString (Char.ofNat code :: read) rest
            else .error (.at .loneSurrogate rest 0)
        | other => .error (secondHalfFault other)
  | '\\' :: 'u' :: rest => .error (unitFault rest)
  | ['\\'] => .error ⟨.stringEnds, 0⟩
  | '\\' :: c :: rest =>
    match simpleEscape? c with
    | some escaped => readString (escaped :: read) rest
    | none => .error (.at .invalidEscape (c :: rest) 1)
  | c :: rest =>
    if c.toNat < 0x20 then .error (.at .controlCharacter (c :: rest) 1)
    else readString (c :: read) rest

def digitsValue (digits : List Char) : Nat :=
  digits.foldl (fun n c => 10 * n + (c.toNat - '0'.toNat)) 0

/-- Digits of a number, of which `fraction` stand after the point, and its exponent. -/
structure NumberText where
  negative : Bool
  digits : List Char
  fraction : Nat
  exponent : Int

/-- Beyond this many places no number of digits is finite and nonzero. -/
def exponentBound : Int := 400

/-- The nearest binary number, if it is finite. -/
def NumberText.float? (t : NumberText) : Option Binary64 :=
  let value := digitsValue t.digits
  let shift := t.exponent - t.fraction
  let size := shift + (Nat.toDigits 10 value).length
  if value = 0 ∨ size < -exponentBound then some (.zero t.negative)
  else if exponentBound < size then none
  else
    let x :=
      if 0 ≤ shift then Binary64.ofRatio t.negative (value * Nat.pow 10 shift.toNat) 1
      else Binary64.ofRatio t.negative value (Nat.pow 10 (-shift).toNat)
    if x.isFinite then some x else none

/-- An integer of 64 bits, signed or unsigned, stays one; a negative zero does not. -/
def integer? (negative : Bool) (digits : List Char) : Option Int :=
  let value := digitsValue digits
  if negative then if 0 < value ∧ Int64.minValue.toInt ≤ -value then some (-value) else none
  else if value < UInt64.size then some value else none

/-- The digits of an exponent up to the first with which it exceeds 31 bits, if there is one. -/
def exponentOverflow? (n : Nat) : List Char → Option (List Char)
  | [] => none
  | c :: rest =>
    let next := 10 * n + (c.toNat - '0'.toNat)
    if 0x80000000 ≤ next then some rest else exponentOverflow? next rest

def readExponent (t : NumberText) (s : List Char) : Except ReadFault (Binary64 × List Char) :=
  let (negative, body) :=
    match s with
    | '+' :: rest => (false, rest)
    | '-' :: rest => (true, rest)
    | s => (false, s)
  let digits := body.takeWhile Char.isDigit
  let rest := body.dropWhile Char.isDigit
  match digits, body with
  | [], [] => .error ⟨.valueEnds, 0⟩
  | [], body => .error (.at .invalidNumber body 1)
  | digits, _ =>
    match exponentOverflow? 0 digits with
    | some others =>
      if digitsValue t.digits = 0 ∨ negative then .ok (.zero t.negative, rest)
      else .error (.at .numberOutOfRange (others ++ rest) 0)
    | none =>
      let exponent : Int := digitsValue digits
      match { t with exponent := if negative then -exponent else exponent }.float? with
      | some x => .ok (x, rest)
      | none => .error (.at .numberOutOfRange rest 0)

def isExponentMark (c : Char) : Bool := c = 'e' || c = 'E'

/-- The part of a number after its whole digits. -/
def readNumberEnd (negative : Bool) (whole : List Char) (s : List Char) :
    Except ReadFault (Number × List Char) :=
  match s with
  | '.' :: body =>
    let fraction := body.takeWhile Char.isDigit
    let rest := body.dropWhile Char.isDigit
    let t : NumberText := ⟨negative, whole ++ fraction, fraction.length, 0⟩
    match fraction, rest with
    | [], [] => .error ⟨.valueEnds, 0⟩
    | [], rest => .error (.at .invalidNumber rest 1)
    | _, rest =>
      match rest with
      | c :: after =>
        if isExponentMark c then (readExponent t after).map fun (x, r) => (.float x, r)
        else close t rest
      | [] => close t rest
  | c :: after =>
    let t : NumberText := ⟨negative, whole, 0, 0⟩
    if isExponentMark c then (readExponent t after).map fun (x, r) => (.float x, r)
    else integer t s
  | [] => integer ⟨negative, whole, 0, 0⟩ s
where
  close (t : NumberText) (rest : List Char) : Except ReadFault (Number × List Char) :=
    match t.float? with
    | some x => .ok (.float x, rest)
    | none => .error (.at .numberOutOfRange rest 0)
  integer (t : NumberText) (rest : List Char) : Except ReadFault (Number × List Char) :=
    match integer? t.negative t.digits with
    | some i => .ok (.int i, rest)
    | none => close t rest

/-- A number after its sign. -/
def readNumber (negative : Bool) : List Char → Except ReadFault (Number × List Char)
  | [] => .error ⟨.valueEnds, 0⟩
  | '0' :: rest =>
    if (rest.head?.map Char.isDigit).getD false then .error (.at .invalidNumber rest 1)
    else readNumberEnd negative ['0'] rest
  | s =>
    match s.takeWhile Char.isDigit with
    | [] => .error (.at .invalidNumber s 1)
    | whole => readNumberEnd negative whole (s.dropWhile Char.isDigit)

/-- The rest of a word such as `true`. -/
def readWord : List Char → List Char → Except ReadFault (List Char)
  | [], s => .ok s
  | _ :: _, [] => .error ⟨.valueEnds, 0⟩
  | w :: word, c :: s =>
    if w = c then readWord word s else .error (.at .wordExpected (c :: s) 1)

/-- A reader of one value, which returns the value and the unread text. -/
abbrev ValueReader := List Char → Except ReadFault (Json × List Char)

/-- The items of an array after the first; each takes at least one character, so `limit` is never
reached when it is the length of the text. -/
def readItems (value : ValueReader) (read : List Json) :
    Nat → List Char → Except ReadFault (List Json × List Char)
  | 0, _ => .error ⟨.listEnds, 0⟩
  | limit + 1, s =>
    match skipSpace s with
    | [] => .error ⟨.listEnds, 0⟩
    | ']' :: rest => .ok (read.reverse, rest)
    | ',' :: rest =>
      match skipSpace rest with
      | [] => .error ⟨.valueEnds, 0⟩
      | ']' :: rest => .error (.at .trailingComma (']' :: rest) 1)
      | rest => do
        let (item, rest) ← value rest
        readItems value (item :: read) limit rest
    | rest => .error (.at .listSeparatorExpected rest 1)

def readArray (value : ValueReader) (s : List Char) : Except ReadFault (Json × List Char) := do
  match skipSpace s with
  | [] => .error ⟨.listEnds, 0⟩
  | ']' :: rest => return (.array [], rest)
  | rest =>
    let (item, rest) ← value rest
    let (items, rest) ← readItems value [item] rest.length.succ rest
    return (.array items, rest)

/-- A member of an object after the quote that opens its name. -/
def readMember (value : ValueReader) (s : List Char) :
    Except ReadFault ((String × Json) × List Char) := do
  let (name, rest) ← readString [] s
  match skipSpace rest with
  | [] => .error ⟨.objectEnds, 0⟩
  | ':' :: rest =>
    let (item, rest) ← value (skipSpace rest)
    return ((name, item), rest)
  | rest => .error (.at .colonExpected rest 1)

/-- The members of an object after the first, with a `limit` as for items. -/
def readMembers (value : ValueReader) (read : Fields Json) :
    Nat → List Char → Except ReadFault (Fields Json × List Char)
  | 0, _ => .error ⟨.objectEnds, 0⟩
  | limit + 1, s =>
    match skipSpace s with
    | [] => .error ⟨.objectEnds, 0⟩
    | '\x7d' :: rest => .ok (read, rest)
    | ',' :: rest =>
      match skipSpace rest with
      | [] => .error ⟨.valueEnds, 0⟩
      | '"' :: rest => do
        let ((name, item), rest) ← readMember value rest
        readMembers value (Fields.insert name item read) limit rest
      | '\x7d' :: rest => .error (.at .trailingComma ('\x7d' :: rest) 1)
      | rest => .error (.at .keyNotString rest 1)
    | rest => .error (.at .objectSeparatorExpected rest 1)

def readObject (value : ValueReader) (s : List Char) : Except ReadFault (Json × List Char) := do
  match skipSpace s with
  | [] => .error ⟨.objectEnds, 0⟩
  | '\x7d' :: rest => return (.object [], rest)
  | '"' :: rest =>
    let ((name, item), rest) ← readMember value rest
    let (members, rest) ← readMembers value [(name, item)] rest.length.succ rest
    return (.object members, rest)
  | rest => .error (.at .keyNotString rest 1)

/-- A value that is neither an array nor an object. -/
def readScalar (s : List Char) : Except ReadFault (Json × List Char) := do
  match s with
  | [] => .error ⟨.valueEnds, 0⟩
  | 'n' :: rest => return (.null, ← readWord ['u', 'l', 'l'] rest)
  | 't' :: rest => return (.bool true, ← readWord ['r', 'u', 'e'] rest)
  | 'f' :: rest => return (.bool false, ← readWord ['a', 'l', 's', 'e'] rest)
  | '"' :: rest =>
    let (text, rest) ← readString [] rest
    return (.string text, rest)
  | '-' :: rest =>
    let (n, rest) ← readNumber true rest
    return (.number n, rest)
  | c :: rest =>
    if c.isDigit then
      let (n, rest) ← readNumber false (c :: rest)
      return (.number n, rest)
    else .error (.at .valueExpected (c :: rest) 1)

/-- A value with at most `depth` arrays and objects around each other. -/
def readValue (depth : Nat) (s : List Char) : Except ReadFault (Json × List Char) :=
  match depth, skipSpace s with
  | 0, '[' :: rest => .error (.at .nestedTooDeeply ('[' :: rest) 1)
  | 0, '\x7b' :: rest => .error (.at .nestedTooDeeply ('\x7b' :: rest) 1)
  | depth + 1, '[' :: rest => readArray (readValue depth) rest
  | depth + 1, '\x7b' :: rest => readObject (readValue depth) rest
  | _, s => readScalar s

/-- A text that holds one value and nothing else but white space. -/
def readText (depth : Nat) (s : List Char) : Except ReadFault Json := do
  let (j, rest) ← readValue depth s
  match skipSpace rest with
  | [] => return j
  | rest => .error (.at .trailingCharacters rest 1)

/-- Line and column, in bytes, of the place before which `bytes` of the text stand. -/
def place (line column : Nat) : Nat → List Char → Nat × Nat
  | 0, _ => (line, column)
  | _, [] => (line, column)
  | bytes, c :: rest =>
    if c = '\n' then place (line + 1) 0 (bytes - 1) rest
    else place line (column + min bytes c.utf8Size) (bytes - c.utf8Size) rest

def ReadFault.message (text : List Char) (fault : ReadFault) : String :=
  let (line, column) := place 1 0 (byteLength text - fault.unread) text
  s!"{fault.cause.message} at line {line} column {column}"

/-- How many arrays and objects may stand around each other. -/
def nestingLimit : Nat := 127

/-- Read a text, or say what is wrong with it and where. -/
def ofText (text : String) : Except String Json :=
  match readText nestingLimit text.toList with
  | .ok j => .ok j
  | .error fault => .error (fault.message text.toList)

end Questionnaire.Json
