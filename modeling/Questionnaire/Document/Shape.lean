import Questionnaire.Json
import Questionnaire.Text.Quoted

/-!
Reading records, lists and tagged records from JSON. A record is an object, or an array of its
fields in the order of their declaration.
-/
namespace Questionnaire.Document

/-- What stands at a place, as a fault names it. -/
inductive Found where
  | null
  | bool (value : Bool)
  | number (value : Json.Number)
  | text (value : String)
  | list
  | map
  deriving DecidableEq, Repr

def Found.ofJson : Json → Found
  | .null => .null
  | .bool b => .bool b
  | .number n => .number n
  | .string s => .text s
  | .array _ => .list
  | .object _ => .map

def Found.description : Found → String
  | .null => "null"
  | .bool b => s!"boolean `{b}`"
  | .number (.int i) => s!"integer `{i}`"
  | .number (.float x) => s!"floating point `{x.text}`"
  | .text s => "string " ++ Text.quoted s
  | .list => "sequence"
  | .map => "map"

/-- What a place must hold. -/
inductive Expected where
  | text
  | list
  | map
  | word32
  | size
  | record (name : String)
  | tagged (name : String)
  | tag
  | tagIndex (count : Nat)
  deriving DecidableEq, Repr

def Expected.description : Expected → String
  | .text => "a string"
  | .list => "a sequence"
  | .map => "a map"
  | .word32 => "u32"
  | .size => "usize"
  | .record name => name
  | .tagged name => s!"internally tagged enum {name}"
  | .tag => "variant identifier"
  | .tagIndex count => s!"variant index 0 <= i < {count}"

/-- How many elements an array must have. -/
inductive ExpectedLength where
  | fields (record : String) (count : Nat)
  | exactly (count : Nat)
  | fewer
  deriving DecidableEq, Repr

private def elements (count : Nat) : String :=
  if count = 1 then "1 element" else s!"{count} elements"

def ExpectedLength.description : ExpectedLength → String
  | .fields record count => s!"{record} with {elements count}"
  | .exactly count => s!"{elements count} in sequence"
  | .fewer => "fewer elements in array"

inductive ShapeFault where
  | missingField (name : String)
  | wrongType (found : Found) (expected : Expected)
  | wrongValue (found : Found) (expected : Expected)
  | wrongLength (found : Nat) (expected : ExpectedLength)
  | unknownVariant (name : String) (known : List String)
  | noVariant (name : String)
  deriving DecidableEq, Repr

/-- One or two names as alternatives, more as a list. -/
def alternatives (names : List String) : String :=
  let marked := names.map fun name => s!"`{name}`"
  match marked with
  | [a] => a
  | [a, b] => s!"{a} or {b}"
  | _ => "one of " ++ String.intercalate ", " marked

def ShapeFault.message : ShapeFault → String
  | .missingField name => s!"missing field `{name}`"
  | .wrongType found expected =>
    s!"invalid type: {found.description}, expected {expected.description}"
  | .wrongValue found expected =>
    s!"invalid value: {found.description}, expected {expected.description}"
  | .wrongLength found expected => s!"invalid length {found}, expected {expected.description}"
  | .unknownVariant name known => s!"unknown variant `{name}`, expected {alternatives known}"
  | .noVariant name => s!"data did not match any variant of untagged enum {name}"

def wrongType {α : Type} (j : Json) (expected : Expected) : Except ShapeFault α :=
  .error (.wrongType (.ofJson j) expected)

def readText : Json → Except ShapeFault String
  | .string s => .ok s
  | j => wrongType j .text

/-- A natural number below a bound. -/
def readNat (bound : Nat) (expected : Expected) : Json → Except ShapeFault Nat
  | .number (.int i) =>
    if 0 ≤ i ∧ i < bound then .ok i.toNat
    else .error (.wrongValue (.number (.int i)) expected)
  | j => wrongType j expected

def readWord32 : Json → Except ShapeFault Nat := readNat UInt32.size .word32

def readSize : Json → Except ShapeFault Nat := readNat UInt64.size .size

/-- Null stands for nothing. -/
def readOptional {α : Type} (read : Json → Except ShapeFault α) :
    Json → Except ShapeFault (Option α)
  | .null => .ok none
  | j => (read j).map some

def readList {α : Type} (read : Json → Except ShapeFault α) : Json → Except ShapeFault (List α)
  | .array items => items.mapM read
  | j => wrongType j .list

def readAny (j : Json) : Except ShapeFault Json := .ok j

/-- The parts of a record, by name or by position. -/
inductive Parts (β : Type) where
  | named (members : List (String × β))
  | positional (items : List β)

def parts? : Json → Option (Parts Json)
  | .object members => some (.named members)
  | .array items => some (.positional items)
  | _ => none

/-- A record's name and its fields in the order of their declaration. Inside a tagged record the
fault of an array that is too long gives the expected length. -/
structure RecordForm where
  name : String
  fields : List String
  insideTagged : Bool

/-- Put the parts into an empty draft, in the order in which they stand, then finish it; a draft
that cannot be finished names the first field it lacks. -/
def RecordForm.read {α β δ : Type} (form : RecordForm) (empty : δ)
    (put : δ → String → β → Except ShapeFault δ) (finish : δ → Except String α) :
    Parts β → Except ShapeFault α
  | .named members => do
    let draft ← members.foldlM (fun draft (name, part) => put draft name part) empty
    match finish draft with
    | .ok record => return record
    | .error field => .error (.missingField field)
  | .positional items => do
    let draft ← (form.fields.zip items).foldlM (fun draft (name, part) => put draft name part) empty
    match finish draft with
    | .error field =>
      .error (.wrongLength (form.fields.idxOf field) (.fields form.name form.fields.length))
    | .ok record =>
      if items.length ≤ form.fields.length then return record
      else
        .error (.wrongLength items.length
          (if form.insideTagged then .exactly form.fields.length else .fewer))

/-- A record without recursive fields. -/
def RecordForm.readJson {α δ : Type} (form : RecordForm) (empty : δ)
    (put : δ → String → Json → Except ShapeFault δ) (finish : δ → Except String α)
    (j : Json) : Except ShapeFault α :=
  match parts? j with
  | some parts => form.read empty put finish parts
  | none => wrongType j (.record form.name)

/-- A choice between records by the value of one field, the tag. -/
structure TaggedForm where
  name : String
  tag : String
  variants : List String

/-- The number of the variant that a tag names. Where the choice is itself part of a tagged record,
the number may stand for the name. -/
def TaggedForm.readTag (form : TaggedForm) (insideTagged : Bool) : Json → Except ShapeFault Nat
  | .string s =>
    if form.variants.idxOf s < form.variants.length then .ok (form.variants.idxOf s)
    else .error (.unknownVariant s form.variants)
  | .number (.int i) =>
    if insideTagged ∧ 0 ≤ i then
      if i < form.variants.length then .ok i.toNat
      else .error (.wrongValue (.number (.int i)) (.tagIndex form.variants.length))
    else .error (.wrongType (.number (.int i)) .tag)
  | j => wrongType j .tag

/-- The variant and its parts; an array has the tag before them. -/
def TaggedForm.split {β : Type} (form : TaggedForm) (insideTagged : Bool) (json : β → Json) :
    Parts β → Except ShapeFault (Nat × Parts β)
  | .named members =>
    match Fields.get? form.tag members with
    | some tag => return (← form.readTag insideTagged (json tag), .named members)
    | none => .error (.missingField form.tag)
  | .positional (tag :: items) =>
    return (← form.readTag insideTagged (json tag), .positional items)
  | .positional [] => .error (.missingField form.tag)

end Questionnaire.Document
