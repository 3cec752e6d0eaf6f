import Questionnaire.Toml

/-! Settings of the command line in a configuration file. -/
namespace Questionnaire

/-- The settings that change an answer: a format of output by name, and a seed for selections. -/
structure Config where
  format : Option String
  seed : Option Nat
  deriving DecidableEq, Repr

namespace Config

open Toml (Scalar)

def empty : Config := ⟨none, none⟩

/-- The file that is read if no other is named; it may be missing. -/
def defaultFile : String := "canvass.toml"

def sections : List String := ["output", "logging", "selection"]

/-- Settings of one section that stand together. Unless they are the whole section, more of them may
follow. -/
structure Part where
  name : String
  whole : Bool
  settings : List (String × Scalar)

/-- A setting under a plain name. -/
def setting? : Toml.Entry Scalar → Option (String × Scalar)
  | ([name], value) => some (name, value)
  | _ => none

def scalar? : Toml.Entry Toml.Value → Option (Toml.Entry Scalar)
  | (key, .scalar value) => some (key, value)
  | _ => none

/-- The settings of a section in the order of an array, and how many of them it must give. -/
def layout? : String → Option (List String × Nat)
  | "output" => some (["format"], 1)
  | "logging" => some (["level", "json"], 0)
  | "selection" => some (["seed"], 1)
  | _ => none

/-- A section written as an array; what stands behind its settings is ignored. -/
def Part.ofItems? (name : String) (items : List Scalar) : Option Part := do
  let (keys, required) ← layout? name
  if items.length < required then none else some ⟨name, true, keys.zip items⟩

/-- A section written as a value, or one setting of it under a dotted key. -/
def Part.ofEntry? : Toml.Entry Toml.Value → Option Part
  | ([name], .table entries) => do return ⟨name, true, ← entries.mapM setting?⟩
  | ([name], .array items) => ofItems? name items
  | ([name, key], .scalar value) => some ⟨name, false, [(key, value)]⟩
  | _ => none

/-- A section under its heading. -/
def Part.ofSection? (s : Toml.Section) : Option Part :=
  match s.name with
  | [name] => do return ⟨name, true, ← s.entries.mapM fun entry => do setting? (← scalar? entry)⟩
  | _ => none

/-- Whether two parts may stand in one file. -/
def Part.compatible (p q : Part) : Bool := p.name ≠ q.name || (!p.whole && !q.whole)

/-- Take a setting of a section, if it is a known one with a value of its kind. -/
def put? (config : Config) : (String × String) × Scalar → Option Config
  | (("output", "format"), .text name) => some { config with format := some name }
  | (("logging", "level"), .text _) => some config
  | (("logging", "json"), .boolean _) => some config
  | (("selection", "seed"), .integer seed) =>
    if 0 ≤ seed then some { config with seed := some seed.toNat } else none
  | _ => none

/-- The settings of a part, with the name of its section. -/
def Part.placed (p : Part) : List ((String × String) × Scalar) :=
  p.settings.map fun (key, value) => ((p.name, key), value)

/-- Parts of known sections that may stand together, with each setting given once. -/
def consistent (parts : List Part) : Bool :=
  (parts.all fun p => sections.contains p.name) &&
    decide (parts.Pairwise (Part.compatible · ·)) &&
    decide ((parts.flatMap Part.placed).map Prod.fst).Nodup

def ofParts? (parts : List Part) : Option Config :=
  if consistent parts then (parts.flatMap Part.placed).foldlM put? empty else none

def ofText? (text : String) : Option Config := do
  let document ← Toml.Document.ofText? text
  let top ← document.top.mapM Part.ofEntry?
  ofParts? (top ++ (← document.sections.mapM Part.ofSection?))

end Config

end Questionnaire
