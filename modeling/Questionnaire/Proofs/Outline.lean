import Questionnaire.Proofs.Occurrence
import Questionnaire.Proofs.Valid

/-! The entries of a tree of items: of a questionnaire, of a document and of the JSON of a document.
A questionnaire has those of the document it was made from. -/
namespace Questionnaire

/-- What an item is called, of which kind it is, and how many children, rules and options it has. -/
structure Entry where
  key : String
  kind : String
  children : Nat
  rules : Nat
  options : Nat
  deriving DecidableEq

namespace Json

def textAt (name : String) (members : List (String × Json)) : String :=
  ((Fields.get? name members).bind string?).getD ""

mutual

/-- The entries of a tree of items as it is written, each before those of its children. -/
def outline : Json → List Entry
  | .object members =>
    ⟨textAt "key" members, textAt "kind" members, countAt "items" members,
      countAt "validations" members, countAt "options" members⟩ :: outlineBelow members
  | _ => []

def outlines : List Json → List Entry
  | [] => []
  | j :: rest => outline j ++ outlines rest

def outlineBelow : List (String × Json) → List Entry
  | [] => []
  | (name, .array items) :: rest => if name = "items" then outlines items else outlineBelow rest
  | (name, _) :: rest => if name = "items" then [] else outlineBelow rest

end

theorem outlineBelow_of_get? {members : List (String × Json)} {items : List Json}
    (h : Fields.get? "items" members = some (.array items)) :
    outlineBelow members = outlines items := by
  induction members with
  | nil => cases h
  | cons member rest ih =>
    obtain ⟨name, j⟩ := member
    by_cases hname : name = "items"
    · rw [Fields.get?, if_pos hname] at h
      obtain rfl := Option.some.inj h
      rw [outlineBelow, if_pos hname]
    · rw [Fields.get?, if_neg hname] at h
      rw [← ih h]
      cases j <;> exact if_neg hname

theorem outlineBelow_of_get?_eq_none {members : List (String × Json)}
    (h : Fields.get? "items" members = none) : outlineBelow members = [] := by
  induction members with
  | nil => rfl
  | cons member rest ih =>
    obtain ⟨name, j⟩ := member
    by_cases hname : name = "items"
    · rw [Fields.get?, if_pos hname] at h
      cases h
    · rw [Fields.get?, if_neg hname] at h
      rw [← ih h]
      cases j <;> exact if_neg hname

theorem outline_object {members : List (String × Json)} {key kind : String}
    (hkey : Fields.get? "key" members = some (.string key))
    (hkind : Fields.get? "kind" members = some (.string kind)) :
    outline (.object members) =
      ⟨key, kind, countAt "items" members, countAt "validations" members,
        countAt "options" members⟩ :: outlineBelow members := by
  rw [outline, textAt, textAt, hkey, hkind]
  rfl

theorem countAt_eq_zero {members : List (String × Json)} {name : String}
    (h : Fields.get? name members = none) : countAt name members = 0 := by
  rw [countAt, h]

end Json

namespace Item

def kind : Item → String
  | group .. => "group"
  | question .. => "question"
  | pageBreak .. => "pageBreak"

def entry (item : Item) : Entry :=
  ⟨item.key, item.kind, item.children.length, item.rules.length, item.options.length⟩

end Item

namespace Document.Item

mutual

/-- The entries of a tree, each before those of its children. -/
def outline : Item → List Entry
  | group key _ _ rules _ items =>
    ⟨key, "group", items.length, rules.length, 0⟩ :: outlines items
  | question key _ _ rules _ options => [⟨key, "question", 0, rules.length, options.length⟩]
  | pageBreak key _ => [⟨key, "pageBreak", 0, 0, 0⟩]

def outlines : List Item → List Entry
  | [] => []
  | item :: rest => outline item ++ outlines rest

end

end Document.Item

namespace Item

theorem length_eq_of_allMirror {items : List Item} {ds : List Document.Item}
    (h : AllMirror items ds) : items.length = ds.length := by
  induction items generalizing ds with
  | nil =>
    cases ds with
    | nil => rfl
    | cons d rest => exact h.elim
  | cons item items ih =>
    cases ds with
    | nil => exact h.elim
    | cons d rest => rw [List.length_cons, List.length_cons, ih h.2]

mutual

theorem map_entry_of_mirrors (item : Item) {d : Document.Item} (h : item.Mirrors d) :
    item.preorder.map entry = d.outline := by
  cases item with
  | group header selection items =>
    cases d with
    | group key version condition rules selection' items' =>
      obtain ⟨hheader, -, hitems⟩ := h
      have hentry : (group header selection items).entry =
          ⟨header.key, "group", items.length, header.rules.length, 0⟩ := rfl
      rw [preorder, List.map_cons, map_entry_of_allMirror items hitems, hentry, hheader.key_eq,
        hheader.rules_eq.length_eq, length_eq_of_allMirror hitems]
      rfl
    | _ => exact h.elim
  | question header role options =>
    cases d with
    | question key version condition rules role' options' =>
      obtain ⟨hheader, -, hoptions⟩ := h
      have hentry : (question header role options).entry =
          ⟨header.key, "question", 0, header.rules.length, options.length⟩ := rfl
      rw [preorder, List.map_singleton, hentry, hheader.key_eq, hheader.rules_eq.length_eq,
        hoptions.length_eq]
      rfl
    | _ => exact h.elim
  | pageBreak key condition =>
    cases d with
    | pageBreak key' condition' =>
      obtain ⟨rfl, -, -⟩ := h
      rfl
    | _ => exact h.elim

theorem map_entry_of_allMirror (items : List Item) {ds : List Document.Item}
    (h : AllMirror items ds) : (preorders items).map entry = Document.Item.outlines ds := by
  cases items with
  | nil =>
    cases ds with
    | nil => rfl
    | cons d rest => exact h.elim
  | cons item items =>
    cases ds with
    | nil => exact h.elim
    | cons d rest =>
      obtain ⟨hitem, hitems⟩ := h
      rw [preorders, List.map_append, map_entry_of_mirrors item hitem,
        map_entry_of_allMirror items hitems, Document.Item.outlines]

end

end Item

end Questionnaire
