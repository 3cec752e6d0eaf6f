import Mathlib.Data.List.Nodup
import Questionnaire.Builder
import Questionnaire.Proofs.Findings
import Questionnaire.Proofs.Segments

/-! Questionnaires that are built from their outermost group inwards. Where each child is started
from the builder of its parent, with a local key that no sibling has, all keys differ. -/
namespace Questionnaire
open Text

/-- A question in the making and what the methods make of it. -/
inductive QuestionBuilder.Grown (start : QuestionBuilder) : QuestionBuilder → Prop
  | refl : Grown start start
  | version {b : QuestionBuilder} (h : Grown start b) (version : Nat) :
    Grown start (b.withVersion version)
  | condition {b : QuestionBuilder} (h : Grown start b) (condition : Expression) :
    Grown start (b.withCondition condition)
  | rule {b : QuestionBuilder} (h : Grown start b) (key : String) (severity : Severity)
    (rule : Expression) : Grown start (b.addRule key severity rule)
  | choice {b : QuestionBuilder} (h : Grown start b) (choice : Choice) :
    Grown start (b.addChoice choice)

/-- A group in the making and what the methods make of it, with the local keys of the children that
were added. Each child was started from the builder of the group, in whatever state that was, and
grown likewise. The local keys have no dots, and siblings differ in theirs. -/
inductive GroupBuilder.Grown : GroupBuilder → List String → GroupBuilder → Prop
  | refl (start : GroupBuilder) : Grown start [] start
  | version {start b : GroupBuilder} {names : List String} (h : Grown start names b)
    (version : Nat) : Grown start names (b.withVersion version)
  | condition {start b : GroupBuilder} {names : List String} (h : Grown start names b)
    (condition : Expression) : Grown start names (b.withCondition condition)
  | selection {start b : GroupBuilder} {names : List String} (h : Grown start names b)
    (selection : Selection) : Grown start names (b.withSelection selection)
  | rule {start b : GroupBuilder} {names : List String} (h : Grown start names b) (key : String)
    (severity : Severity) (rule : Expression) : Grown start names (b.addRule key severity rule)
  | question {start b parent : GroupBuilder} {names others : List String}
    (h : Grown start names b) (hparent : Grown start others parent) {default : String}
    {override : Option String} {role : Role} {child : QuestionBuilder}
    (hchild : (parent.question default override role).Grown child)
    (hundotted : '.' ∉ (override.getD default).toList) (hnew : override.getD default ∉ names) :
    Grown start (names ++ [override.getD default]) (b.addItem child.build)
  | group {start b parent child : GroupBuilder} {names others below : List String}
    (h : Grown start names b) (hparent : Grown start others parent) {default : String}
    {override : Option String} (hchild : Grown (parent.group default override) below child)
    (hundotted : '.' ∉ (override.getD default).toList) (hnew : override.getD default ∉ names) :
    Grown start (names ++ [override.getD default]) (b.addItem child.build)
  | pageBreak {start b : GroupBuilder} {names : List String} (h : Grown start names b)
    {name : String} (hundotted : '.' ∉ name.toList) (hnew : name ∉ names) :
    Grown start (names ++ [name]) (b.addPageBreak name)

theorem QuestionBuilder.Grown.key_eq {start b : QuestionBuilder} (h : start.Grown b) :
    b.key = start.key := by
  induction h with
  | refl => rfl
  | version _ _ ih => exact ih
  | condition _ _ ih => exact ih
  | rule _ _ _ _ ih => exact ih
  | choice _ _ ih => exact ih

theorem GroupBuilder.Grown.key_eq {start b : GroupBuilder} {names : List String}
    (h : start.Grown names b) : b.key = start.key := by
  induction h with
  | refl => rfl
  | version _ _ ih => exact ih
  | condition _ _ ih => exact ih
  | selection _ _ ih => exact ih
  | rule _ _ _ _ ih => exact ih
  | question _ _ _ _ _ ih _ => exact ih
  | group _ _ _ _ _ ih _ _ => exact ih
  | pageBreak _ _ _ ih => exact ih

theorem segments_composeKey {parent name : String} (hparent : parent ≠ "")
    (hname : '.' ∉ name.toList) :
    segments (composeKey (some parent) name) = segments parent ++ [name] := by
  rw [composeKey, if_neg hparent, segments_append_dot, segments_of_undotted hname]

theorem composeKey_ne_empty {parent name : String} (hparent : parent ≠ "")
    (hname : '.' ∉ name.toList) : composeKey (some parent) name ≠ "" := by
  intro heq
  have hlength := congrArg List.length (segments_composeKey hparent hname)
  have hpos := List.length_pos_iff.mpr (segments_ne_nil parent)
  have hempty : (segments "").length = 1 := by decide
  rw [heq, List.length_append, List.length_singleton] at hlength
  omega

/-- Items whose keys differ from one another and go on from that of a group with one of some
names. -/
structure ComposedUnder (parent : String) (names : List String) (items : List Item) : Prop where
  nodup : (items.map Item.key).Nodup
  exists_name : ∀ item ∈ items, ∃ name ∈ names, segments parent ++ [name] <+: segments item.key

namespace ComposedUnder
variable {parent : String} {names : List String} {items : List Item}

/-- The name after the key of the group tells apart what belongs to different children. -/
theorem append (h : ComposedUnder parent names items) {name : String} (hname : name ∉ names)
    {below : List Item} (hbelow : ComposedUnder parent [name] below) :
    ComposedUnder parent (names ++ [name]) (items ++ below) := by
  refine ⟨?_, fun item hitem => ?_⟩
  · rw [List.map_append, List.nodup_append]
    refine ⟨h.nodup, hbelow.nodup, fun key hkey other hother heq => ?_⟩
    obtain ⟨item, hitem, rfl⟩ := List.mem_map.mp hkey
    obtain ⟨found, hfound, rfl⟩ := List.mem_map.mp hother
    obtain ⟨first, hfirst, hitemStarts⟩ := h.exists_name item hitem
    obtain ⟨last, hlast, hfoundStarts⟩ := hbelow.exists_name found hfound
    obtain rfl := List.mem_singleton.mp hlast
    rw [← heq] at hfoundStarts
    have hlength : (segments parent ++ [first]).length = (segments parent ++ [last]).length := by
      rw [List.length_append, List.length_append]
      rfl
    have hstarts := List.prefix_of_prefix_length_le hitemStarts hfoundStarts hlength.le
    obtain ⟨-, hsame⟩ := List.append_inj (hstarts.eq_of_length hlength) rfl
    exact hname ((List.cons.inj hsame).1 ▸ hfirst)
  · rcases List.mem_append.mp hitem with hitem | hitem
    · obtain ⟨first, hfirst, hstarts⟩ := h.exists_name item hitem
      exact ⟨first, List.mem_append_left _ hfirst, hstarts⟩
    · obtain ⟨last, hlast, hstarts⟩ := hbelow.exists_name item hitem
      exact ⟨last, List.mem_append_right _ hlast, hstarts⟩

theorem single {item : Item} {name : String}
    (h : segments item.key = segments parent ++ [name]) : ComposedUnder parent [name] [item] := by
  refine ⟨List.nodup_singleton _, fun found hfound => ⟨name, List.mem_singleton_self name, ?_⟩⟩
  rw [List.mem_singleton.mp hfound, h]

/-- What stands beneath a group goes on from its key. -/
theorem nodup_cons {group : Item} (h : ComposedUnder group.key names items) :
    ((group :: items).map Item.key).Nodup := by
  refine List.nodup_cons.mpr ⟨fun hmem => ?_, h.nodup⟩
  obtain ⟨item, hitem, heq⟩ := List.mem_map.mp hmem
  obtain ⟨name, -, hstarts⟩ := h.exists_name item hitem
  have hle := hstarts.length_le
  rw [heq, List.length_append, List.length_singleton] at hle
  omega

theorem cons_group {group : Item} (h : ComposedUnder group.key names items) {name : String}
    (hgroup : segments group.key = segments parent ++ [name]) :
    ComposedUnder parent [name] (group :: items) := by
  refine ⟨h.nodup_cons, fun item hitem => ⟨name, List.mem_singleton_self name, ?_⟩⟩
  rcases List.mem_cons.mp hitem with rfl | hitem
  · rw [hgroup]
  · obtain ⟨below, -, hstarts⟩ := h.exists_name item hitem
    rw [hgroup] at hstarts
    exact (List.prefix_append _ _).trans hstarts

end ComposedUnder

namespace GroupBuilder.Grown

theorem preorders_addItem (b : GroupBuilder) (item : Item) :
    Item.preorders (b.addItem item).items = Item.preorders b.items ++ item.preorder := by
  rw [addItem, Item.preorders_append, Item.preorders, Item.preorders, List.append_nil]

/-- All that a group holds goes on from its key with the local key of one of its children. -/
theorem composedUnder {start b : GroupBuilder} {names : List String} (h : start.Grown names b) :
    start.key ≠ "" → start.items = [] → ComposedUnder b.key names (Item.preorders b.items) := by
  induction h with
  | refl start =>
    intro _ hitems
    rw [hitems]
    exact ⟨List.nodup_nil, nofun⟩
  | version _ _ ih => exact ih
  | condition _ _ ih => exact ih
  | selection _ _ ih => exact ih
  | rule _ _ _ _ ih => exact ih
  | question hb hparent hchild hundotted hnew ih _ =>
    intro hkey hitems
    rw [preorders_addItem]
    refine (ih hkey hitems).append hnew (.single ?_)
    -- In whatever state the builder was when the child was started, it had the same key.
    change segments (QuestionBuilder.key _) = _
    rw [hchild.key_eq, hb.key_eq, ← hparent.key_eq]
    exact segments_composeKey (hparent.key_eq ▸ hkey) hundotted
  | group hb hparent hchild hundotted hnew ih _ ihchild =>
    intro hkey hitems
    have hparentKey := hparent.key_eq ▸ hkey
    have hbelow : ComposedUnder (GroupBuilder.build _).key _ _ :=
      ihchild (composeKey_ne_empty hparentKey hundotted) rfl
    rw [preorders_addItem]
    refine (ih hkey hitems).append hnew (hbelow.cons_group ?_)
    change segments (GroupBuilder.key _) = _
    rw [hchild.key_eq, hb.key_eq, ← hparent.key_eq]
    exact segments_composeKey hparentKey hundotted
  | pageBreak hb hundotted hnew ih =>
    intro hkey hitems
    rw [addPageBreak, preorders_addItem]
    refine (ih hkey hitems).append hnew (.single ?_)
    exact segments_composeKey (hb.key_eq ▸ hkey) hundotted

end GroupBuilder.Grown

namespace Item

theorem duplicateKeys_eq_nil {root : Item} (h : (root.preorder.map key).Nodup) :
    root.duplicateKeys = [] := by
  refine List.eq_nil_iff_forall_not_mem.mpr fun f hf => ?_
  obtain ⟨key, hcount, -⟩ := mem_duplicateKeys_iff.mp hf
  have hle := List.nodup_iff_count_le_one.mp h key
  omega

theorem find?_eq_some_of_nodup {root item : Item} (h : (root.preorder.map key).Nodup)
    (hitem : item ∈ root.preorder) : root.find? item.key = some item := by
  rw [find?, descendants_eq]
  have hsome : (root.preorder.find? (·.key = item.key)).isSome :=
    List.find?_isSome.mpr ⟨item, hitem, decide_eq_true rfl⟩
  obtain ⟨found, hfound⟩ := Option.isSome_iff_exists.mp hsome
  have hkey : found.key = item.key := by simpa using List.find?_some hfound
  rw [hfound, List.inj_on_of_nodup_map h (List.mem_of_find?_eq_some hfound) hitem hkey]

end Item

/-- In a questionnaire that is built from an outermost group whose key is not empty, each child
being started from the builder of its parent with a local key that has no dot and that no sibling
has, all keys differ, none is found to be a duplicate, and every item is what is found under its
key. -/
theorem composed_keys_are_unique {key : String} (hkey : key ≠ "") {names : List String}
    {b : GroupBuilder} (h : (GroupBuilder.root key).Grown names b) :
    (b.build.preorder.map Item.key).Nodup ∧ b.build.duplicateKeys = [] ∧
      ∀ item ∈ b.build.preorder, b.build.find? item.key = some item := by
  have hbelow : ComposedUnder b.build.key names (Item.preorders b.items) := h.composedUnder hkey rfl
  have hnodup : (b.build.preorder.map Item.key).Nodup := hbelow.nodup_cons
  exact ⟨hnodup, Item.duplicateKeys_eq_nil hnodup,
    fun item hitem => Item.find?_eq_some_of_nodup hnodup hitem⟩

/-- The key of the outermost group has a dot in it and that of a page break is empty; the question
has a key in place of the default one. -/
def weekly : GroupBuilder :=
  let root := GroupBuilder.root "s.v"
  (root.addItem ((root.group "G" none).addPageBreak "").build).addItem
    (root.question "Q" (some "Q1") .text).build

theorem grown_weekly : (GroupBuilder.root "s.v").Grown ["G", "Q1"] weekly := by
  let root := GroupBuilder.root "s.v"
  have hroot : root.Grown [] root := .refl root
  have hchild : (root.group "G" none).Grown [""] ((root.group "G" none).addPageBreak "") :=
    (GroupBuilder.Grown.refl (root.group "G" none)).pageBreak (by decide) (by decide)
  have hgroup : root.Grown ["G"] (root.addItem ((root.group "G" none).addPageBreak "").build) :=
    hroot.group hroot hchild (by decide) (by decide)
  have hquestion : (root.question "Q" (some "Q1") .text).Grown _ := .refl
  exact hgroup.question hroot hquestion (by decide) (by decide)

theorem weekly_keys_differ :
    "s.v" ≠ "" ∧ (GroupBuilder.root "s.v").Grown ["G", "Q1"] weekly ∧
      weekly.build.preorder.map Item.key = ["s.v", "s.v.G", "s.v.G.", "s.v.Q1"] ∧
      weekly.build.duplicateKeys = [] ∧
      weekly.build.find? "s.v.G." = some (.pageBreak "s.v.G." none) := by
  have hkey : "s.v" ≠ "" := by decide
  obtain ⟨-, hnone, hfind⟩ := composed_keys_are_unique hkey grown_weekly
  have hbreak : Item.pageBreak "s.v.G." none ∈ weekly.build.preorder :=
    List.mem_cons_of_mem _ (List.mem_cons_of_mem _ List.mem_cons_self)
  exact ⟨hkey, grown_weekly, by decide, hnone, hfind _ hbreak⟩

end Questionnaire
