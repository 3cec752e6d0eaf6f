import Questionnaire.Expression.Build
import Questionnaire.Proofs.Congruence

/-! The operators on selected options. All of them look at the set of the listed keys and at the
list of the selected ones, which is empty where there is no answer. -/
namespace Questionnaire

/-- A key of an option as a literal: a text, or a number that stands for its text. -/
inductive OptionKey where
  | text (s : String)
  | number (d : Decimal)
  deriving DecidableEq, Repr

namespace OptionKey

def name : OptionKey → String
  | text s => s
  | number d => d.canonicalText

def literal : OptionKey → Expression
  | text s => .literal (.text s)
  | number d => .literal (.number d)

end OptionKey

namespace Context

/-- The keys selected at a node; without the node there are none. -/
def selectedKeys (ctx : Context) (item path : String) : List String :=
  (ctx.node? item path).elim [] ResponseNode.selectedKeys

theorem selectedKeys_of_absent {ctx : Context} {item path : String}
    (h : ctx.response? item = none ∨
      ∃ root, ctx.response? item = some root ∧ root.resolve path = none) :
    ctx.selectedKeys item path = [] := by
  have hnode : ctx.node? item path = none := by
    rcases h with hitem | ⟨root, hitem, hpath⟩
    · rw [node?, hitem, Option.bind_none]
    · rw [node?, hitem, Option.bind_some, hpath]
  rw [selectedKeys, hnode, Option.elim_none]

end Context

namespace Operator

theorem anyOf_iff {keys selected : List String} :
    anyOf keys selected = true ↔ ∃ key ∈ keys, key ∈ selected := by
  rw [anyOf, List.any_eq_true]
  constructor
  · rintro ⟨key, hselected, hkey⟩
    exact ⟨key, List.contains_iff_mem.mp hkey, hselected⟩
  · rintro ⟨key, hkey, hselected⟩
    exact ⟨key, hselected, List.contains_iff_mem.mpr hkey⟩

theorem allOf_iff {keys selected : List String} :
    allOf keys selected = true ↔ keys ≠ [] ∧ ∀ key ∈ keys, key ∈ selected := by
  simp [allOf]

theorem noneOf_iff {keys selected : List String} :
    noneOf keys selected = true ↔ selected ≠ [] ∧ ∀ key ∈ keys, key ∉ selected := by
  have hdisjoint : (∀ key ∈ selected, key ∉ keys) ↔ ∀ key ∈ keys, key ∉ selected :=
    ⟨fun h key hkey hselected => h key hselected hkey,
      fun h key hselected hkey => h key hkey hselected⟩
  simp [noneOf, hdisjoint]

theorem anyOf_nil (keys : List String) : anyOf keys [] = false := rfl

theorem allOf_nil (keys : List String) : allOf keys [] = false := by
  cases keys <;> rfl

theorem noneOf_nil (keys : List String) : noneOf keys [] = false := rfl

theorem mapM_keyOf_literals (op : Operator) (ctx : Context) (keys : List OptionKey) :
    (keys.map OptionKey.literal).mapM (op.keyOf (Expression.evaluate ctx)) =
      .ok (keys.map OptionKey.name) := by
  induction keys with
  | nil => rfl
  | cons key rest ih =>
    have hkey : op.keyOf (Expression.evaluate ctx) key.literal = .ok key.name := by
      cases key <;> rfl
    rw [List.map_cons, List.mapM_cons, hkey, ih]
    rfl

/-- A relation that nothing selected never stands in makes no difference between a node without
selected keys and no node. -/
theorem selects_literals (op : Operator) (ctx : Context) (item path : String)
    (keys : List OptionKey) {relation : List String → List String → Bool}
    (hnil : ∀ names, relation names [] = false) :
    op.selects (Expression.evaluate ctx) ctx (Expression.text item) (Expression.text path)
        (keys.map OptionKey.literal) relation =
      .ok (relation (keys.map OptionKey.name) (ctx.selectedKeys item path)) := by
  have hkeys := mapM_keyOf_literals op ctx keys
  simp only [selects, Expression.text, Expression.textOf_literal, bind, Except.bind, pure,
    Except.pure, hkeys, Context.selectedKeys]
  cases ctx.node? item path with
  | none => rw [Option.elim_none, hnil]
  | some node => rfl

end Operator

namespace Expression

/-- A call about the options selected at a node of the response to an item. -/
def onOptions (operator : Operator) (item path : String) (keys : List OptionKey) : Expression :=
  .call operator (text item :: text path :: keys.map OptionKey.literal)

def countResponseItems (item path : String) : Expression :=
  onResponse .countResponseItems item path []

/-- An operator that asks for a relation between the listed keys and the selected ones tells whether
they stand in it. -/
theorem evaluate_onOptions {operator : Operator} {relation : List String → List String → Bool}
    (ctx : Context) (item path : String) (keys : List OptionKey)
    (harity : operator.arity = .atLeast 2)
    (hoperate : ∀ a b rest, operator.operate (evaluate ctx) ctx (a :: b :: rest) =
      (operator.selects (evaluate ctx) ctx a b rest relation).map .bool)
    (hnil : ∀ names, relation names [] = false) :
    (onOptions operator item path keys).evaluate ctx =
      .ok (.bool (relation (keys.map OptionKey.name) (ctx.selectedKeys item path))) := by
  have haccepts : ∀ a b rest, operator.arity.accepts
      (a :: b :: rest : List Expression).length = true := by
    intro a b rest
    simp [harity, Arity.atLeast, Arity.accepts]
  rw [onOptions, evaluate_call_of_accepts (haccepts _ _ _), hoperate,
    operator.selects_literals ctx item path keys hnil]
  rfl

theorem evaluate_countResponseItems (ctx : Context) (item path : String) :
    (countResponseItems item path).evaluate ctx =
      .ok (.int (ctx.selectedKeys item path).length) := by
  rw [countResponseItems, onResponse, evaluate_call_of_accepts rfl]
  change Operator.countResponseItems.responseCount _ ctx (text item) (text path) = _
  simp only [Operator.responseCount, Operator.nodeOf, text, textOf_literal, bind, Except.bind, pure,
    Except.pure, Context.selectedKeys]
  cases ctx.node? item path <;> rfl

/-- How three tests of the options selected at a node go together, each given the listed keys, and
the number of selected ones. -/
structure SelectionLaws (any all other : List OptionKey → Bool) (count : Nat) : Prop where
  not_any_and_other : ∀ keys, ¬ (any keys = true ∧ other keys = true)
  any_or_other_iff : ∀ keys, any keys = true ∨ other keys = true ↔ 0 < count
  all_iff : ∀ keys, all keys = true ↔ keys ≠ [] ∧ ∀ key ∈ keys, any [key] = true
  any_append : ∀ keys more, any (keys ++ more) = (any keys || any more)
  other_append : ∀ keys more, other (keys ++ more) = (other keys && other more)
  eq_of_same_names : ∀ keys others : List OptionKey,
    (∀ name, name ∈ keys.map OptionKey.name ↔ name ∈ others.map OptionKey.name) →
    any keys = any others ∧ all keys = all others ∧ other keys = other others

open Operator in
theorem selectionLaws (selected : List String) :
    SelectionLaws (fun keys => anyOf (keys.map OptionKey.name) selected)
      (fun keys => allOf (keys.map OptionKey.name) selected)
      (fun keys => noneOf (keys.map OptionKey.name) selected) selected.length where
  not_any_and_other keys := by
    rw [anyOf_iff, noneOf_iff]
    rintro ⟨⟨key, hkey, hselected⟩, -, hnone⟩
    exact hnone key hkey hselected
  any_or_other_iff keys := by
    rw [anyOf_iff, noneOf_iff, List.length_pos_iff]
    constructor
    · rintro (⟨key, -, hselected⟩ | ⟨hne, -⟩)
      · exact List.ne_nil_of_mem hselected
      · exact hne
    · intro hne
      by_cases h : ∃ key ∈ keys.map OptionKey.name, key ∈ selected
      · exact .inl h
      · exact .inr ⟨hne, fun key hkey hselected => h ⟨key, hkey, hselected⟩⟩
  all_iff keys := by
    simp [allOf_iff, anyOf_iff]
  any_append keys more := by
    rw [Bool.eq_iff_iff, Bool.or_eq_true, anyOf_iff, anyOf_iff, anyOf_iff, List.map_append]
    simp only [List.mem_append, or_and_right, exists_or]
  other_append keys more := by
    rw [Bool.eq_iff_iff, Bool.and_eq_true, noneOf_iff, noneOf_iff, noneOf_iff, List.map_append,
      List.forall_mem_append]
    exact and_and_left
  eq_of_same_names keys others h := by
    have hempty : keys.map OptionKey.name = [] ↔ others.map OptionKey.name = [] := by
      simp only [List.eq_nil_iff_forall_not_mem, h]
    refine ⟨?_, ?_, ?_⟩
    · rw [Bool.eq_iff_iff, anyOf_iff, anyOf_iff]
      simp only [h]
    · rw [Bool.eq_iff_iff, allOf_iff, allOf_iff]
      simp only [ne_eq, hempty, h]
    · rw [Bool.eq_iff_iff, noneOf_iff, noneOf_iff]
      simp only [h]

/-- The four operators never fail on texts and numbers. At a node with selected options either one
of them is listed or all are others, and which of the two depends on no more than the set of the
listed keys. Where the item or the path is absent nothing is selected, and all tests are false. -/
theorem selections_are_parted (ctx : Context) (item path : String) :
    ∃ (any all other : List OptionKey → Bool) (count : Nat),
      (∀ keys, (onOptions .responseHasKeysAny item path keys).evaluate ctx =
        .ok (.bool (any keys))) ∧
      (∀ keys, (onOptions .responseHasKeysAll item path keys).evaluate ctx =
        .ok (.bool (all keys))) ∧
      (∀ keys, (onOptions .responseHasOnlyKeysOtherThan item path keys).evaluate ctx =
        .ok (.bool (other keys))) ∧
      (countResponseItems item path).evaluate ctx = .ok (.int count) ∧
      (∀ keys, any keys = true ↔
        ∃ name ∈ keys.map OptionKey.name, name ∈ ctx.selectedKeys item path) ∧
      count = (ctx.selectedKeys item path).length ∧
      SelectionLaws any all other count ∧
      ((ctx.response? item = none ∨
          ∃ root, ctx.response? item = some root ∧ root.resolve path = none) →
        count = 0 ∧ ∀ keys, any keys = false ∧ all keys = false ∧ other keys = false) := by
  refine ⟨_, _, _, _, fun keys => ?_, fun keys => ?_, fun keys => ?_, ?_,
    fun keys => Operator.anyOf_iff, rfl, selectionLaws (ctx.selectedKeys item path), ?_⟩
  · exact evaluate_onOptions ctx item path keys rfl (fun _ _ _ => rfl) Operator.anyOf_nil
  · exact evaluate_onOptions ctx item path keys rfl (fun _ _ _ => rfl) Operator.allOf_nil
  · exact evaluate_onOptions ctx item path keys rfl (fun _ _ _ => rfl) Operator.noneOf_nil
  · exact evaluate_countResponseItems ctx item path
  · intro habsent
    rw [Context.selectedKeys_of_absent habsent]
    exact ⟨rfl, fun keys => ⟨Operator.anyOf_nil _, Operator.allOf_nil _, Operator.noneOf_nil _⟩⟩

/-- An answer with two options selected. -/
def chosenContext : Context :=
  ⟨[("q", .group "rg" [.group "mcg" [.leaf "1" none, .leaf "3" none]])], [], none, 0⟩

/-- The number 1.0, and the text that it stands for. -/
def firstOption : List OptionKey := [.number ⟨false, 10, 1, by decide, by decide⟩, .text "1"]

/-- The listed option is selected, so that those selected are not all others; at an absent path
nothing is selected. -/
theorem first_option_chosen :
    (onOptions .responseHasKeysAny "q" "rg.mcg" firstOption).evaluate chosenContext =
      .ok (.bool true) ∧
    (onOptions .responseHasOnlyKeysOtherThan "q" "rg.mcg" firstOption).evaluate chosenContext =
      .ok (.bool false) ∧
    (chosenContext.response? "q").bind (·.resolve "rg.scg") = none ∧
    (onOptions .responseHasOnlyKeysOtherThan "q" "rg.scg" firstOption).evaluate chosenContext =
      .ok (.bool false) := by
  obtain ⟨any, all, other, count, hany, -, hother, -, hiff, -, hlaws, -⟩ :=
    selections_are_parted chosenContext "q" "rg.mcg"
  obtain ⟨_, _, absent, _, -, -, habsent, -, -, -, -, hnothing⟩ :=
    selections_are_parted chosenContext "q" "rg.scg"
  have htrue : any firstOption = true := (hiff firstOption).mpr ⟨"1", by decide, by decide⟩
  have hfalse : other firstOption = false := by
    rw [← Bool.not_eq_true]
    exact fun h => hlaws.not_any_and_other firstOption ⟨htrue, h⟩
  have hresolve : ∃ root, chosenContext.response? "q" = some root ∧
      root.resolve "rg.scg" = none := ⟨_, rfl, rfl⟩
  refine ⟨htrue ▸ hany firstOption, hfalse ▸ hother firstOption, rfl, ?_⟩
  rw [habsent, ((hnothing (.inr hresolve)).2 firstOption).2.2]

end Expression

end Questionnaire
