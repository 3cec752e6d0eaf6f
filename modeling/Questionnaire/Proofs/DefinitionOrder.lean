import Mathlib.Data.List.Flatten
import Mathlib.Logic.Function.Iterate
import Questionnaire.Proofs.Shown

/-! The order of definition: a stack, emptied turn by turn, lists the items of a tree by their
places, each once; an item is found at the first place that has its key, and what is visible is in
this order. -/
namespace Questionnaire

namespace Item

theorem preorders_eq_flatMap (items : List Item) : preorders items = items.flatMap preorder := by
  induction items with
  | nil => rfl
  | cons item rest ih => rw [preorders, ih, List.flatMap_cons]

/-- What a turn leaves of a stack that has its top at the end: in place of the topmost item its
children, the first of them on top. -/
def turn (stack : List Item) : List Item :=
  stack.dropLast ++ (stack.getLast?.elim [] children).reverse

theorem turn_reverse (item : Item) (rest : List Item) :
    turn (item :: rest).reverse = (item.children ++ rest).reverse := by
  rw [turn, List.reverse_cons, List.dropLast_concat, List.getLast?_concat, List.reverse_append]
  rfl

/-- Turn by turn the topmost item is the next of those that a stack stands for. -/
theorem getLast?_turns (n : Nat) (stack : List Item) :
    (turn^[n] stack.reverse).getLast? = (unfold stack)[n]? := by
  induction n generalizing stack with
  | zero =>
    rw [Function.iterate_zero_apply, List.getLast?_reverse]
    cases stack <;> simp [unfold]
  | succ n ih =>
    rw [Function.iterate_succ_apply]
    cases stack with
    | nil =>
      have hempty : turn [].reverse = [].reverse := rfl
      rw [hempty, ih, unfold, List.getElem?_nil, List.getElem?_nil]
    | cons item rest => rw [turn_reverse, ih, unfold, List.getElem?_cons_succ]

/-- The stack is empty after as many turns as there are items, and not before. -/
theorem turns_eq_nil_iff (n : Nat) (stack : List Item) :
    turn^[n] stack.reverse = [] ↔ (unfold stack).length ≤ n := by
  rw [← List.getLast?_eq_none_iff, getLast?_turns, List.getElem?_eq_none_iff]

/-- The item at a place, which says what child to take, from the outermost item inwards. -/
def at? : Item → List Nat → Option Item
  | item, [] => some item
  | item, i :: place => item.children[i]?.bind fun child => child.at? place

mutual

/-- The items of a tree with their places, in the order of definition. -/
def placed : Item → List (List Nat × Item)
  | group header selection items => ([], group header selection items) :: placedFrom 0 items
  | question header role options => [([], question header role options)]
  | pageBreak key condition => [([], pageBreak key condition)]

/-- The items of trees that are numbered from the given number on. -/
def placedFrom (first : Nat) : List Item → List (List Nat × Item)
  | [] => []
  | item :: rest => (placed item).map (Prod.map (first :: ·) id) ++ placedFrom (first + 1) rest

end

theorem placed_eq (item : Item) : item.placed = ([], item) :: placedFrom 0 item.children := by
  cases item <;> rfl

mutual

theorem map_snd_placed (item : Item) : item.placed.map Prod.snd = item.preorder := by
  rw [placed_eq, preorder_eq, List.map_cons]
  cases item with
  | group header selection items => rw [children, map_snd_placedFrom 0 items]
  | question => rfl
  | pageBreak => rfl

theorem map_snd_placedFrom (first : Nat) (items : List Item) :
    (placedFrom first items).map Prod.snd = preorders items := by
  cases items with
  | nil => rfl
  | cons item rest =>
    rw [placedFrom, preorders, List.map_append, List.map_map, ← map_snd_placed item,
      map_snd_placedFrom (first + 1) rest]
    rfl

end

mutual

/-- The places of a tree are those at which an item is found. -/
theorem mem_placed_iff (item : Item) (place : List Nat) (x : Item) :
    (place, x) ∈ item.placed ↔ item.at? place = some x := by
  have hbelow : (place, x) ∈ placedFrom 0 item.children ↔ ∃ i child below,
      item.children[i]? = some child ∧ place = (0 + i) :: below ∧ child.at? below = some x := by
    cases item with
    | group header selection items => exact mem_placedFrom_iff 0 items place x
    | question => simp [children, placedFrom]
    | pageBreak => simp [children, placedFrom]
  rw [placed_eq, List.mem_cons, hbelow]
  cases place with
  | nil => simp [at?, eq_comm]
  | cons i place => simp [at?, Option.bind_eq_some_iff, and_assoc]

theorem mem_placedFrom_iff (first : Nat) (items : List Item) (place : List Nat) (x : Item) :
    (place, x) ∈ placedFrom first items ↔ ∃ i child below,
      items[i]? = some child ∧ place = (first + i) :: below ∧ child.at? below = some x := by
  cases items with
  | nil => simp [placedFrom]
  | cons item rest =>
    have hfirst : (place, x) ∈ item.placed.map (Prod.map (first :: ·) id) ↔
        ∃ below, place = first :: below ∧ item.at? below = some x := by
      rw [List.mem_map]
      constructor
      · rintro ⟨⟨below, y⟩, hmem, heq⟩
        obtain ⟨rfl, rfl⟩ := Prod.mk.inj heq
        exact ⟨below, rfl, (mem_placed_iff item below _).mp hmem⟩
      · rintro ⟨below, rfl, hat⟩
        exact ⟨(below, x), (mem_placed_iff item below x).mpr hat, rfl⟩
    rw [placedFrom, List.mem_append, hfirst, mem_placedFrom_iff (first + 1) rest place x]
    constructor
    · rintro (⟨below, rfl, hat⟩ | ⟨i, child, below, hchild, rfl, hat⟩)
      · exact ⟨0, item, below, rfl, rfl, hat⟩
      · exact ⟨i + 1, child, below, hchild, by rw [Nat.add_assoc, Nat.add_comm 1], hat⟩
    · rintro ⟨i, child, below, hchild, rfl, hat⟩
      cases i with
      | zero =>
        obtain rfl := Option.some.inj hchild
        exact .inl ⟨below, rfl, hat⟩
      | succ i => exact .inr ⟨i, child, below, hchild, by rw [Nat.add_assoc, Nat.add_comm 1], hat⟩

end

mutual

/-- The places ascend: each before those below it, and these before the places of what follows. -/
theorem pairwise_placed (item : Item) : item.placed.Pairwise fun a b => a.1 < b.1 := by
  have hbelow : (placedFrom 0 item.children).Pairwise fun a b => a.1 < b.1 := by
    cases item with
    | group header selection items => exact pairwise_placedFrom 0 items
    | question => exact .nil
    | pageBreak => exact .nil
  rw [placed_eq, List.pairwise_cons]
  refine ⟨fun ⟨place, x⟩ hmem => ?_, hbelow⟩
  obtain ⟨i, child, below, -, rfl, -⟩ := (mem_placedFrom_iff 0 item.children place x).mp hmem
  exact List.nil_lt_cons _ below

theorem pairwise_placedFrom (first : Nat) (items : List Item) :
    (placedFrom first items).Pairwise fun a b => a.1 < b.1 := by
  cases items with
  | nil => exact .nil
  | cons item rest =>
    rw [placedFrom, List.pairwise_append, List.pairwise_map]
    refine ⟨(pairwise_placed item).imp fun hlt => ?_, pairwise_placedFrom (first + 1) rest,
      fun a ha b hb => ?_⟩
    · exact List.cons_lt_cons_iff.mpr (.inr ⟨rfl, hlt⟩)
    · obtain ⟨before, -, rfl⟩ := List.mem_map.mp ha
      obtain ⟨i, child, below, -, hplace, -⟩ := (mem_placedFrom_iff (first + 1) rest b.1 b.2).mp hb
      rw [hplace]
      exact List.cons_lt_cons_iff.mpr (.inl (by omega))

end

theorem find?_eq_map_placed (root : Item) (key : String) :
    root.find? key = (root.placed.find? (·.2.key = key)).map Prod.snd := by
  rw [find?, descendants_eq, ← map_snd_placed, List.find?_map]
  rfl

theorem find?_eq_none_iff {root : Item} {key : String} :
    root.find? key = none ↔ ∀ place item, root.at? place = some item → item.key ≠ key := by
  rw [find?_eq_map_placed, Option.map_eq_none_iff, List.find?_eq_none]
  simp only [Prod.forall, mem_placed_iff, decide_eq_true_eq, ne_eq]

/-- Under a key the item is found that stands at the first place with this key. -/
theorem find?_eq_some_iff {root item : Item} {key : String} :
    root.find? key = some item ↔ ∃ place, root.at? place = some item ∧ item.key = key ∧
      ∀ before < place, ∀ other, root.at? before = some other → other.key ≠ key := by
  have hpairwise := pairwise_placed root
  rw [find?_eq_map_placed, Option.map_eq_some_iff]
  constructor
  · rintro ⟨⟨place, _⟩, hfind, rfl⟩
    obtain ⟨hkey, first, later, hsplit, hfirst⟩ := List.find?_eq_some_iff_append.mp hfind
    have hmem := List.mem_of_find?_eq_some hfind
    refine ⟨place, (mem_placed_iff _ _ _).mp hmem, of_decide_eq_true hkey, ?_⟩
    intro before hbefore other hother
    rw [← mem_placed_iff, hsplit, List.mem_append, List.mem_cons] at hother
    rw [hsplit, List.pairwise_append, List.pairwise_cons] at hpairwise
    rcases hother with hmem | heq | hmem
    · simpa using hfirst _ hmem
    · obtain ⟨rfl, -⟩ := Prod.mk.inj heq
      exact absurd hbefore (List.lt_irrefl before)
    · exact absurd hbefore (List.lt_asymm (hpairwise.2.1.1 _ hmem))
  · rintro ⟨place, hat, hkey, hbefore⟩
    obtain ⟨first, later, hsplit⟩ := List.append_of_mem ((mem_placed_iff root place item).mpr hat)
    refine ⟨(place, item), List.find?_eq_some_iff_append.mpr
      ⟨decide_eq_true hkey, first, later, hsplit, fun ⟨before, other⟩ hmem => ?_⟩, rfl⟩
    have hother : root.at? before = some other := by
      rw [← mem_placed_iff, hsplit]
      exact List.mem_append_left _ hmem
    rw [hsplit, List.pairwise_append] at hpairwise
    have hlt : before < place := hpairwise.2.2 _ hmem _ List.mem_cons_self
    simpa using hbefore before hlt other hother

end Item

namespace Trail

theorem passed_append_sublist (a b : Trail) : ((a ++ b).passed).Sublist (a.passed ++ b.passed) := by
  cases h : a.failure with
  | none =>
    rw [append_of_none h]
  | some f =>
    rw [append_of_some h]
    exact List.sublist_append_left a.passed b.passed

theorem filterMap_outcomes (t : Trail) :
    t.outcomes.filterMap Except.toOption = t.passed.map Occurrence.item := by
  have hpassed : (t.passed.map fun o => (.ok o.item : Except Error Item)).filterMap
      Except.toOption = t.passed.map Occurrence.item := by
    rw [List.filterMap_map, ← List.filterMap_eq_map]
    rfl
  have hfailure : ((t.failure.map fun f => (.error f.2 : Except Error Item)).toList).filterMap
      Except.toOption = [] := by
    cases t.failure <;> rfl
  rw [outcomes, List.filterMap_append, hpassed, hfailure, List.append_nil]

end Trail

open Occurrence

theorem Item.preorders_chosen_sublist (ctx : Context) (seeder : Seeder) (o : Occurrence) :
    (Item.preorders ((o.chosen ctx seeder).map item)).Sublist (Item.preorders o.item.children) := by
  have hchosen : (o.item.chosen ctx seeder).Sublist o.item.children := by
    rw [← Item.pick_children]
    exact Item.pick_sublist ctx seeder o.item o.item.children
  rw [chosen_map_item, preorders_eq_flatMap, preorders_eq_flatMap]
  exact hchosen.flatMap preorder

/-- A walk passes some of the items that stand in its trees, in the order of definition. -/
theorem Occurrence.passed_sublist (s : Walk.Setting) (os : List Occurrence) :
    ((trails s os).passed.map item).Sublist (Item.preorders (os.map item)) := by
  induction os using forest_induction s.ctx s.seeder with
  | nil => simp [Trail.empty]
  | cons o rest inner ih =>
    have hown : ((trail s o).passed.map item).Sublist o.item.preorder := by
      rcases trail_cases s o with ⟨e, hv, ht⟩ | ⟨hv, ht⟩ | ⟨hv, ht⟩
      · rw [ht]
        exact List.nil_sublist _
      · rw [ht]
        exact List.nil_sublist _
      · have hself : (((o.own s.scope).passed).map item).Sublist [o.item] := by
          rw [own_eq]
          split
          · exact List.Sublist.refl _
          · exact List.nil_sublist _
        have hbelow := inner.trans (Item.preorders_chosen_sublist s.ctx s.seeder o)
        rw [ht, Trail.append_of_none (failure_own s.scope o), List.map_append, Item.preorder_eq]
        exact hself.append hbelow
    rw [trails_cons, List.map_cons, Item.preorders]
    have happend := (Trail.passed_append_sublist (trail s o) (trails s rest)).map item
    rw [List.map_append] at happend
    exact happend.trans (hown.append ih)

theorem Walk.toList_sublist (s : Setting) (root : Item) :
    ((toList s (start root)).filterMap Except.toOption).Sublist root.descendants := by
  have h := passed_sublist s [⟨0, root⟩]
  rw [← Item.trail_eq, List.map_singleton, Item.preorders, Item.preorders, List.append_nil] at h
  rw [toList_start, Trail.filterMap_outcomes, Item.descendants_eq]
  exact h

/-- The items of a tree are listed by a stack that ends empty, each before its children from left to
right, and so by ascending places, each place once. An item is found at the first place that has its
key, and only if some place has. What a walk yields are some of these items, in their order. -/
theorem Item.listed_in_definition_order (root : Item) :
    root.descendants = root :: root.children.flatMap descendants ∧
    (∀ n, (turn^[n] [root]).getLast? = root.descendants[n]?) ∧
    (∀ n, turn^[n] [root] = [] ↔ root.descendants.length ≤ n) ∧
    (∃ placed : List (List Nat × Item), placed.map Prod.snd = root.descendants ∧
      (placed.Pairwise fun a b => a.1 < b.1) ∧
      ∀ place item, (place, item) ∈ placed ↔ root.at? place = some item) ∧
    (∀ key, root.find? key = none ↔
      ∀ place item, root.at? place = some item → item.key ≠ key) ∧
    (∀ key item, root.find? key = some item ↔ ∃ place, root.at? place = some item ∧
      item.key = key ∧ ∀ before < place, ∀ other, root.at? before = some other → other.key ≠ key) ∧
    ∀ s : Walk.Setting,
      ((Walk.toList s (Walk.start root)).filterMap Except.toOption).Sublist root.descendants := by
  have hturns : ∀ n, (turn^[n] [root]).getLast? = root.descendants[n]? :=
    fun n => getLast?_turns n [root]
  have hend : ∀ n, turn^[n] [root] = [] ↔ root.descendants.length ≤ n :=
    fun n => turns_eq_nil_iff n [root]
  have hpreorder : root.descendants = root :: root.children.flatMap descendants := by
    have heach : preorder = descendants := funext fun item => (descendants_eq item).symm
    rw [descendants_eq, preorder_eq, preorders_eq_flatMap, heach]
  refine ⟨hpreorder, hturns, hend, ⟨root.placed, ?_, pairwise_placed root, mem_placed_iff root⟩,
    fun key => find?_eq_none_iff, fun key item => find?_eq_some_iff,
    fun s => Walk.toList_sublist s root⟩
  rw [map_snd_placed, descendants_eq]

namespace Item

/-- A group in a group, and a key that two items have. -/
def nested : Item :=
  .group ⟨"g", 0, none, []⟩ .sequential
    [.group ⟨"h", 0, none, []⟩ .sequential [.question ⟨"a", 0, none, []⟩ .text [],
      .question ⟨"b", 1, none, []⟩ .text []],
    .question ⟨"b", 2, none, []⟩ .text []]

/-- The inner group comes before what follows it, and of two items with one key the first is
found. -/
theorem nested_listed :
    nested.descendants.map key = ["g", "h", "a", "b", "b"] ∧
    turn^[5] [nested] = [] ∧
    nested.find? "b" = some (.question ⟨"b", 1, none, []⟩ .text []) ∧
    (∃ place, nested.at? place = some (.question ⟨"b", 1, none, []⟩ .text []) ∧
      ∀ before < place, ∀ other, nested.at? before = some other → other.key ≠ "b") ∧
    ∀ place item, nested.at? place = some item → item.key ≠ "c" := by
  obtain ⟨-, -, hend, -, hnone, hsome, -⟩ := listed_in_definition_order nested
  have hlisted : nested.descendants.map key = ["g", "h", "a", "b", "b"] := by
    rw [descendants_eq]
    rfl
  have hlength : nested.descendants.length = 5 := by
    rw [← List.length_map key, hlisted]
    rfl
  have hfirst : nested.find? "b" = some (.question ⟨"b", 1, none, []⟩ .text []) := by
    rw [find?, descendants_eq]
    rfl
  have hother : nested.find? "c" = none := by
    rw [find?, descendants_eq]
    rfl
  obtain ⟨place, hat, -, hbefore⟩ := (hsome _ _).mp hfirst
  exact ⟨hlisted, (hend 5).mpr (Nat.le_of_eq hlength), hfirst, ⟨place, hat, hbefore⟩,
    (hnone "c").mp hother⟩

end Item

end Questionnaire
