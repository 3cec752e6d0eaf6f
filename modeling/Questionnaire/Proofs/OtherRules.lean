import Questionnaire.Proofs.Passes

/-! Trees that differ in their rules only: they are walked alike. -/
namespace Questionnaire
open Occurrence

namespace Item

mutual

/-- A tree with other rules, given by the positions of its groups and questions. -/
def withRules (rules : Nat → List Rule) (position : Nat) : Item → Item
  | group header selection items =>
    group { header with rules := rules position } selection
      (withRulesAll rules (position + 1) items)
  | question header role options => question { header with rules := rules position } role options
  | pageBreak key condition => pageBreak key condition

def withRulesAll (rules : Nat → List Rule) (position : Nat) : List Item → List Item
  | [] => []
  | item :: rest =>
    withRules rules position item :: withRulesAll rules (position + item.size) rest

end

variable (rules : Nat → List Rule)

theorem key_withRules (position : Nat) (item : Item) :
    (item.withRules rules position).key = item.key := by
  cases item <;> simp only [withRules, key]

theorem condition_withRules (position : Nat) (item : Item) :
    (item.withRules rules position).condition = item.condition := by
  cases item <;> simp only [withRules, condition]

theorem includes_withRules (scope : Walk.Scope) (position : Nat) (item : Item) :
    scope.includes (item.withRules rules position) = scope.includes item := by
  cases item <;> simp only [withRules, Walk.Scope.includes]

theorem isVisible_withRules (ctx : Context) (position : Nat) (item : Item) :
    (item.withRules rules position).isVisible ctx = item.isVisible ctx := by
  simp only [isVisible, key_withRules, condition_withRules]

theorem children_withRules (position : Nat) (item : Item) :
    (item.withRules rules position).children = withRulesAll rules (position + 1) item.children := by
  cases item <;> simp only [withRules, withRulesAll, children]

theorem length_withRulesAll (position : Nat) (items : List Item) :
    (withRulesAll rules position items).length = items.length := by
  induction items generalizing position with
  | nil => rw [withRulesAll]
  | cons item rest ih => rw [withRulesAll, List.length_cons, List.length_cons, ih]

mutual

theorem size_withRules (position : Nat) (item : Item) :
    (item.withRules rules position).size = item.size := by
  rw [size_eq, size_eq, children_withRules]
  cases item with
  | group header selection items =>
    rw [children, length_preorders_withRulesAll]
  | question => rfl
  | pageBreak => rfl

theorem length_preorders_withRulesAll (position : Nat) (items : List Item) :
    (preorders (withRulesAll rules position items)).length = (preorders items).length := by
  cases items with
  | nil => rw [withRulesAll]
  | cons item rest =>
    have hsize : (item.withRules rules position).preorder.length = item.preorder.length :=
      size_withRules position item
    rw [withRulesAll, preorders, preorders, List.length_append, List.length_append, hsize,
      length_preorders_withRulesAll]

end

/-- What is chosen of the children depends on the key and on their number. -/
theorem pick_withRules {α : Type} (ctx : Context) (seeder : Seeder) (position : Nat) (item : Item)
    (xs : List α) :
    (item.withRules rules position).pick ctx seeder xs = item.pick ctx seeder xs := by
  cases item with
  | group header selection items =>
    cases selection <;> simp only [withRules, pick, length_withRulesAll]
  | question => rfl
  | pageBreak => rfl

end Item

namespace Occurrence
variable (rules : Nat → List Rule)

def withRules (o : Occurrence) : Occurrence := ⟨o.position, o.item.withRules rules o.position⟩

theorem place_withRulesAll (start : Nat) (items : List Item) :
    place start (Item.withRulesAll rules start items) =
      (place start items).map (withRules rules) := by
  induction items generalizing start with
  | nil => rw [Item.withRulesAll, place, List.map_nil]
  | cons item rest ih =>
    rw [Item.withRulesAll, place, place, Item.size_withRules, ih]
    rfl

theorem chosen_withRules (ctx : Context) (seeder : Seeder) (o : Occurrence) :
    (o.withRules rules).chosen ctx seeder = (o.chosen ctx seeder).map (withRules rules) := by
  have hchildren : (o.withRules rules).children = o.children.map (withRules rules) := by
    simp only [children, withRules, Item.children_withRules, place_withRulesAll]
  rw [chosen, hchildren, Item.pick_map]
  exact congrArg (List.map _) (Item.pick_withRules rules ctx seeder o.position o.item o.children)

end Occurrence

namespace Trail

def withRules (rules : Nat → List Rule) (t : Trail) : Trail :=
  ⟨t.passed.map (Occurrence.withRules rules),
    t.failure.map fun f => (f.1.withRules rules, f.2)⟩

theorem withRules_append (rules : Nat → List Rule) (a b : Trail) :
    (a ++ b).withRules rules = a.withRules rules ++ b.withRules rules := by
  cases h : a.failure with
  | none =>
    have h' : (a.withRules rules).failure = none := by rw [withRules, h, Option.map_none]
    rw [append_of_none h, append_of_none h', withRules, List.map_append]
    rfl
  | some f =>
    have h' : (a.withRules rules).failure = some (f.1.withRules rules, f.2) := by
      rw [withRules, h, Option.map_some]
    rw [append_of_some h, append_of_some h']

end Trail

theorem trails_withRules (s : Walk.Setting) (rules : Nat → List Rule) (os : List Occurrence) :
    trails s (os.map (withRules rules)) = (trails s os).withRules rules := by
  induction os using forest_induction s.ctx s.seeder with
  | nil => rw [List.map_nil, trails_nil]; rfl
  | cons o rest inner ih =>
    have hv : (o.withRules rules).item.isVisible s.ctx = o.item.isVisible s.ctx :=
      Item.isVisible_withRules rules s.ctx o.position o.item
    rw [List.map_cons, trails_cons, trails_cons, Trail.withRules_append, ih]
    congr 1
    rcases trail_cases s o with ⟨e, he, ht⟩ | ⟨he, ht⟩ | ⟨he, ht⟩
    · rw [ht, trail_of_error s (hv.trans he)]
      rfl
    · rw [ht, trail_of_hidden s (hv.trans he)]
      rfl
    · have hown : (o.withRules rules).own s.scope = (o.own s.scope).withRules rules := by
        have hin : s.scope.includes (o.withRules rules).item = s.scope.includes o.item :=
          Item.includes_withRules rules s.scope o.position o.item
        rw [own_eq, own_eq, hin]
        split <;> rfl
      rw [ht, trail_of_visible s (hv.trans he), chosen_withRules, inner, hown,
        Trail.withRules_append]

theorem Item.shown_withRules (ctx : Context) (seeder : Seeder) (rules : Nat → List Rule)
    (root : Item) :
    (root.withRules rules 0).shown ctx seeder = (root.shown ctx seeder).withRules rules := by
  rw [shown, shown, trail_eq, trail_eq, ← trails_withRules]
  rfl

end Questionnaire
