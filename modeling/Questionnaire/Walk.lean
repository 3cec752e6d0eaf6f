import Questionnaire.Evaluation
import Questionnaire.Seeder

/-!
The walk over the visible items of a questionnaire, one item at a time. It is depth first, from left
to right; a hidden item hides all beneath it, and a condition without a boolean value ends it.
-/
namespace Questionnaire

/-- Whether an item is visible; an error names the item. -/
def Item.isVisible (ctx : Context) (item : Item) : Except Error Bool :=
  match item.condition with
  | none => .ok true
  | some condition =>
    match condition.evaluateBool ctx with
    | .ok visible => .ok visible
    | .error e => .error (.condition item.key e)

/-- What the walk yields besides questions. -/
structure Walk.Scope where
  pageBreaks : Bool
  groups : Bool
  deriving DecidableEq, Repr

namespace Walk.Scope

def questions : Scope := ⟨false, false⟩

def withPageBreaks : Scope := ⟨true, false⟩

def withGroups : Scope := ⟨false, true⟩

def includes (scope : Scope) (item : Item) : Bool :=
  match item with
  | .group _ _ _ => scope.groups
  | .question _ _ _ => true
  | .pageBreak _ _ => scope.pageBreaks

end Walk.Scope

/-- What a walk goes through: one context with one seeder, and a scope. -/
structure Walk.Setting where
  ctx : Context
  seeder : Seeder
  scope : Walk.Scope

/-- The items still to be walked, those of the innermost group first. -/
structure Walk where
  pending : List (List Item)
  ended : Bool

namespace Walk

def start (root : Item) : Walk := ⟨[[root]], false⟩

/-- A walk from which nothing more comes. -/
def finished : Walk := ⟨[], true⟩

/-- Go on to the next item in scope or to the first error. -/
def advance (s : Setting) : List (List Item) → Option (Except Error Item × Walk)
  | [] => none
  | [] :: frames => advance s frames
  | (item :: items) :: frames =>
    match item.isVisible s.ctx with
    | .error e => some (.error e, finished)
    | .ok false => advance s (items :: frames)
    | .ok true =>
      if item.isGroup then
        let inner := item.chosen s.ctx s.seeder :: items :: frames
        if s.scope.includes item then some (.ok item, ⟨inner, false⟩) else advance s inner
      else if s.scope.includes item then some (.ok item, ⟨items :: frames, false⟩)
      else advance s (items :: frames)
termination_by frames => sizeOf frames
decreasing_by
  all_goals simp only [List.cons.sizeOf_spec, List.nil.sizeOf_spec]
  · omega
  · omega
  · have := Item.sizeOf_chosen_lt s.ctx s.seeder item
    omega
  · omega

/-- The next item or error, with the walk after it. -/
def next (s : Setting) (walk : Walk) : Option (Except Error Item × Walk) :=
  if walk.ended then none else advance s walk.pending

/-- What is left to walk. -/
noncomputable def weight (walk : Walk) : Nat := if walk.ended then 0 else sizeOf walk.pending

theorem weight_advance_lt (s : Setting) (frames : List (List Item)) {result : Except Error Item}
    {walk : Walk} (h : advance s frames = some (result, walk)) : walk.weight < sizeOf frames := by
  induction frames using advance.induct s with
  | case1 => simp [advance] at h
  | case2 frames ih =>
    rw [advance] at h
    have := ih h
    simp only [List.cons.sizeOf_spec, List.nil.sizeOf_spec]
    omega
  | case3 item items frames e he =>
    rw [advance, he] at h
    obtain ⟨rfl, rfl⟩ := by simpa using h
    simp only [weight, finished, if_true, List.cons.sizeOf_spec]
    omega
  | case4 item items frames he ih =>
    rw [advance, he] at h
    have := ih h
    simp only [List.cons.sizeOf_spec] at this ⊢
    omega
  | case5 item items frames he hg hs =>
    rw [advance, he] at h
    simp only [hg, hs, if_true] at h
    obtain ⟨rfl, rfl⟩ := by simpa using h
    have := Item.sizeOf_chosen_lt s.ctx s.seeder item
    simp only [weight, Bool.false_eq_true, if_false, List.cons.sizeOf_spec]
    omega
  | case6 item items frames he hg inner hs ih =>
    rw [advance, he] at h
    simp only [hg, if_true] at h
    rw [if_neg hs] at h
    have := ih h
    have := Item.sizeOf_chosen_lt s.ctx s.seeder item
    simp only [inner, List.cons.sizeOf_spec] at *
    omega
  | case7 item items frames he hg hs =>
    rw [advance, he] at h
    simp only [hg, hs, if_true] at h
    obtain ⟨rfl, rfl⟩ := by simpa using h
    simp only [weight, Bool.false_eq_true, if_false, List.cons.sizeOf_spec]
    omega
  | case8 item items frames he hg hs ih =>
    rw [advance, he] at h
    simp only [hg, hs] at h
    have := ih (by simpa using h)
    simp only [List.cons.sizeOf_spec] at this ⊢
    omega

theorem weight_next_lt (s : Setting) {walk rest : Walk} {result : Except Error Item}
    (h : next s walk = some (result, rest)) : rest.weight < walk.weight := by
  unfold next at h
  split at h
  · simp at h
  · next hw => simpa [weight, hw] using weight_advance_lt s walk.pending h

/-- All that a walk yields; an error is its end. -/
def toList (s : Setting) (walk : Walk) : List (Except Error Item) :=
  match _h : next s walk with
  | none => []
  | some (result, rest) => result :: toList s rest
termination_by walk.weight
decreasing_by exact weight_next_lt s ‹_›

/-- The first items and errors of a walk, at most `count`, and whether nothing comes after them. -/
def take (s : Setting) : Nat → Walk → List (Except Error Item) × Bool
  | 0, _ => ([], false)
  | count + 1, walk =>
    match next s walk with
    | none => ([], true)
    | some (result, rest) =>
      let (results, ended) := take s count rest
      (result :: results, ended)

/-- The items of a whole walk, or the error that ends it. -/
def items (s : Setting) (root : Item) : Except Error (List Item) := (toList s (start root)).mapM id

end Walk

namespace Item

/-- The visible questions in the order of display. -/
def flatten (ctx : Context) (seeder : Seeder) (root : Item) : Except Error (List Item) :=
  Walk.items ⟨ctx, seeder, .questions⟩ root

/-- Pages that are complete, and the page that is being filled. -/
structure PagesSoFar where
  complete : List (List Item)
  current : List Item

/-- Close the current page, unless it is empty. -/
def PagesSoFar.close (pages : PagesSoFar) : PagesSoFar :=
  if pages.current.isEmpty then pages else ⟨pages.complete ++ [pages.current], []⟩

/-- A page break closes a page, and any other item goes onto it. -/
def PagesSoFar.add (pages : PagesSoFar) (item : Item) : PagesSoFar :=
  if item.isPageBreak then pages.close else { pages with current := pages.current ++ [item] }

/-- Items split at the page breaks among them, without empty pages. -/
def split (items : List Item) : List (List Item) :=
  (items.foldl PagesSoFar.add ⟨[], []⟩).close.complete

/-- The visible questions, split at visible page breaks. -/
def pages (ctx : Context) (seeder : Seeder) (root : Item) : Except Error (List (List Item)) := do
  return split (← Walk.items ⟨ctx, seeder, .withPageBreaks⟩ root)

end Item

end Questionnaire
