import Questionnaire.Proofs.Occurrence
import Questionnaire.Walk

/-! The walk as a recursion over the tree, and the walk with a stack as the same. -/
namespace Questionnaire

/-- What a walk passes, and the item whose condition ends it, if one has no boolean value. -/
structure Trail where
  passed : List Occurrence
  failure : Option (Occurrence × Error)

namespace Trail

def empty : Trail := ⟨[], none⟩

def one (o : Occurrence) : Trail := ⟨[o], none⟩

def failed (o : Occurrence) (e : Error) : Trail := ⟨[], some (o, e)⟩

/-- One trail after another; after a failure nothing comes. -/
protected def append (a b : Trail) : Trail :=
  match a.failure with
  | none => ⟨a.passed ++ b.passed, b.failure⟩
  | some _ => a

instance : Append Trail := ⟨Trail.append⟩

theorem append_of_none {a : Trail} (h : a.failure = none) (b : Trail) :
    a ++ b = ⟨a.passed ++ b.passed, b.failure⟩ := by
  change Trail.append a b = _
  rw [Trail.append, h]

theorem append_of_some {a : Trail} {f : Occurrence × Error} (h : a.failure = some f) (b : Trail) :
    a ++ b = a := by
  change Trail.append a b = _
  rw [Trail.append, h]

@[simp] theorem empty_append (t : Trail) : empty ++ t = t := append_of_none rfl t

@[simp] theorem append_empty (t : Trail) : t ++ empty = t := by
  cases h : t.failure with
  | none =>
    rw [append_of_none h]
    obtain ⟨passed, failure⟩ := t
    cases h
    simp [empty]
  | some f => exact append_of_some h _

@[simp] theorem failed_append (o : Occurrence) (e : Error) (t : Trail) :
    failed o e ++ t = failed o e :=
  append_of_some rfl t

theorem append_assoc (a b c : Trail) : a ++ b ++ c = a ++ (b ++ c) := by
  cases ha : a.failure with
  | some f => rw [append_of_some ha, append_of_some ha, append_of_some ha]
  | none =>
    rw [append_of_none ha, append_of_none ha]
    cases hb : b.failure with
    | some f => rw [append_of_some hb, append_of_some (f := f) rfl, hb]
    | none => rw [append_of_none hb, append_of_none rfl, List.append_assoc]

theorem failure_append (a b : Trail) : (a ++ b).failure = a.failure.or b.failure := by
  cases h : a.failure with
  | none => rw [append_of_none h]; rfl
  | some f => rw [append_of_some h, h]; rfl

theorem failure_append_eq_none {a b : Trail} :
    (a ++ b).failure = none ↔ a.failure = none ∧ b.failure = none := by
  rw [failure_append, Option.or_eq_none_iff]

/-- What comes out of a trail one by one: the items, then the error. -/
def outcomes (t : Trail) : List (Except Error Item) :=
  t.passed.map (fun o => .ok o.item) ++ (t.failure.map fun f => .error f.2).toList

theorem outcomes_one_append (o : Occurrence) (t : Trail) :
    (one o ++ t).outcomes = .ok o.item :: t.outcomes := by
  rw [append_of_none rfl]
  rfl

def result (t : Trail) : Except Error (List Item) :=
  match t.failure with
  | none => .ok (t.passed.map Occurrence.item)
  | some f => .error f.2

theorem mapM_outcomes (t : Trail) : t.outcomes.mapM id = t.result := by
  obtain ⟨passed, failure⟩ := t
  induction passed with
  | nil => cases failure <;> rfl
  | cons o passed ih =>
    have hcons : outcomes ⟨o :: passed, failure⟩ = .ok o.item :: outcomes ⟨passed, failure⟩ := rfl
    rw [hcons, List.mapM_cons, ih]
    cases failure <;> rfl

def keep (scope : Walk.Scope) (t : Trail) : Trail :=
  ⟨t.passed.filter fun o => scope.includes o.item, t.failure⟩

theorem keep_append (scope : Walk.Scope) (a b : Trail) :
    (a ++ b).keep scope = a.keep scope ++ b.keep scope := by
  cases h : a.failure with
  | none =>
    rw [append_of_none h, append_of_none (a := a.keep scope) h, keep, List.filter_append]
    rfl
  | some f => rw [append_of_some h, append_of_some (a := a.keep scope) h]

end Trail

namespace Occurrence

/-- What an item itself adds: a question always, a group or a page break if the scope has such. -/
def own (scope : Walk.Scope) (o : Occurrence) : Trail :=
  match o.item with
  | .question _ _ _ => .one o
  | .group _ _ _ => if scope.groups then .one o else .empty
  | .pageBreak _ _ => if scope.pageBreaks then .one o else .empty

theorem own_eq_ite (scope : Walk.Scope) (o : Occurrence) :
    o.own scope = if scope.includes o.item then .one o else .empty := by
  obtain ⟨position, item⟩ := o
  cases item <;> rfl

theorem own_eq (scope : Walk.Scope) (o : Occurrence) :
    o.own scope = ⟨if scope.includes o.item then [o] else [], none⟩ := by
  rw [own_eq_ite]
  split <;> rfl

mutual

/-- The walk of an item and of what stands beneath it. A condition without a boolean value ends it,
a hidden item has no part in it, and after a visible one come the children that it presents. -/
def trail (s : Walk.Setting) (o : Occurrence) : Trail :=
  match o.item.isVisible s.ctx with
  | .error e => .failed o e
  | .ok false => .empty
  | .ok true => o.own s.scope ++ trails s (o.chosen s.ctx s.seeder)
termination_by sizeOf o.item
decreasing_by
  rw [chosen_map_item]
  exact Item.sizeOf_chosen_lt _ _ _

def trails (s : Walk.Setting) : List Occurrence → Trail
  | [] => .empty
  | o :: rest => trail s o ++ trails s rest
termination_by os => sizeOf (os.map item)
decreasing_by
  all_goals simp only [List.map_cons, List.cons.sizeOf_spec]; omega

end

variable (s : Walk.Setting)

@[simp] theorem trails_nil : trails s [] = .empty := by rw [trails]

@[simp] theorem trails_cons (o : Occurrence) (rest : List Occurrence) :
    trails s (o :: rest) = trail s o ++ trails s rest := by rw [trails]

theorem trails_append (xs ys : List Occurrence) :
    trails s (xs ++ ys) = trails s xs ++ trails s ys := by
  induction xs with
  | nil => simp
  | cons x xs ih => rw [List.cons_append, trails_cons, ih, trails_cons, Trail.append_assoc]

/-- All that a condition can do to the walk of an item. -/
theorem trail_cases (o : Occurrence) :
    (∃ e, o.item.isVisible s.ctx = .error e ∧ trail s o = .failed o e) ∨
    (o.item.isVisible s.ctx = .ok false ∧ trail s o = .empty) ∨
    (o.item.isVisible s.ctx = .ok true ∧
      trail s o = o.own s.scope ++ trails s (o.chosen s.ctx s.seeder)) := by
  rw [trail]
  cases o.item.isVisible s.ctx with
  | error e => exact .inl ⟨e, rfl, rfl⟩
  | ok visible =>
    cases visible with
    | false => exact .inr (.inl ⟨rfl, rfl⟩)
    | true => exact .inr (.inr ⟨rfl, rfl⟩)

theorem trail_of_error {o : Occurrence} {e : Error} (h : o.item.isVisible s.ctx = .error e) :
    trail s o = .failed o e := by rw [trail, h]

theorem trail_of_hidden {o : Occurrence} (h : o.item.isVisible s.ctx = .ok false) :
    trail s o = .empty := by rw [trail, h]

theorem trail_of_visible {o : Occurrence} (h : o.item.isVisible s.ctx = .ok true) :
    trail s o = o.own s.scope ++ trails s (o.chosen s.ctx s.seeder) := by rw [trail, h]

/-- Induction along the walk: what holds of the children that an item presents and of the items
after it holds of it with the items after it. -/
theorem forest_induction (ctx : Context) (seeder : Seeder) {motive : List Occurrence → Prop}
    (nil : motive [])
    (cons : ∀ o rest, motive (o.chosen ctx seeder) → motive rest → motive (o :: rest))
    (os : List Occurrence) : motive os := by
  induction hn : sizeOf (os.map item) using Nat.strongRecOn generalizing os with
  | ind n ih =>
    cases os with
    | nil => exact nil
    | cons o rest =>
      subst hn
      have hc := Item.sizeOf_chosen_lt ctx seeder o.item
      rw [← chosen_map_item] at hc
      simp only [List.map_cons, List.cons.sizeOf_spec] at ih
      exact cons o rest (ih _ (by omega) _ rfl) (ih _ (by omega) _ rfl)

theorem chosen_eq_nil {ctx : Context} {seeder : Seeder} {o : Occurrence} (h : ¬ o.item.isGroup) :
    o.chosen ctx seeder = [] := by
  obtain ⟨position, item⟩ := o
  cases item with
  | group => exact absurd rfl h
  | question => rfl
  | pageBreak => rfl

/-- Nothing comes after a question or a page break that is visible. -/
theorem trail_of_not_isGroup {o : Occurrence} (hv : o.item.isVisible s.ctx = .ok true)
    (hg : ¬ o.item.isGroup) : trail s o = o.own s.scope := by
  rw [trail_of_visible s hv, chosen_eq_nil hg, trails_nil, Trail.append_empty]

end Occurrence

def Walk.Scope.all : Walk.Scope := ⟨true, true⟩

theorem Walk.Scope.includes_all (item : Item) : Walk.Scope.all.includes item = true := by
  cases item <;> rfl

/-- A walk passes in a scope what it would pass without one and the scope has. -/
theorem Occurrence.trails_scope (ctx : Context) (seeder : Seeder) (scope : Walk.Scope)
    (os : List Occurrence) :
    trails ⟨ctx, seeder, scope⟩ os = (trails ⟨ctx, seeder, .all⟩ os).keep scope := by
  induction os using forest_induction ctx seeder with
  | nil => simp [Trail.keep, Trail.empty]
  | cons o rest inner ih =>
    rw [trails_cons, trails_cons, Trail.keep_append, ih]
    congr 1
    rcases trail_cases ⟨ctx, seeder, .all⟩ o with ⟨e, hv, ht⟩ | ⟨hv, ht⟩ | ⟨hv, ht⟩
    · rw [ht, trail_of_error ⟨ctx, seeder, scope⟩ hv]
      rfl
    · rw [ht, trail_of_hidden ⟨ctx, seeder, scope⟩ hv]
      rfl
    · rw [ht, trail_of_visible ⟨ctx, seeder, scope⟩ hv, Trail.keep_append, inner]
      congr 1
      rw [own_eq, own_eq, if_pos (Walk.Scope.includes_all o.item)]
      simp [Trail.keep, List.filter_cons]

namespace Walk
open Occurrence

/-- The frames of a stack, without the places of their items. -/
def frames (stack : List (List Occurrence)) : List (List Item) := stack.map (·.map item)

theorem frames_eq_nil {stack : List (List Occurrence)} (h : frames stack = []) : stack = [] :=
  List.map_eq_nil_iff.mp h

theorem frames_eq_cons_nil {stack : List (List Occurrence)} {rest : List (List Item)}
    (h : frames stack = [] :: rest) : ∃ below, stack = [] :: below ∧ frames below = rest := by
  obtain ⟨top, below, rfl, htop, hbelow⟩ := List.map_eq_cons_iff.mp h
  exact ⟨below, by rw [List.map_eq_nil_iff.mp htop], hbelow⟩

theorem frames_eq_cons_cons {stack : List (List Occurrence)} {x : Item} {xs : List Item}
    {rest : List (List Item)} (h : frames stack = (x :: xs) :: rest) :
    ∃ o os below, stack = (o :: os) :: below ∧ o.item = x ∧ os.map item = xs ∧
      frames below = rest := by
  obtain ⟨top, below, rfl, htop, hbelow⟩ := List.map_eq_cons_iff.mp h
  obtain ⟨o, os, rfl, ho, hos⟩ := List.map_eq_cons_iff.mp htop
  exact ⟨o, os, below, rfl, ho, hos, hbelow⟩

/-- What a call answers when a trail is still to come: nothing after the end of the trail, else the
first that comes, and a walk of which the rest is to come. -/
def Answers (s : Setting) (t : Trail) : Option (Except Error Item × Walk) → Prop
  | none => t = .empty
  | some (.error e, walk) => walk = finished ∧ ∃ o, t = .failed o e
  | some (.ok item, walk) => ∃ o stack, o.item = item ∧ walk = ⟨frames stack, false⟩ ∧
      t = .one o ++ trails s stack.flatten

theorem trails_of_visible (s : Setting) {o : Occurrence} (os : List Occurrence)
    (below : List (List Occurrence)) (h : o.item.isVisible s.ctx = .ok true) :
    trails s ((o :: os) :: below).flatten =
      o.own s.scope ++ trails s (o.chosen s.ctx s.seeder :: os :: below).flatten := by
  simp only [List.flatten_cons, List.cons_append, trails_cons, trails_append, trail_of_visible s h,
    Trail.append_assoc]

/-- A call answers for the items that are on its stack, from the innermost frame outward. -/
theorem answers_advance (s : Setting) (stack : List (List Occurrence)) :
    Answers s (trails s stack.flatten) (advance s (frames stack)) := by
  induction hf : frames stack using advance.induct s generalizing stack with
  | case1 =>
    rw [advance, frames_eq_nil hf]
    exact trails_nil s
  | case2 rest ih =>
    obtain ⟨below, rfl, hbelow⟩ := frames_eq_cons_nil hf
    rw [advance]
    exact ih below hbelow
  | case3 x xs rest e he =>
    obtain ⟨o, os, below, rfl, rfl, rfl, rfl⟩ := frames_eq_cons_cons hf
    rw [advance, he]
    refine ⟨rfl, o, ?_⟩
    rw [List.flatten_cons, List.cons_append, trails_cons, trail_of_error s he, Trail.failed_append]
  | case4 x xs rest he ih =>
    obtain ⟨o, os, below, rfl, rfl, rfl, rfl⟩ := frames_eq_cons_cons hf
    rw [advance, he, List.flatten_cons, List.cons_append, trails_cons, trail_of_hidden s he,
      Trail.empty_append]
    exact ih (os :: below) rfl
  | case5 x xs rest he hg hs =>
    obtain ⟨o, os, below, rfl, rfl, rfl, rfl⟩ := frames_eq_cons_cons hf
    rw [advance, he, trails_of_visible s os below he]
    simp only [hg, hs, if_true, own_eq_ite]
    refine ⟨o, o.chosen s.ctx s.seeder :: os :: below, rfl, ?_, rfl⟩
    simp [frames]
  | case6 x xs rest he hg inner hs ih =>
    obtain ⟨o, os, below, rfl, rfl, rfl, rfl⟩ := frames_eq_cons_cons hf
    rw [advance, he, trails_of_visible s os below he]
    simp only [hg, hs, if_true, own_eq_ite]
    exact ih (o.chosen s.ctx s.seeder :: os :: below) (by simp [frames, inner])
  | case7 x xs rest he hg hs =>
    obtain ⟨o, os, below, rfl, rfl, rfl, rfl⟩ := frames_eq_cons_cons hf
    rw [advance, he, trails_of_visible s os below he, chosen_eq_nil hg]
    simp only [hg, hs, if_true, own_eq_ite]
    exact ⟨o, os :: below, rfl, rfl, rfl⟩
  | case8 x xs rest he hg hs ih =>
    obtain ⟨o, os, below, rfl, rfl, rfl, rfl⟩ := frames_eq_cons_cons hf
    rw [advance, he, trails_of_visible s os below he, chosen_eq_nil hg]
    simp only [hg, hs, own_eq_ite]
    exact ih (os :: below) rfl

theorem next_frames (s : Setting) (stack : List (List Occurrence)) :
    next s ⟨frames stack, false⟩ = advance s (frames stack) := by
  simp [next]

@[simp] theorem next_finished (s : Setting) : next s finished = none := by
  simp [next, finished]

theorem toList_of_next_none {s : Setting} {walk : Walk} (h : next s walk = none) :
    toList s walk = [] := by
  rw [toList]
  split
  · rfl
  · simp_all

theorem toList_of_next_some {s : Setting} {walk rest : Walk} {result : Except Error Item}
    (h : next s walk = some (result, rest)) : toList s walk = result :: toList s rest := by
  rw [toList]
  split <;> simp_all

/-- What a walk yields call by call is the trail of what is on its stack. -/
theorem toList_frames (s : Setting) (stack : List (List Occurrence)) :
    toList s ⟨frames stack, false⟩ = (trails s stack.flatten).outcomes := by
  induction hw : (⟨frames stack, false⟩ : Walk) using toList.induct s generalizing stack with
  | case1 walk hn =>
    subst hw
    have ha := answers_advance s stack
    rw [toList_of_next_none hn]
    rw [← next_frames, hn] at ha
    rw [show trails s stack.flatten = .empty from ha]
    rfl
  | case2 walk result rest hn ih =>
    subst hw
    have ha := answers_advance s stack
    rw [toList_of_next_some hn]
    rw [← next_frames, hn] at ha
    cases result with
    | error e =>
      obtain ⟨rfl, o, ho⟩ := ha
      rw [ho, toList_of_next_none (next_finished s)]
      rfl
    | ok x =>
      obtain ⟨o, stack', rfl, rfl, ho⟩ := ha
      rw [ho, Trail.outcomes_one_append, ih stack' rfl]

end Walk

def Item.trail (s : Walk.Setting) (root : Item) : Trail := Occurrence.trail s ⟨0, root⟩

theorem Walk.toList_start (s : Setting) (root : Item) :
    toList s (start root) = (root.trail s).outcomes := by
  have h := toList_frames s [[⟨0, root⟩]]
  simpa [frames, start, Item.trail] using h

theorem Walk.items_eq (s : Setting) (root : Item) : items s root = (root.trail s).result := by
  rw [items, toList_start, Trail.mapM_outcomes]

end Questionnaire
