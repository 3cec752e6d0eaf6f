import Questionnaire.Proofs.Shown

/-! What a walk yields, and what it does not look at. -/
namespace Questionnaire
open Occurrence

/-- How a condition counts: its value if that is a boolean, else an error that names the item. -/
theorem Item.isVisible_eq (ctx : Context) (item : Item) :
    item.isVisible ctx =
      match item.condition.map (·.evaluate ctx) with
      | none => .ok true
      | some (.ok (.bool visible)) => .ok visible
      | some (.ok v) => .error (.condition item.key (.typeError "condition" (.notBool v.kind)))
      | some (.error e) => .error (.condition item.key e) := by
  unfold isVisible
  cases item.condition with
  | none => rfl
  | some condition =>
    simp only [Option.map_some, Expression.evaluateBool]
    cases condition.evaluate ctx with
    | error e => rfl
    | ok v => cases v <;> rfl

theorem Item.isVisible_congr (ctx : Context) {a b : Item} (hk : a.key = b.key)
    (hc : a.condition = b.condition) : a.isVisible ctx = b.isVisible ctx := by
  rw [isVisible_eq, isVisible_eq, hk, hc]

/-- Trees of which a walk sees the same. Beneath an item that is not visible anything may stand, and
of the children of a visible one only those count that it presents. -/
inductive AlikeWhereWalked (ctx : Context) (seeder : Seeder) : Item → Item → Prop
  | same (item : Item) : AlikeWhereWalked ctx seeder item item
  | hidden {a b : Item} (hk : a.key = b.key) (hc : a.condition = b.condition)
      (hv : a.isVisible ctx ≠ .ok true) : AlikeWhereWalked ctx seeder a b
  | presented {header : Header} {selection : Selection} {xs ys : List Item}
      (h : List.Forall₂ (AlikeWhereWalked ctx seeder)
        ((Item.group header selection xs).chosen ctx seeder)
        ((Item.group header selection ys).chosen ctx seeder)) :
      AlikeWhereWalked ctx seeder (.group header selection xs) (.group header selection ys)

namespace AlikeWhereWalked
variable {ctx : Context} {seeder : Seeder} {a b : Item}

theorem key_eq (h : AlikeWhereWalked ctx seeder a b) : a.key = b.key := by
  cases h with
  | same => rfl
  | hidden hk _ _ => exact hk
  | presented => rfl

theorem isVisible_eq (h : AlikeWhereWalked ctx seeder a b) :
    a.isVisible ctx = b.isVisible ctx := by
  cases h with
  | same => rfl
  | hidden hk hc _ => exact Item.isVisible_congr ctx hk hc
  | presented => exact Item.isVisible_congr ctx rfl rfl

theorem includes_eq (h : AlikeWhereWalked ctx seeder a b) (hv : a.isVisible ctx = .ok true)
    (scope : Walk.Scope) : scope.includes a = scope.includes b := by
  cases h with
  | same => rfl
  | hidden _ _ hn => exact absurd hv hn
  | presented => rfl

theorem chosen (h : AlikeWhereWalked ctx seeder a b) (hv : a.isVisible ctx = .ok true) :
    List.Forall₂ (AlikeWhereWalked ctx seeder) (a.chosen ctx seeder) (b.chosen ctx seeder) := by
  cases h with
  | same => exact List.forall₂_same.mpr fun c _ => .same c
  | hidden _ _ hn => exact absurd hv hn
  | presented h => exact h

end AlikeWhereWalked

namespace Trail

/-- Trails with the same keys and the same error. -/
def Alike (a b : Trail) : Prop :=
  a.passed.map (·.item.key) = b.passed.map (·.item.key) ∧
    a.failure.map Prod.snd = b.failure.map Prod.snd

theorem Alike.append {a a' b b' : Trail} (ha : Alike a a') (hb : Alike b b') :
    Alike (a ++ b) (a' ++ b') := by
  cases h : a.failure with
  | none =>
    have h' : a'.failure = none := by simpa [h] using ha.2.symm
    rw [append_of_none h, append_of_none h']
    refine ⟨?_, hb.2⟩
    rw [List.map_append, List.map_append, ha.1, hb.1]
  | some f =>
    obtain ⟨f', h', -⟩ := Option.map_eq_some_iff.mp (ha.2.symm.trans (by rw [h]; rfl))
    rw [append_of_some h, append_of_some h']
    exact ha

theorem Alike.outcomes {a b : Trail} (h : Alike a b) :
    a.outcomes.map (Except.map Item.key) = b.outcomes.map (Except.map Item.key) := by
  have hkeys : ∀ t : Trail, t.outcomes.map (Except.map Item.key) =
      (t.passed.map (·.item.key)).map .ok ++ ((t.failure.map Prod.snd).map .error).toList := by
    intro t
    cases hf : t.failure <;>
      simp [Trail.outcomes, hf, Except.map, Function.comp_def]
  rw [hkeys a, hkeys b, h.1, h.2]

end Trail

/-- Walks of trees that are alike where they are walked. -/
theorem Occurrence.trails_alike (s : Walk.Setting) (os : List Occurrence) {os' : List Occurrence}
    (h : List.Forall₂ (AlikeWhereWalked s.ctx s.seeder) (os.map item) (os'.map item)) :
    Trail.Alike (trails s os) (trails s os') := by
  induction os using forest_induction s.ctx s.seeder generalizing os' with
  | nil =>
    obtain rfl : os' = [] := by simpa using h
    exact ⟨rfl, rfl⟩
  | cons o rest inner ih =>
    obtain ⟨x, xs, hx, hxs, hmap⟩ := List.forall₂_cons_left_iff.mp h
    obtain ⟨o', rest', rfl, rfl, rfl⟩ := List.map_eq_cons_iff.mp hmap
    rw [trails_cons, trails_cons]
    refine .append ?_ (ih hxs)
    rcases trail_cases s o with ⟨e, hv, ht⟩ | ⟨hv, ht⟩ | ⟨hv, ht⟩
    · rw [ht, trail_of_error s (hx.isVisible_eq.symm.trans hv)]
      exact ⟨rfl, rfl⟩
    · rw [ht, trail_of_hidden s (hx.isVisible_eq.symm.trans hv)]
      exact ⟨rfl, rfl⟩
    · rw [ht, trail_of_visible s (hx.isVisible_eq.symm.trans hv)]
      refine .append ?_ (inner ?_)
      · rw [own_eq, own_eq, hx.includes_eq hv]
        refine ⟨?_, rfl⟩
        split
        · simp [hx.key_eq]
        · rfl
      · rw [chosen_map_item, chosen_map_item]
        exact hx.chosen hv

namespace Walk

theorem exists_frames_eq (pending : List (List Item)) : ∃ stack, frames stack = pending :=
  ⟨pending.map (place 0), by simp [frames, Function.comp_def]⟩

theorem next_after_error {s : Setting} {walk rest : Walk} {e : Error}
    (h : next s walk = some (.error e, rest)) : rest = finished := by
  unfold next at h
  split at h
  · simp at h
  · obtain ⟨stack, hstack⟩ := exists_frames_eq walk.pending
    have ha := answers_advance s stack
    rw [hstack, h] at ha
    exact ha.1

theorem failure_eq_none_iff (s : Setting) (root : Item) :
    (root.trail s).failure = none ↔ ∀ e, Except.error e ∉ toList s (start root) := by
  rw [toList_start, Trail.outcomes]
  cases h : (root.trail s).failure with
  | none => simp
  | some f => simp

/-- What is yielded call by call is the walk in the order of definition. After an error nothing
comes; without one each question of the tree comes once if it is shown, and else not at all. What
stands beneath an item that is not visible has no part in it, nor have children that are not
presented: their conditions may be any. -/
theorem yields_trail (s : Setting) (root : Item) :
    toList s (start root) = (root.trail s).outcomes ∧
    (∀ item : Item, item.isVisible s.ctx =
      match item.condition.map (·.evaluate s.ctx) with
      | none => .ok true
      | some (.ok (.bool visible)) => .ok visible
      | some (.ok v) => .error (.condition item.key (.typeError "condition" (.notBool v.kind)))
      | some (.error e) => .error (.condition item.key e)) ∧
    (∀ walk rest e, next s walk = some (.error e, rest) → ∀ s', next s' rest = none) ∧
    ((∀ e, Except.error e ∉ toList s (start root)) →
      ∀ o ∈ root.occurrences, o.item.isQuestion →
        (Shown s.ctx s.seeder ⟨0, root⟩ o →
          ((root.trail s).passed.map position).count o.position = 1) ∧
        (¬ Shown s.ctx s.seeder ⟨0, root⟩ o →
          ((root.trail s).passed.map position).count o.position = 0)) ∧
    ∀ other, AlikeWhereWalked s.ctx s.seeder root other →
      (toList s (start root)).map (Except.map Item.key) =
        (toList s (start other)).map (Except.map Item.key) := by
  refine ⟨toList_start s root, Item.isVisible_eq s.ctx, ?_, ?_, ?_⟩
  · intro walk rest e h s'
    rw [next_after_error h, next_finished]
  · intro hn o ho hq
    refine Item.count_position ((failure_eq_none_iff s root).mpr hn) ho ?_
    obtain ⟨position, item⟩ := o
    cases item with
    | group => simp [Item.isQuestion] at hq
    | question => rfl
    | pageBreak => simp [Item.isQuestion] at hq
  · intro other h
    rw [toList_start, toList_start, Item.trail_eq, Item.trail_eq]
    have hpair : List.Forall₂ (AlikeWhereWalked s.ctx s.seeder)
        ([⟨0, root⟩].map item) ([⟨0, other⟩].map item) := .cons h .nil
    exact (trails_alike s _ hpair).outcomes

/-- A group with a question, a page break and a hidden question. -/
def parted : Item :=
  .group ⟨"g", 0, none, []⟩ .sequential
    [.question ⟨"g.a", 0, none, []⟩ .text [], .pageBreak "g.p" none,
      .question ⟨"g.b", 0, some (.literal (.bool false)), []⟩ .text []]

theorem trail_parted (scope : Scope) :
    parted.trail ⟨.empty 0, .digest, scope⟩ =
      (⟨0, parted⟩ : Occurrence).own scope ++
        (.one ⟨1, parted.children[0]⟩ ++ (⟨2, parted.children[1]⟩ : Occurrence).own scope) := by
  have hchosen : (⟨0, parted⟩ : Occurrence).chosen (.empty 0) .digest =
      [⟨1, parted.children[0]⟩, ⟨2, parted.children[1]⟩, ⟨3, parted.children[2]⟩] := rfl
  have hquestion : trail ⟨.empty 0, .digest, scope⟩ ⟨1, parted.children[0]⟩ =
      .one ⟨1, parted.children[0]⟩ := trail_of_not_isGroup _ rfl (by decide)
  have hbreak : trail ⟨.empty 0, .digest, scope⟩ ⟨2, parted.children[1]⟩ =
      (⟨2, parted.children[1]⟩ : Occurrence).own scope := trail_of_not_isGroup _ rfl (by decide)
  have hhidden : trail ⟨.empty 0, .digest, scope⟩ ⟨3, parted.children[2]⟩ = .empty :=
    trail_of_hidden _ rfl
  rw [Item.trail, trail_of_visible _ rfl, hchosen]
  simp only [trails_cons, trails_nil, hquestion, hbreak, hhidden, Trail.append_empty]

/-- The question is yielded in any scope, the group and the page break if they are in scope, and the
hidden question never. -/
theorem parted_yielded :
    ∀ scope : Scope,
      (toList ⟨.empty 0, .digest, scope⟩ (start parted)).map (Except.map Item.key) =
        (if scope.groups then [.ok "g"] else []) ++
          .ok "g.a" :: (if scope.pageBreaks then [.ok "g.p"] else []) ∧
      ((parted.trail ⟨.empty 0, .digest, scope⟩).passed.map position).count 1 = 1 ∧
      ((parted.trail ⟨.empty 0, .digest, scope⟩).passed.map position).count 3 = 0 := by
  intro scope
  obtain ⟨hyields, -, -, hquestions, -⟩ := yields_trail ⟨.empty 0, .digest, scope⟩ parted
  have hpassed : (parted.trail ⟨.empty 0, .digest, scope⟩).passed.map position =
      (if scope.groups then [0] else []) ++ 1 :: (if scope.pageBreaks then [2] else []) ∧
      (parted.trail ⟨.empty 0, .digest, scope⟩).failure = none := by
    rw [trail_parted]
    obtain ⟨pageBreaks, groups⟩ := scope
    cases pageBreaks <;> cases groups <;> exact ⟨rfl, rfl⟩
  have hfine := (failure_eq_none_iff _ parted).mp hpassed.2
  have hin : ∀ o ∈ (⟨0, parted⟩ : Occurrence).children, o ∈ parted.occurrences :=
    fun o ho => ((in_root parted).child ho).mem_occurrences
  have hasked := hquestions hfine ⟨1, parted.children[0]⟩ (hin _ (.head _)) rfl
  have hhidden := hquestions hfine ⟨3, parted.children[2]⟩
    (hin _ (.tail _ (.tail _ (.head _)))) rfl
  refine ⟨?_, hasked.1 (.beneath rfl List.mem_cons_self (.here rfl)), hhidden.2 fun hshown => ?_⟩
  · rw [hyields, trail_parted]
    obtain ⟨pageBreaks, groups⟩ := scope
    cases pageBreaks <;> cases groups <;> rfl
  · have hmem := List.mem_map_of_mem (f := position)
      ((Item.mem_passed_iff hpassed.2).mpr ⟨rfl, hshown⟩)
    rw [hpassed.1] at hmem
    obtain ⟨pageBreaks, groups⟩ := scope
    cases pageBreaks <;> cases groups <;> simp at hmem

end Walk

end Questionnaire
