import Mathlib.Data.List.Forall2
import Mathlib.Data.List.Nodup
import Questionnaire.Proofs.Trail

/-!
The occurrences that are shown: those to which visible items lead, each among the children that its
parent presents. A walk that does not fail passes just these, each once.
-/
namespace Questionnaire
open Occurrence

def Item.isQuestion : Item → Bool
  | .question _ _ _ => true
  | _ => false

/-- From an occurrence down to another every item is visible, and every item but the first is among
the children that its parent presents. -/
inductive Shown (ctx : Context) (seeder : Seeder) : Occurrence → Occurrence → Prop
  | here {o : Occurrence} (hv : o.item.isVisible ctx = .ok true) : Shown ctx seeder o o
  | beneath {o c x : Occurrence} (hv : o.item.isVisible ctx = .ok true)
      (hc : c ∈ o.chosen ctx seeder) (hx : Shown ctx seeder c x) : Shown ctx seeder o x

theorem Shown.in_root {ctx : Context} {seeder : Seeder} {root : Item} {o x : Occurrence}
    (hx : Shown ctx seeder o x) (ho : o.In root) : x.In root := by
  induction hx with
  | here => exact ho
  | beneath _ hc _ ih => exact ih (ho.child (mem_children_of_mem_chosen hc))

namespace Trail

/-- The occurrences that a trail names, the one that it fails at last. -/
def places (t : Trail) : List Occurrence := t.passed ++ (t.failure.map Prod.fst).toList

theorem places_append_of_none {a : Trail} (h : a.failure = none) (b : Trail) :
    (a ++ b).places = a.places ++ b.places := by
  rw [append_of_none h]
  simp [places, h]

theorem mem_places_append {a b : Trail} {x : Occurrence} (hx : x ∈ (a ++ b).places) :
    x ∈ a.places ∨ x ∈ b.places := by
  cases h : a.failure with
  | none => rwa [places_append_of_none h, List.mem_append] at hx
  | some f => rw [append_of_some h] at hx; exact Or.inl hx

theorem mem_places_of_mem_passed {t : Trail} {x : Occurrence} (hx : x ∈ t.passed) : x ∈ t.places :=
  List.mem_append_left _ hx

end Trail

section
variable (s : Walk.Setting)

theorem places_own (scope : Walk.Scope) (o : Occurrence) :
    (o.own scope).places = if scope.includes o.item then [o] else [] := by
  rw [own_eq]
  exact List.append_nil _

theorem failure_own (scope : Walk.Scope) (o : Occurrence) : (o.own scope).failure = none := by
  rw [own_eq]

/-- What a walk names stands within the items that it starts from. -/
theorem places_within (os : List Occurrence) {x : Occurrence} (hx : x ∈ (trails s os).places) :
    ∃ o ∈ os, o.position ≤ x.position ∧ x.position < o.stop := by
  induction os using forest_induction s.ctx s.seeder with
  | nil => simp [Trail.places, Trail.empty] at hx
  | cons o rest inner ih =>
    rw [trails_cons] at hx
    have hself : o.position < o.stop := by
      rw [stop, Item.size_eq]
      omega
    rcases Trail.mem_places_append hx with hx | hx
    · refine ⟨o, List.mem_cons_self, ?_⟩
      rcases trail_cases s o with ⟨e, hv, ht⟩ | ⟨hv, ht⟩ | ⟨hv, ht⟩
      · rw [ht] at hx
        obtain rfl : x = o := by simpa [Trail.places, Trail.failed] using hx
        exact ⟨Nat.le_refl _, hself⟩
      · rw [ht] at hx
        simp [Trail.places, Trail.empty] at hx
      · rw [ht, Trail.places_append_of_none (failure_own s.scope o), places_own,
          List.mem_append] at hx
        rcases hx with hx | hx
        · split at hx
          · obtain rfl : x = o := by simpa using hx
            exact ⟨Nat.le_refl _, hself⟩
          · simp at hx
        · obtain ⟨c, hc, hlo, hhi⟩ := inner hx
          have hchild := mem_children_of_mem_chosen hc
          have := position_lt_of_mem_children hchild
          have := stop_le_of_mem_children hchild
          omega
    · obtain ⟨c, hc, h⟩ := ih hx
      exact ⟨c, List.mem_cons_of_mem o hc, h⟩

/-- What is named beneath an item comes before what is named of the items after it. -/
theorem position_lt_of_apart {o : Occurrence} {rest : List Occurrence} (h : Apart (o :: rest))
    {x y : Occurrence} (hx : x ∈ (trail s o).places) (hy : y ∈ (trails s rest).places) :
    x.position < y.position := by
  obtain ⟨c, hc, -, hhi⟩ := places_within s [o] (x := x) (by simpa using hx)
  obtain ⟨d, hd, hlo, -⟩ := places_within s rest hy
  obtain rfl : c = o := by simpa using hc
  have := (List.pairwise_cons.mp h).1 d hd
  omega

/-- A walk goes forward in the order of definition. -/
theorem places_pairwise {os : List Occurrence} (h : Apart os) :
    (trails s os).places.Pairwise fun a b => a.position < b.position := by
  induction os using forest_induction s.ctx s.seeder with
  | nil => simp [Trail.places, Trail.empty]
  | cons o rest inner ih =>
    have hrest : Apart rest := (List.pairwise_cons.mp h).2
    have hown : (trail s o).places.Pairwise fun a b => a.position < b.position := by
      rcases trail_cases s o with ⟨e, hv, ht⟩ | ⟨hv, ht⟩ | ⟨hv, ht⟩
      · rw [ht]
        simp [Trail.places, Trail.failed]
      · rw [ht]
        simp [Trail.places, Trail.empty]
      · rw [ht, Trail.places_append_of_none (failure_own s.scope o), places_own,
          List.pairwise_append]
        refine ⟨by split <;> simp, inner (apart_chosen _ _ o), ?_⟩
        intro a ha b hb
        obtain ⟨c, hc, hlo, -⟩ := places_within s _ hb
        have := position_lt_of_mem_children (mem_children_of_mem_chosen hc)
        split at ha
        · obtain rfl : a = o := by simpa using ha
          omega
        · simp at ha
    rw [trails_cons]
    cases hf : (trail s o).failure with
    | some f => rw [Trail.append_of_some hf]; exact hown
    | none =>
      rw [Trail.places_append_of_none hf, List.pairwise_append]
      exact ⟨hown, ih hrest, fun a ha b hb => position_lt_of_apart s h ha hb⟩

/-- What a walk passes is shown and in scope. -/
theorem shown_of_mem_passed (os : List Occurrence) {x : Occurrence}
    (hx : x ∈ (trails s os).passed) :
    s.scope.includes x.item ∧ ∃ o ∈ os, Shown s.ctx s.seeder o x := by
  induction os using forest_induction s.ctx s.seeder with
  | nil => simp [Trail.empty] at hx
  | cons o rest inner ih =>
    rw [trails_cons] at hx
    have hsplit : x ∈ (trail s o).passed ∨ x ∈ (trails s rest).passed := by
      cases hf : (trail s o).failure with
      | none => rwa [Trail.append_of_none hf, List.mem_append] at hx
      | some f => rw [Trail.append_of_some hf] at hx; exact Or.inl hx
    rcases hsplit with hx | hx
    · rcases trail_cases s o with ⟨e, hv, ht⟩ | ⟨hv, ht⟩ | ⟨hv, ht⟩
      · simp [ht, Trail.failed] at hx
      · simp [ht, Trail.empty] at hx
      · rw [ht, Trail.append_of_none (failure_own s.scope o), own_eq, List.mem_append] at hx
        rcases hx with hx | hx
        · split at hx
          · next hin =>
            obtain rfl : x = o := by simpa using hx
            exact ⟨hin, x, List.mem_cons_self, .here hv⟩
          · simp at hx
        · obtain ⟨hin, c, hc, hshown⟩ := inner hx
          exact ⟨hin, o, List.mem_cons_self, .beneath hv hc hshown⟩
    · obtain ⟨hin, c, hc, hshown⟩ := ih hx
      exact ⟨hin, c, List.mem_cons_of_mem o hc, hshown⟩

/-- A walk that does not fail walks each of its items without failing. -/
theorem failure_eq_none_of_mem {os : List Occurrence} (hf : (trails s os).failure = none)
    {o : Occurrence} (ho : o ∈ os) :
    (trail s o).failure = none ∧ (trail s o).passed ⊆ (trails s os).passed := by
  induction os with
  | nil => simp at ho
  | cons first rest ih =>
    rw [trails_cons, Trail.failure_append_eq_none] at hf
    rw [trails_cons, Trail.append_of_none hf.1]
    rcases List.mem_cons.mp ho with rfl | ho
    · exact ⟨hf.1, List.subset_append_left _ _⟩
    · obtain ⟨hn, hsub⟩ := ih hf.2 ho
      exact ⟨hn, List.subset_append_of_subset_right _ hsub⟩

theorem mem_passed_of_shown {o x : Occurrence} (hx : Shown s.ctx s.seeder o x)
    (hin : s.scope.includes x.item) {os : List Occurrence} (ho : o ∈ os)
    (hf : (trails s os).failure = none) : x ∈ (trails s os).passed := by
  induction hx generalizing os with
  | @here o hv =>
    obtain ⟨-, hsub⟩ := failure_eq_none_of_mem s hf ho
    apply hsub
    rw [trail_of_visible s hv, Trail.append_of_none (failure_own s.scope o), own_eq, if_pos hin]
    exact List.mem_cons_self
  | @beneath o c x hv hc hx ih =>
    obtain ⟨hn, hsub⟩ := failure_eq_none_of_mem s hf ho
    apply hsub
    rw [trail_of_visible s hv] at hn ⊢
    rw [Trail.append_of_none (failure_own s.scope o)]
    exact List.mem_append_right _ (ih hin hc (Trail.failure_append_eq_none.mp hn).2)

/-- A walk fails at an item of the tree, with the error of its condition. -/
theorem isVisible_of_trails_failure {root : Item} {os : List Occurrence}
    (hin : ∀ o ∈ os, In root o) {f : Occurrence × Error} (hf : (trails s os).failure = some f) :
    In root f.1 ∧ f.1.item.isVisible s.ctx = .error f.2 := by
  induction os using forest_induction s.ctx s.seeder with
  | nil => simp [Trail.empty] at hf
  | cons o rest inner ih =>
    have ho : In root o := hin o List.mem_cons_self
    rw [trails_cons, Trail.failure_append, Option.or_eq_some_iff] at hf
    rcases hf with hf | ⟨-, hf⟩
    · rcases trail_cases s o with ⟨e, hv, ht⟩ | ⟨-, ht⟩ | ⟨hv, ht⟩
      · rw [ht] at hf
        obtain rfl := Option.some.inj hf
        exact ⟨ho, hv⟩
      · rw [ht] at hf
        cases hf
      · rw [ht, Trail.failure_append, failure_own, Option.none_or] at hf
        exact inner (fun c hc => ho.child (mem_children_of_mem_chosen hc)) hf
    · exact ih (fun c hc => hin c (List.mem_cons_of_mem o hc)) hf

end

namespace Item

theorem trail_eq (s : Walk.Setting) (root : Item) : root.trail s = trails s [⟨0, root⟩] := by
  rw [trails_cons, trails_nil, Trail.append_empty]
  rfl

theorem in_of_mem_passed {s : Walk.Setting} {root : Item} {o : Occurrence}
    (ho : o ∈ (root.trail s).passed) : o.In root := by
  rw [trail_eq] at ho
  obtain ⟨-, c, hc, hshown⟩ := shown_of_mem_passed s _ ho
  obtain rfl : c = ⟨0, root⟩ := by simpa using hc
  exact hshown.in_root (in_root root)

theorem isVisible_of_failure {s : Walk.Setting} {root : Item} {f : Occurrence × Error}
    (hf : (root.trail s).failure = some f) :
    In root f.1 ∧ f.1.item.isVisible s.ctx = .error f.2 := by
  rw [trail_eq] at hf
  refine isVisible_of_trails_failure s (fun o ho => ?_) hf
  obtain rfl := List.mem_singleton.mp ho
  exact in_root root

/-- A walk that does not fail passes what is shown and in scope. -/
theorem mem_passed_iff {s : Walk.Setting} {root : Item} (hf : (root.trail s).failure = none)
    {o : Occurrence} : o ∈ (root.trail s).passed ↔
      s.scope.includes o.item ∧ Shown s.ctx s.seeder ⟨0, root⟩ o := by
  rw [trail_eq] at hf ⊢
  constructor
  · intro ho
    obtain ⟨hin, c, hc, hshown⟩ := shown_of_mem_passed s _ ho
    obtain rfl : c = ⟨0, root⟩ := by simpa using hc
    exact ⟨hin, hshown⟩
  · rintro ⟨hin, hshown⟩
    exact mem_passed_of_shown s hshown hin List.mem_cons_self hf

theorem passed_pairwise (s : Walk.Setting) (root : Item) :
    (root.trail s).passed.Pairwise fun a b => a.position < b.position := by
  have hap : Apart [⟨0, root⟩] := List.pairwise_singleton _ _
  have h := places_pairwise s hap
  rw [← trail_eq, Trail.places] at h
  exact (List.pairwise_append.mp h).1

theorem positions_nodup (s : Walk.Setting) (root : Item) :
    ((root.trail s).passed.map Occurrence.position).Nodup := by
  rw [List.Nodup, List.pairwise_map]
  exact (passed_pairwise s root).imp fun h => Nat.ne_of_lt h

/-- How often a walk passes an occurrence of the tree. -/
theorem count_position {s : Walk.Setting} {root : Item} (hf : (root.trail s).failure = none)
    {o : Occurrence} (ho : o ∈ root.occurrences) (hin : s.scope.includes o.item) :
    (Shown s.ctx s.seeder ⟨0, root⟩ o →
      ((root.trail s).passed.map Occurrence.position).count o.position = 1) ∧
    (¬ Shown s.ctx s.seeder ⟨0, root⟩ o →
      ((root.trail s).passed.map Occurrence.position).count o.position = 0) := by
  refine ⟨fun h => ?_, fun h => ?_⟩
  · have hmem := (mem_passed_iff hf).mpr ⟨hin, h⟩
    exact List.count_eq_one_of_mem (positions_nodup s root) (List.mem_map_of_mem hmem)
  · rw [List.count_eq_zero]
    intro hmem
    obtain ⟨x, hx, hp⟩ := List.mem_map.mp hmem
    obtain rfl := eq_of_mem_occurrences (in_of_mem_passed hx).mem_occurrences ho hp
    exact h ((mem_passed_iff hf).mp hx).2

end Item

end Questionnaire
