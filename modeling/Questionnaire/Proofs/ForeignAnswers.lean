import Questionnaire.Proofs.Lookahead

/-! What answers to items of other questionnaires have an influence on: nothing, where every read
names an item of the tree. -/
namespace Questionnaire
open Occurrence

theorem bind_congr_of_ok {ε α β : Type} {x : Except ε α} {f g : α → Except ε β}
    (h : ∀ a, x = .ok a → f a = g a) : x >>= f = x >>= g := by
  cases x with
  | error err =>
    change Except.error err = Except.error err
    rfl
  | ok a => exact h a rfl

theorem Trail.upTo_of_le {t : Trail} {last : Nat} (h : ∀ o ∈ t.places, o.position ≤ last) :
    t.upTo last = t := by
  have hpassed : t.passed.filter (·.position ≤ last) = t.passed := by
    rw [List.filter_eq_self]
    intro o ho
    have := h o (mem_places_of_mem_passed ho)
    simpa using this
  have hfailure : t.failure.filter (·.1.position ≤ last) = t.failure := by
    cases hf : t.failure with
    | none => rfl
    | some f =>
      have := h f.1 (by simp [places, hf])
      simpa [Option.filter] using this
  rw [upTo, hpassed, hfailure]

namespace Item

/-- All places that a walk names are in the tree. -/
theorem trail_upTo_size (s : Walk.Setting) (root : Item) :
    (root.trail s).upTo root.size = root.trail s := by
  apply Trail.upTo_of_le
  intro o ho
  rw [trail_eq] at ho
  obtain ⟨c, hc, -, hstop⟩ := places_within s _ ho
  obtain rfl : c = ⟨0, root⟩ := by simpa using hc
  have hsize : Occurrence.stop ⟨0, root⟩ = root.size := Nat.zero_add _
  omega

theorem mem_descendants_of_items {s : Walk.Setting} {root : Item} {items : List Item}
    (h : Walk.items s root = .ok items) : ∀ item ∈ items, item ∈ root.descendants := by
  intro item hitem
  rw [Walk.items_eq] at h
  unfold Trail.result at h
  split at h
  · obtain rfl := Except.ok.inj h
    obtain ⟨o, ho, rfl⟩ := List.mem_map.mp hitem
    exact List.mem_of_getElem? (in_of_mem_passed ho).getElem?
  · cases h

section
variable {a b : Context} {among : String → Prop} {root : Item}
  (hab : a.AgreeOn among b) (hreads : ∀ item ∈ root.descendants, item.ReadsAmong among)

include hab hreads

/-- Contexts that agree on all that a tree reads give the same walks over it. -/
theorem items_congr (seed : Option UInt64) (scope : Walk.Scope) :
    Walk.items ⟨a, .ofOption seed, scope⟩ root = Walk.items ⟨b, .ofOption seed, scope⟩ root := by
  have hupTo : (root.trail ⟨a, .ofOption seed, scope⟩).upTo root.size =
      (root.trail ⟨b, .ofOption seed, scope⟩).upTo root.size := by
    rw [trail_eq, trail_eq]
    apply trails_upTo_eq hab seed scope root
    · intro o ho _
      exact hreads o.item (List.mem_of_getElem? ho.getElem?)
    · intro o ho
      obtain rfl := List.mem_singleton.mp ho
      exact in_root root
    · exact List.pairwise_singleton _ _
  rw [trail_upTo_size, trail_upTo_size] at hupTo
  rw [Walk.items_eq, Walk.items_eq, hupTo]

theorem ofItems_congr {items : List Item} (hitems : ∀ item ∈ items, item ∈ root.descendants) :
    Report.ofItems a items = Report.ofItems b items := by
  unfold Report.ofItems
  congr 1
  apply List.map_congr_left
  intro item hitem
  have hmem : item ∈ root.descendants := hitems item (List.mem_filter.mp hitem).1
  rw [(hreads item hmem).validate_eq hab]

theorem validateVisible_congr (seed : Option UInt64) :
    root.validateVisible a (.ofOption seed) = root.validateVisible b (.ofOption seed) := by
  have hwalk := items_congr hab hreads seed .withGroups
  unfold validateVisible
  rw [← hwalk]
  apply bind_congr_of_ok
  intro items hitems
  rw [ofItems_congr hab hreads (mem_descendants_of_items hitems)]

end

/-- Foreign answers change nothing. In a tree without unknown reads or reads by computed keys, two
contexts that differ in responses to other items only have the same visible questions, pages and
report, or the same error, and each item has the same states of options. -/
theorem foreign_answers_change_nothing {root : Item}
    (hdynamic : ∀ item ∈ root.descendants, ∀ e ∈ item.expressions, e.2.references.dynamic = 0)
    (hunknown : root.unknownReferences = []) {a b : Context} (hab : a.AgreeOn (· ∈ root.keys) b)
    (seed : Option UInt64) :
    root.flatten a (.ofOption seed) = root.flatten b (.ofOption seed) ∧
    root.pages a (.ofOption seed) = root.pages b (.ofOption seed) ∧
    root.validateVisible a (.ofOption seed) = root.validateVisible b (.ofOption seed) ∧
    ∀ item ∈ root.descendants, item.optionStates a = item.optionStates b := by
  have hreads : ∀ item ∈ root.descendants, item.ReadsAmong (· ∈ root.keys) := by
    intro item hitem
    apply readsAmong_of_reads (hdynamic item hitem)
    intro read hr
    exact mem_keys_of_mem_reads hunknown hitem hr
  refine ⟨?_, ?_, ?_, ?_⟩
  · exact items_congr hab hreads seed .questions
  · unfold pages
    rw [items_congr hab hreads seed .withPageBreaks]
  · exact validateVisible_congr hab hreads seed
  · intro item hitem
    exact (hreads item hitem).optionStates_eq hab

/-- Two questions, of which the first is shown when the second is answered. -/
def lookingAhead : Item :=
  .group ⟨"s", 0, none, []⟩ .sequential
    [.question ⟨"s.a", 0, some (.hasResponse "s.b" "rg"), []⟩ .text [],
      .question ⟨"s.b", 0, none, []⟩ .text []]

open Context (ofAnswered)

/-- The answer to an item of another questionnaire changes nothing, though the answer to a later one
would. -/
theorem lookingAhead_unchanged :
    lookingAhead.unknownReferences = [] ∧
      (ofAnswered ["s.b"]).AgreeOn (· ∈ lookingAhead.keys) (ofAnswered ["s.b", "t.c"]) ∧
      lookingAhead.flatten (ofAnswered ["s.b"]) (.ofOption none) =
        lookingAhead.flatten (ofAnswered ["s.b", "t.c"]) (.ofOption none) := by
  have hkeys : lookingAhead.keys = ["s", "s.a", "s.b"] := by
    rw [keys, descendants_eq]
    rfl
  have hdynamic : ∀ item ∈ lookingAhead.descendants, ∀ e ∈ item.expressions,
      e.2.references.dynamic = 0 := by
    rw [descendants_eq]
    decide
  have hunknown : lookingAhead.unknownReferences = [] := by
    simp only [unknownReferences, keys, descendants_eq]
    rfl
  have hagree : (ofAnswered ["s.b"]).AgreeOn (· ∈ lookingAhead.keys)
      (ofAnswered ["s.b", "t.c"]) := by
    refine ⟨rfl, rfl, rfl, fun key hkey => ?_⟩
    have hne : "t.c" ≠ key := by
      rintro rfl
      rw [hkeys] at hkey
      exact absurd hkey (by decide)
    exact (Fields.get?_insert_of_ne _ _ hne).symm
  have hsame := foreign_answers_change_nothing hdynamic hunknown hagree none
  exact ⟨hunknown, hagree, hsame.1⟩

end Item

end Questionnaire
