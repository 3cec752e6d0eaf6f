import Questionnaire.Expression.Build
import Questionnaire.Proofs.Agreement
import Questionnaire.Proofs.Shown

/-! What later answers have an influence on. Where no expression looks ahead, the walk up to a
position is the same for all answers to the items after it. -/
namespace Questionnaire
open Occurrence

namespace Trail

def upTo (last : Nat) (t : Trail) : Trail :=
  ⟨t.passed.filter (·.position ≤ last), t.failure.filter (·.1.position ≤ last)⟩

theorem upTo_of_lt {t : Trail} {last : Nat} (h : ∀ o ∈ t.places, last < o.position) :
    t.upTo last = .empty := by
  have hpassed : t.passed.filter (·.position ≤ last) = [] := by
    rw [List.filter_eq_nil_iff]
    intro o ho
    have := h o (mem_places_of_mem_passed ho)
    simpa using this
  have hfailure : t.failure.filter (·.1.position ≤ last) = none := by
    cases hf : t.failure with
    | none => rfl
    | some f =>
      have := h f.1 (by simp [places, hf])
      simpa [Option.filter] using this
  rw [upTo, hpassed, hfailure]
  rfl

/-- Trails one after another are cut like each of them, if after a failure that is cut off nothing
comes that is not. -/
theorem upTo_append {t u : Trail} {last : Nat}
    (h : ∀ f ∈ t.failure, last < f.1.position → u.upTo last = .empty) :
    (t ++ u).upTo last = t.upTo last ++ u.upTo last := by
  cases hf : t.failure with
  | none =>
    have hcut : (t.upTo last).failure = none := by simp [upTo, hf]
    rw [append_of_none hf, append_of_none hcut, upTo, List.filter_append]
    rfl
  | some f =>
    rw [append_of_some hf]
    by_cases hlast : f.1.position ≤ last
    · have hcut : (t.upTo last).failure = some f := by simp [upTo, hf, hlast]
      rw [append_of_some hcut]
    · rw [h f hf (by omega), append_empty]

end Trail

theorem trails_cons_upTo (s : Walk.Setting) {o : Occurrence} {rest : List Occurrence}
    (h : Apart (o :: rest)) (last : Nat) :
    (trails s (o :: rest)).upTo last = (trail s o).upTo last ++ (trails s rest).upTo last := by
  rw [trails_cons]
  apply Trail.upTo_append
  -- A failure that is cut off stands before all that the rest would name.
  intro f hf hlast
  apply Trail.upTo_of_lt
  intro y hy
  have hplace : f.1 ∈ (trail s o).places := by simp [Trail.places, Option.mem_def.mp hf]
  have := position_lt_of_apart s h hplace hy
  omega

theorem trail_upTo_of_visible {s : Walk.Setting} {o : Occurrence}
    (hv : o.item.isVisible s.ctx = .ok true) (last : Nat) :
    (trail s o).upTo last =
      (o.own s.scope).upTo last ++ (trails s (o.chosen s.ctx s.seeder)).upTo last := by
  rw [trail_of_visible s hv]
  apply Trail.upTo_append
  intro f hf
  rw [failure_own] at hf
  cases hf

theorem trails_upTo_of_lt (s : Walk.Setting) {o : Occurrence} {rest : List Occurrence}
    (h : Apart (o :: rest)) {last : Nat} (hlast : last < o.position) :
    (trails s (o :: rest)).upTo last = .empty := by
  apply Trail.upTo_of_lt
  intro x hx
  obtain ⟨c, hc, hlo, -⟩ := places_within s _ hx
  rcases List.mem_cons.mp hc with rfl | hc
  · omega
  · have hstop := (List.pairwise_cons.mp h).1 c hc
    have hself : o.position ≤ o.stop := Nat.le_add_right _ _
    omega

section
variable {a b : Context} {among : String → Prop}

/-- Walks on contexts that agree on all that is read up to a position pass the same up to it. -/
theorem trails_upTo_eq (hab : a.AgreeOn among b) (seed : Option UInt64) (scope : Walk.Scope)
    (root : Item) {last : Nat}
    (hreads : ∀ o, In root o → o.position ≤ last → o.item.ReadsAmong among)
    {os : List Occurrence} (hin : ∀ o ∈ os, In root o) (hapart : Apart os) :
    (trails ⟨a, .ofOption seed, scope⟩ os).upTo last =
      (trails ⟨b, .ofOption seed, scope⟩ os).upTo last := by
  induction os using forest_induction a (.ofOption seed) with
  | nil => rw [trails_nil, trails_nil]
  | cons o rest inner ih =>
    -- Up to the position the contexts agree on the condition; after it, both walks are cut off.
    by_cases hlast : o.position ≤ last
    · have ho : In root o := hin o List.mem_cons_self
      have hv := (hreads o ho hlast).isVisible_eq hab
      have hrest : Apart rest := (List.pairwise_cons.mp hapart).2
      rw [trails_cons_upTo _ hapart, trails_cons_upTo _ hapart,
        ih (fun c hc => hin c (List.mem_cons_of_mem o hc)) hrest]
      congr 1
      rcases trail_cases ⟨a, .ofOption seed, scope⟩ o with ⟨e, he, ht⟩ | ⟨he, ht⟩ | ⟨he, -⟩
      · rw [ht, trail_of_error ⟨b, .ofOption seed, scope⟩ (hv.symm.trans he)]
      · rw [ht, trail_of_hidden ⟨b, .ofOption seed, scope⟩ (hv.symm.trans he)]
      · have hchosen : o.chosen a (.ofOption seed) = o.chosen b (.ofOption seed) :=
          Item.pick_eq hab seed o.item o.children
        have hinner := inner (fun c hc => ho.child (mem_children_of_mem_chosen hc))
          (apart_chosen a (.ofOption seed) o)
        rw [trail_upTo_of_visible he, trail_upTo_of_visible (hv.symm.trans he), hinner, hchosen]
    · rw [trails_upTo_of_lt _ hapart (by omega), trails_upTo_of_lt _ hapart (by omega)]

end

namespace Trail

/-- What comes out of a trail one by one, with the positions that it belongs to. -/
def located (t : Trail) : List (Nat × Except Error Item) :=
  t.passed.map (fun o => (o.position, .ok o.item)) ++
    (t.failure.map fun f => (f.1.position, .error f.2)).toList

theorem located_map_snd (t : Trail) : t.located.map Prod.snd = t.outcomes := by
  obtain ⟨passed, failure⟩ := t
  cases failure <;> simp [located, outcomes]

theorem located_upTo (last : Nat) (t : Trail) :
    (t.upTo last).located = t.located.filter (·.1 ≤ last) := by
  obtain ⟨passed, failure⟩ := t
  rw [located, located, upTo, List.filter_append, List.filter_map]
  congr 1
  cases failure with
  | none => rfl
  | some f => by_cases h : f.1.position ≤ last <;> simp [Option.filter, h]

end Trail

namespace Item

/-- What comes out of a walk belongs to the item at its position: the item itself, or the error of
its condition. -/
theorem getElem?_of_mem_located {s : Walk.Setting} {root : Item} {position : Nat}
    {result : Except Error Item} (h : (position, result) ∈ (root.trail s).located) :
    ∃ item, root.descendants[position]? = some item ∧
      (result = .ok item ∨ ∃ e, result = .error e ∧ item.isVisible s.ctx = .error e) := by
  rw [Trail.located, List.mem_append] at h
  rcases h with h | h
  · obtain ⟨o, ho, he⟩ := List.mem_map.mp h
    obtain ⟨rfl, rfl⟩ := Prod.mk.inj he
    exact ⟨o.item, (in_of_mem_passed ho).getElem?, .inl rfl⟩
  · obtain ⟨f, hf, he⟩ := Option.map_eq_some_iff.mp (Option.mem_toList.mp h)
    obtain ⟨rfl, rfl⟩ := Prod.mk.inj he
    obtain ⟨hin, hv⟩ := isVisible_of_failure hf
    exact ⟨f.1.item, hin.getElem?, .inr ⟨f.2, rfl, hv⟩⟩

/-- The first item with a key stands at a position or before it. -/
def FirstBy (root : Item) (last : Nat) (key : String) : Prop :=
  ∃ first, root.keys.idxOf? key = some first ∧ first ≤ last

theorem FirstBy.mono {root : Item} {last more : Nat} (h : last ≤ more) {key : String}
    (hk : root.FirstBy last key) : root.FirstBy more key := by
  obtain ⟨first, hfirst, hle⟩ := hk
  exact ⟨first, hfirst, Nat.le_trans hle h⟩

theorem firstBy_key {root item : Item} {position : Nat}
    (h : root.descendants[position]? = some item) : root.FirstBy position item.key := by
  have hkey : root.keys[position]? = some item.key := by
    rw [keys, List.getElem?_map, h]
    rfl
  have hmem : item.key ∈ root.keys := List.mem_of_getElem? hkey
  obtain ⟨first, hfirst⟩ := Option.isSome_iff_exists.mp (List.isSome_idxOf?.mpr hmem)
  refine ⟨first, hfirst, ?_⟩
  obtain ⟨hlt, -, hbefore⟩ := List.idxOf?_eq_some_iff.mp hfirst
  obtain ⟨hposition, he⟩ := List.getElem?_eq_some_iff.mp hkey
  by_contra hgt
  exact hbefore position (by omega) he

/-- Where no findings are made, an item reads what stands at its place or before it. -/
theorem firstBy_of_mem_reads {root item : Item} (hforward : root.forwardReferences = [])
    (hunknown : root.unknownReferences = []) {position : Nat}
    (h : root.descendants[position]? = some item) {read : Site × String} (hr : read ∈ item.reads) :
    root.FirstBy position read.2 := by
  by_cases hown : read.2 = item.key
  · rw [hown]
    exact firstBy_key h
  · have hknown := mem_keys_of_mem_reads hunknown (List.mem_of_getElem? h) hr
    obtain ⟨first, hfirst⟩ := Option.isSome_iff_exists.mp (List.isSome_idxOf?.mpr hknown)
    refine ⟨first, hfirst, ?_⟩
    have hall := List.flatMap_eq_nil_iff.mp hforward (item, position)
      (List.mem_zipIdx_iff_getElem?.mpr h)
    have hread := List.filterMap_eq_nil_iff.mp hall read hr
    rw [forwardReference?, if_neg hown, hfirst] at hread
    by_contra hgt
    simp only [if_pos (show position < first by omega)] at hread
    cases hread

theorem readsAmong_firstBy {root item : Item}
    (hdynamic : ∀ item ∈ root.descendants, ∀ e ∈ item.expressions, e.2.references.dynamic = 0)
    (hforward : root.forwardReferences = []) (hunknown : root.unknownReferences = [])
    {position last : Nat} (h : root.descendants[position]? = some item) (hle : position ≤ last) :
    item.ReadsAmong (root.FirstBy last) := by
  apply readsAmong_of_reads (hdynamic item (List.mem_of_getElem? h))
  intro read hr
  exact (firstBy_of_mem_reads hforward hunknown h hr).mono hle

/-- Later answers change nothing earlier. In a tree without findings or reads by computed keys, two
contexts that agree up to a position make walks that agree up to it, in all that they yield, and
each item up to it has the same outcomes of rules and states of options. -/
theorem later_answers_change_nothing_earlier {root : Item}
    (hdynamic : ∀ item ∈ root.descendants, ∀ e ∈ item.expressions, e.2.references.dynamic = 0)
    (hforward : root.forwardReferences = []) (hunknown : root.unknownReferences = [])
    {a b : Context} {last : Nat} (hab : a.AgreeOn (root.FirstBy last) b)
    (seed : Option UInt64) (scope : Walk.Scope) :
    (∀ ctx, Walk.toList ⟨ctx, .ofOption seed, scope⟩ (.start root) =
        (root.trail ⟨ctx, .ofOption seed, scope⟩).located.map Prod.snd ∧
      ∀ y ∈ (root.trail ⟨ctx, .ofOption seed, scope⟩).located,
        ∃ item, root.descendants[y.1]? = some item ∧
          (y.2 = .ok item ∨ ∃ e, y.2 = .error e ∧ item.isVisible ctx = .error e)) ∧
    (root.trail ⟨a, .ofOption seed, scope⟩).located.filter (·.1 ≤ last) =
      (root.trail ⟨b, .ofOption seed, scope⟩).located.filter (·.1 ≤ last) ∧
    ∀ position item, root.descendants[position]? = some item → position ≤ last →
      item.validate a = item.validate b ∧ item.optionStates a = item.optionStates b := by
  refine ⟨?_, ?_, ?_⟩
  · intro ctx
    rw [Trail.located_map_snd]
    exact ⟨Walk.toList_start _ root, fun y hy => getElem?_of_mem_located hy⟩
  · rw [← Trail.located_upTo, ← Trail.located_upTo, trail_eq, trail_eq]
    congr 1
    apply trails_upTo_eq hab seed scope root
    · intro o ho hle
      exact readsAmong_firstBy hdynamic hforward hunknown ho.getElem? hle
    · intro o ho
      obtain rfl := List.mem_singleton.mp ho
      exact in_root root
    · exact List.pairwise_singleton _ _
  · intro position item h hle
    have hitem := readsAmong_firstBy hdynamic hforward hunknown h hle
    exact ⟨hitem.validate_eq hab, hitem.optionStates_eq hab⟩

/-- Three questions, of which each but the first is shown when the one before it is answered. -/
def chain : Item :=
  .group ⟨"s", 0, none, []⟩ .sequential
    [.question ⟨"s.a", 0, none, []⟩ .text [],
      .question ⟨"s.b", 0, some (.hasResponse "s.a" "rg"), []⟩ .text [],
      .question ⟨"s.c", 0, some (.hasResponse "s.b" "rg"), []⟩ .text []]

end Item

/-- A context with bare selections for answers. -/
def Context.ofAnswered (keys : List String) : Context :=
  keys.foldl (fun ctx key => ctx.insertResponse key (.leaf "rg" none)) (.empty 0)

namespace Item
open Context (ofAnswered)

theorem chain_keys : chain.keys = ["s", "s.a", "s.b", "s.c"] := by
  rw [keys, descendants_eq]
  rfl

theorem chain_agreeOn :
    (ofAnswered ["s.a"]).AgreeOn (chain.FirstBy 2) (ofAnswered ["s.a", "s.c"]) := by
  refine ⟨rfl, rfl, rfl, ?_⟩
  rintro key ⟨first, hfirst, hle⟩
  rw [chain_keys] at hfirst
  obtain ⟨hlt, hkey, -⟩ := List.idxOf?_eq_some_iff.mp hfirst
  obtain rfl | rfl | rfl : first = 0 ∨ first = 1 ∨ first = 2 := by omega
  all_goals
    obtain rfl := hkey
    rfl

/-- The answer to the last question changes nothing before it. -/
theorem chain_unchanged :
    chain.forwardReferences = [] ∧ chain.unknownReferences = [] ∧
      (ofAnswered ["s.a"]).AgreeOn (chain.FirstBy 2) (ofAnswered ["s.a", "s.c"]) ∧
      (chain.trail ⟨ofAnswered ["s.a"], .ofOption none, .questions⟩).located.filter (·.1 ≤ 2) =
        (chain.trail ⟨ofAnswered ["s.a", "s.c"], .ofOption none, .questions⟩).located.filter
          (·.1 ≤ 2) := by
  have hdynamic : ∀ item ∈ chain.descendants, ∀ e ∈ item.expressions,
      e.2.references.dynamic = 0 := by
    rw [descendants_eq]
    decide
  have hforward : chain.forwardReferences = [] := by
    simp only [forwardReferences, keys, descendants_eq]
    rfl
  have hunknown : chain.unknownReferences = [] := by
    simp only [unknownReferences, keys, descendants_eq]
    rfl
  obtain ⟨-, hlocated, -⟩ := later_answers_change_nothing_earlier hdynamic hforward hunknown
    chain_agreeOn none .questions
  exact ⟨hforward, hunknown, chain_agreeOn, hlocated⟩

end Item

end Questionnaire
