import Mathlib.Data.List.Induction
import Questionnaire.Lint
import Questionnaire.Proofs.Assembled
import Questionnaire.Proofs.Occurrence

/-! The findings in a questionnaire: the keys that several items have, and the reads of items that
come later or do not exist, each found once and in the order of definition. -/
namespace Questionnaire

/-- The operators that read the response of an item, whose key is their first argument. -/
def Operator.itemReaders : List Operator :=
  [.hasResponse, .responseHasKeysAny, .responseHasKeysAll, .responseHasOnlyKeysOtherThan,
    .getResponseItem, .getResponseValueAsNum, .getResponseValueAsStr, .countResponseItems,
    .dateResponseDiffFromNow]

theorem Operator.mem_itemReaders_iff (operator : Operator) :
    operator ∈ itemReaders ↔ operator.referencesItem = true := by
  cases operator <;> decide

namespace Expression

/-- The key that a call reads, if it names it by a literal. -/
def literalKey? (operator : Operator) : List Expression → Option String
  | .literal (.text key) :: _ => if operator ∈ Operator.itemReaders then some key else none
  | _ => none

mutual

/-- The literal keys that the calls in an expression read, one for each call, a call before those in
its arguments. -/
def literalKeys : Expression → List String
  | .literal _ => []
  | .call operator arguments => (literalKey? operator arguments).toList ++ allLiteralKeys arguments

def allLiteralKeys : List Expression → List String
  | [] => []
  | e :: rest => literalKeys e ++ allLiteralKeys rest

end

end Expression

/-- The texts of a list without repetition, in the order of their first occurrences. -/
structure FirstUses (uses firsts : List String) : Prop where
  mem_iff : ∀ s, s ∈ firsts ↔ s ∈ uses
  ordered : firsts.Pairwise fun a b => uses.idxOf a < uses.idxOf b

namespace References
open Expression

theorem firstUses_addItem {uses : List String} {refs : References} (h : FirstUses uses refs.items)
    (key : String) : FirstUses (uses ++ [key]) (refs.addItem key).items := by
  have hordered : refs.items.Pairwise fun a b =>
      (uses ++ [key]).idxOf a < (uses ++ [key]).idxOf b := by
    refine h.ordered.imp_of_mem fun ha hb hlt => ?_
    rw [List.idxOf_append_of_mem ((h.mem_iff _).mp ha),
      List.idxOf_append_of_mem ((h.mem_iff _).mp hb)]
    exact hlt
  unfold addItem
  split
  · next hmem =>
    have hkey : key ∈ uses := (h.mem_iff key).mp (List.contains_iff_mem.mp hmem)
    refine ⟨fun s => ?_, hordered⟩
    rw [h.mem_iff, List.mem_append, List.mem_singleton]
    exact ⟨.inl, fun hs => hs.elim id fun heq => heq ▸ hkey⟩
  · next hmem =>
    have hkey : key ∉ uses := fun hkey =>
      hmem (List.contains_iff_mem.mpr ((h.mem_iff key).mpr hkey))
    refine ⟨fun s => ?_, List.pairwise_append.mpr ⟨hordered, List.pairwise_singleton _ _, ?_⟩⟩
    · rw [List.mem_append, List.mem_append, h.mem_iff]
    · intro a ha b hb
      obtain rfl := List.mem_singleton.mp hb
      have hlt : uses.idxOf a < uses.length := List.idxOf_lt_length_iff.mpr ((h.mem_iff a).mp ha)
      rw [List.idxOf_append_of_mem ((h.mem_iff a).mp ha), List.idxOf_append_of_notMem hkey]
      omega

theorem items_addCall (refs : References) (operator : Operator) (arguments : List Expression) :
    (refs.addCall operator arguments).items =
      ((literalKey? operator arguments).elim refs fun key => refs.addItem key).items := by
  have hreads := operator.mem_itemReaders_iff
  by_cases hr : operator.referencesItem
  · cases arguments with
    | nil => simp [addCall, literalKey?]
    | cons first rest =>
      cases first with
      | literal v => cases v <;> simp [addCall, literalKey?, hreads, hr]
      | call => simp [addCall, literalKey?, hr]
  · have hnone : literalKey? operator arguments = none := by
      unfold literalKey?
      split
      · exact if_neg fun hmem => hr (hreads.mp hmem)
      · rfl
    unfold addCall
    rw [if_neg hr, hnone]
    rfl

theorem firstUses_addCall {uses : List String} {refs : References} (h : FirstUses uses refs.items)
    (operator : Operator) (arguments : List Expression) :
    FirstUses (uses ++ (literalKey? operator arguments).toList)
      (refs.addCall operator arguments).items := by
  rw [items_addCall]
  cases literalKey? operator arguments with
  | none => rwa [Option.toList_none, List.append_nil]
  | some key => exact firstUses_addItem h key

mutual

theorem firstUses_visit {uses : List String} {refs : References} (h : FirstUses uses refs.items)
    (e : Expression) : FirstUses (uses ++ e.literalKeys) (refs.visit e).items := by
  cases e with
  | literal v => rwa [literalKeys, List.append_nil]
  | call operator arguments =>
    rw [literalKeys, ← List.append_assoc]
    exact firstUses_visitAll (firstUses_addCall h operator arguments) arguments

theorem firstUses_visitAll {uses : List String} {refs : References}
    (h : FirstUses uses refs.items) (es : List Expression) :
    FirstUses (uses ++ allLiteralKeys es) (refs.visitAll es).items := by
  cases es with
  | nil => rwa [allLiteralKeys, List.append_nil]
  | cons e rest =>
    rw [allLiteralKeys, ← List.append_assoc]
    exact firstUses_visitAll (firstUses_visit h e) rest

end

end References

theorem Expression.firstUses_references (e : Expression) :
    FirstUses e.literalKeys e.references.items := by
  have hempty : FirstUses [] References.empty.items := ⟨fun _ => Iff.rfl, List.Pairwise.nil⟩
  exact References.firstUses_visit hempty e

theorem countTexts_append_singleton (texts : List String) (s : String) :
    countTexts (texts ++ [s]) =
      Fields.insert s ((Fields.get? s (countTexts texts)).getD 0 + 1) (countTexts texts) := by
  rw [countTexts, List.foldl_append]
  rfl

/-- Under each text stands how often it occurs. -/
theorem get?_countTexts (texts : List String) (s : String) :
    Fields.get? s (countTexts texts) = if s ∈ texts then some (texts.count s) else none := by
  induction texts using List.reverseRecOn with
  | nil => rfl
  | append_singleton texts last ih =>
    rw [countTexts_append_singleton]
    by_cases hs : last = s
    · subst hs
      have hcount : (Fields.get? last (countTexts texts)).getD 0 = texts.count last := by
        rw [ih]
        split
        · rfl
        · next hmem => exact (List.count_eq_zero.mpr hmem).symm
      rw [Fields.get?_insert_self, hcount, if_pos (by simp), List.count_append,
        List.count_singleton_self]
    · have hother : [last].count s = 0 := by simp [hs]
      rw [Fields.get?_insert_of_ne _ _ hs, ih, List.count_append, hother, Nat.add_zero]
      simp [Ne.symm hs]

theorem ascending_countTexts (texts : List String) : (countTexts texts).Ascending := by
  induction texts using List.reverseRecOn with
  | nil => exact List.Pairwise.nil
  | append_singleton texts last ih =>
    rw [countTexts_append_singleton]
    exact Fields.ascending_insert _ _ ih

theorem mem_countTexts_iff {texts : List String} {s : String} {n : Nat} :
    (s, n) ∈ countTexts texts ↔ s ∈ texts ∧ n = texts.count s := by
  rw [← Fields.get?_eq_some_iff (ascending_countTexts texts), get?_countTexts]
  split
  · next hs => simp [hs, eq_comm]
  · next hs => simp [hs]

/-- Where in an item an expression stands: its condition, one of its rules, or what shows or
disables one of its options. -/
inductive Spot where
  | condition
  | rule (index : Nat)
  | optionDisplay (index : Nat)
  | optionDisabled (index : Nat)

namespace Spot

/-- The site that a finding names and the expression, if there is one. -/
def expression? (item : Item) : Spot → Option (Site × Expression)
  | condition => item.condition.map fun e => (.condition, e)
  | rule index => item.rules[index]?.map fun r => (.rule r.key, r.rule)
  | optionDisplay index => item.options[index]?.bind fun c =>
      c.displayCondition.map fun e => (.optionDisplay c.key, e)
  | optionDisabled index => item.options[index]?.bind fun c =>
      c.disabled.map fun e => (.optionDisabled c.key, e)

/-- The condition comes first, then the rules, then the options, each with what shows it before what
disables it. -/
def rank : Spot → List Nat
  | condition => [0]
  | rule index => [1, index]
  | optionDisplay index => [2, index, 0]
  | optionDisabled index => [2, index, 1]

/-- All spots of an item in their order. -/
def all (item : Item) : List Spot :=
  condition :: ((List.range item.rules.length).map rule ++
    (List.range item.options.length).flatMap fun index =>
      [optionDisplay index, optionDisabled index])

theorem mem_all {item : Item} {spot : Spot} {e : Site × Expression}
    (h : spot.expression? item = some e) : spot ∈ all item := by
  have hoption : ∀ {index : Nat} {f : Choice → Option (Site × Expression)},
      item.options[index]?.bind f = some e → index < item.options.length := by
    intro index f hbind
    obtain ⟨c, hc, -⟩ := Option.bind_eq_some_iff.mp hbind
    exact (List.getElem?_eq_some_iff.mp hc).1
  cases spot with
  | condition => exact List.mem_cons_self
  | rule index =>
    obtain ⟨r, hr, -⟩ := Option.map_eq_some_iff.mp h
    simpa [all] using (List.getElem?_eq_some_iff.mp hr).1
  | optionDisplay index => simpa [all] using hoption h
  | optionDisabled index => simpa [all] using hoption h

theorem pairwise_all (item : Item) : (all item).Pairwise fun a b => a.rank < b.rank := by
  refine List.pairwise_cons.mpr ⟨fun spot hspot => ?_, List.pairwise_append.mpr ⟨?_, ?_, ?_⟩⟩
  · simp only [List.mem_append, List.mem_map, List.mem_flatMap, List.mem_pair] at hspot
    obtain ⟨index, -, rfl⟩ | ⟨index, -, rfl | rfl⟩ := hspot <;>
      exact List.cons_lt_cons_iff.mpr (.inl (by decide))
  · refine List.pairwise_map.mpr (List.pairwise_lt_range.imp fun hlt => ?_)
    simp [rank, List.cons_lt_cons_iff, hlt]
  · refine List.pairwise_flatMap.mpr
      ⟨fun index _ => ?_, List.pairwise_lt_range.imp fun hlt a ha b hb => ?_⟩
    · simp [rank, List.cons_lt_cons_iff]
    · rcases List.mem_pair.mp ha with rfl | rfl <;> rcases List.mem_pair.mp hb with rfl | rfl <;>
        simp [rank, List.cons_lt_cons_iff, hlt]
  · intro a ha b hb
    obtain ⟨i, -, rfl⟩ := List.mem_map.mp ha
    obtain ⟨j, -, hb⟩ := List.mem_flatMap.mp hb
    rcases List.mem_pair.mp hb with rfl | rfl <;>
      exact List.cons_lt_cons_iff.mpr (.inl (by decide))

end Spot

theorem flatMap_range_length {α β : Type} (xs : List α) (f : α → List β) :
    (List.range xs.length).flatMap (fun i => xs[i]?.elim [] f) = xs.flatMap f := by
  induction xs with
  | nil => rfl
  | cons x xs ih => simp [List.range_succ_eq_map, List.flatMap_map, ← ih]

/-- The expressions of an item are those at its spots. -/
theorem Item.expressions_eq (item : Item) :
    item.expressions = (Spot.all item).flatMap fun spot => (spot.expression? item).toList := by
  have hrules : (List.range item.rules.length).flatMap
      (fun index => ((Spot.rule index).expression? item).toList) =
        item.rules.map fun r => (Site.rule r.key, r.rule) := by
    rw [List.map_eq_flatMap, ← flatMap_range_length item.rules]
    refine List.flatMap_congr fun index _ => ?_
    cases h : item.rules[index]? <;> simp [Spot.expression?, h]
  have hoptions : (List.range item.options.length).flatMap (fun index =>
      ((Spot.optionDisplay index).expression? item).toList ++
        ((Spot.optionDisabled index).expression? item).toList) =
      item.options.flatMap fun c =>
        (c.displayCondition.map fun e => (Site.optionDisplay c.key, e)).toList ++
        (c.disabled.map fun e => (Site.optionDisabled c.key, e)).toList := by
    rw [← flatMap_range_length item.options]
    refine List.flatMap_congr fun index _ => ?_
    cases h : item.options[index]? <;> simp [Spot.expression?, h]
  rw [expressions, ← hrules, ← hoptions]
  simp [Spot.all, List.flatMap_map, List.flatMap_assoc, Spot.expression?]

/-- A literal key that an expression of an item in a tree reads: the position of the item in the
order of definition, and where the expression stands in the item. -/
structure ItemRead where
  position : Nat
  item : Item
  spot : Spot
  site : Site
  expression : Expression
  key : String

namespace ItemRead

/-- The item stands at its position in a tree, it has the expression, and the key is read in it. -/
structure In (root : Item) (r : ItemRead) : Prop where
  item_eq : root.preorder[r.position]? = some r.item
  expression_eq : r.spot.expression? r.item = some (r.site, r.expression)
  key_mem : r.key ∈ r.expression.literalKeys

/-- Where a key is first used in its expression. -/
def firstUse (r : ItemRead) : Nat := r.expression.literalKeys.idxOf r.key

/-- First come the reads of earlier items, then those in earlier expressions, then those of keys
that are used earlier. -/
def Before (a b : ItemRead) : Prop :=
  a.position < b.position ∨ a.position = b.position ∧
    (a.spot.rank < b.spot.rank ∨ a.spot = b.spot ∧ a.firstUse < b.firstUse)

/-- No item of a tree has the key. -/
def Unknown (root : Item) (r : ItemRead) : Prop := r.key ∉ root.preorder.map Item.key

/-- The key is another than that of the reading item, and the first item with it comes later. -/
def LooksAhead (root : Item) (r : ItemRead) : Prop :=
  r.key ≠ r.item.key ∧
    ∃ first, (root.preorder.map Item.key).idxOf? r.key = some first ∧ r.position < first

end ItemRead

namespace Item

/-- Findings about the reads in a tree that have a property, one for each of them, in their
order. -/
def Reports (root : Item) (p : ItemRead → Prop) (issue : Site → String → Issue)
    (findings : List Finding) : Prop :=
  ∃ reads : List ItemRead, reads.Pairwise ItemRead.Before ∧ (∀ r, r ∈ reads ↔ r.In root ∧ p r) ∧
    findings = reads.map fun r => ⟨r.item.key, issue r.site r.key⟩

def itemReadsOf (item : Item) (position : Nat) : List ItemRead :=
  (Spot.all item).flatMap fun spot =>
    (spot.expression? item).elim [] fun e =>
      e.2.references.items.map fun key => ⟨position, item, spot, e.1, e.2, key⟩

/-- All reads in a tree, in their order. -/
def itemReads (root : Item) : List ItemRead :=
  root.preorder.zipIdx.flatMap fun x => x.1.itemReadsOf x.2

theorem mem_itemReadsOf_iff {item : Item} {position : Nat} {r : ItemRead} :
    r ∈ item.itemReadsOf position ↔ r.item = item ∧ r.position = position ∧
      r.spot.expression? item = some (r.site, r.expression) ∧
      r.key ∈ r.expression.literalKeys := by
  unfold itemReadsOf
  rw [List.mem_flatMap]
  constructor
  · rintro ⟨spot, -, hr⟩
    cases he : spot.expression? item with
    | none =>
      rw [he] at hr
      cases hr
    | some e =>
      rw [he] at hr
      obtain ⟨key, hkey, rfl⟩ := List.mem_map.mp hr
      exact ⟨rfl, rfl, he, (e.2.firstUses_references.mem_iff key).mp hkey⟩
  · rintro ⟨rfl, rfl, he, hkey⟩
    refine ⟨r.spot, Spot.mem_all he, ?_⟩
    rw [he]
    exact List.mem_map.mpr ⟨r.key, (r.expression.firstUses_references.mem_iff r.key).mpr hkey, rfl⟩

theorem mem_itemReads_iff {root : Item} {r : ItemRead} : r ∈ root.itemReads ↔ r.In root := by
  unfold itemReads
  rw [List.mem_flatMap]
  constructor
  · rintro ⟨⟨item, position⟩, hitem, hr⟩
    obtain ⟨rfl, rfl, he, hkey⟩ := mem_itemReadsOf_iff.mp hr
    exact ⟨List.mem_zipIdx_iff_getElem?.mp hitem, he, hkey⟩
  · rintro ⟨hitem, he, hkey⟩
    exact ⟨(r.item, r.position), List.mem_zipIdx_iff_getElem?.mpr hitem,
      mem_itemReadsOf_iff.mpr ⟨rfl, rfl, he, hkey⟩⟩

end Item

theorem pairwise_lt_zipIdx {α : Type} (xs : List α) : xs.zipIdx.Pairwise fun a b => a.2 < b.2 := by
  have h : (xs.zipIdx.map Prod.snd).Pairwise (· < ·) := by
    rw [List.zipIdx_map_snd]
    exact List.pairwise_lt_range' 1
  exact List.pairwise_map.mp h

namespace Item

theorem pairwise_itemReadsOf (item : Item) (position : Nat) :
    (item.itemReadsOf position).Pairwise ItemRead.Before := by
  refine List.pairwise_flatMap.mpr ⟨fun spot _ => ?_, (Spot.pairwise_all item).imp ?_⟩
  · cases spot.expression? item with
    | none => exact .nil
    | some e =>
      refine List.pairwise_map.mpr (e.2.firstUses_references.ordered.imp fun hlt => ?_)
      exact .inr ⟨rfl, .inr ⟨rfl, hlt⟩⟩
  · intro spot later hlt a ha b hb
    have hspot : ∀ {spot : Spot} {r : ItemRead}, r ∈ (spot.expression? item).elim [] (fun e =>
        e.2.references.items.map fun key => ⟨position, item, spot, e.1, e.2, key⟩) →
        r.position = position ∧ r.spot = spot := by
      intro spot r hr
      cases he : spot.expression? item with
      | none =>
        rw [he] at hr
        cases hr
      | some e =>
        rw [he] at hr
        obtain ⟨_, -, rfl⟩ := List.mem_map.mp hr
        exact ⟨rfl, rfl⟩
    obtain ⟨haposition, rfl⟩ := hspot ha
    obtain ⟨hbposition, rfl⟩ := hspot hb
    exact .inr ⟨haposition.trans hbposition.symm, .inl hlt⟩

theorem pairwise_itemReads (root : Item) : root.itemReads.Pairwise ItemRead.Before := by
  refine List.pairwise_flatMap.mpr
    ⟨fun ⟨item, position⟩ _ => item.pairwise_itemReadsOf position, ?_⟩
  refine (pairwise_lt_zipIdx root.preorder).imp fun hlt a ha b hb => ?_
  obtain ⟨-, ha, -⟩ := mem_itemReadsOf_iff.mp ha
  obtain ⟨-, hb, -⟩ := mem_itemReadsOf_iff.mp hb
  rw [← ha, ← hb] at hlt
  exact .inl hlt

/-- The reads that a check is run on. -/
theorem map_itemReadsOf (item : Item) (position : Nat) :
    (item.itemReadsOf position).map (fun r => (r.site, r.key)) = item.reads := by
  rw [reads, expressions_eq, List.flatMap_assoc, itemReadsOf, List.map_flatMap]
  refine List.flatMap_congr fun spot _ => ?_
  cases spot.expression? item with
  | none => rfl
  | some e => simp

theorem reports_filterMap {root : Item} {p : ItemRead → Prop} {issue : Site → String → Issue}
    {finding? : ItemRead → Option Finding}
    (hsome : ∀ r, p r → finding? r = some ⟨r.item.key, issue r.site r.key⟩)
    (hnone : ∀ r, ¬ p r → finding? r = none) :
    root.Reports p issue (root.itemReads.filterMap finding?) := by
  classical
  refine ⟨root.itemReads.filter fun r => p r, root.pairwise_itemReads.filter _, fun r => ?_, ?_⟩
  · rw [List.mem_filter, mem_itemReads_iff, decide_eq_true_iff]
  · rw [← List.filterMap_eq_map, List.filterMap_filter]
    refine List.filterMap_congr fun r _ => ?_
    by_cases hp : p r
    · simp [hp, hsome r hp]
    · simp [hp, hnone r hp]

theorem keys_eq (root : Item) : root.keys = root.preorder.map key := by
  rw [keys, descendants_eq]

/-- A check of the reads of each item is one of all reads in a tree. -/
theorem filterMap_itemReads (root : Item) (check : Nat → Item → Site × String → Option Finding) :
    (root.itemReads.filterMap fun r => check r.position r.item (r.site, r.key)) =
      root.preorder.zipIdx.flatMap fun x => x.1.reads.filterMap (check x.2 x.1) := by
  rw [itemReads, List.filterMap_flatMap]
  refine List.flatMap_congr fun x _ => ?_
  rw [← map_itemReadsOf x.1 x.2, List.filterMap_map]
  refine List.filterMap_congr fun r hr => ?_
  obtain ⟨hitem, hposition, -, -⟩ := mem_itemReadsOf_iff.mp hr
  rw [hitem, hposition]
  rfl

theorem forwardReferences_eq (root : Item) :
    root.forwardReferences = root.itemReads.filterMap fun r =>
      forwardReference? root.keys r.position r.item (r.site, r.key) := by
  rw [filterMap_itemReads root fun position item => forwardReference? root.keys position item,
    forwardReferences, descendants_eq]

theorem unknownReferences_eq (root : Item) :
    root.unknownReferences = root.itemReads.filterMap fun r =>
      unknownReference? root.keys r.item (r.site, r.key) := by
  rw [filterMap_itemReads root fun _ item => unknownReference? root.keys item, unknownReferences,
    descendants_eq]
  conv_lhs => rw [← List.zipIdx_map_fst 0 root.preorder, List.flatMap_map]

theorem reports_unknownReferences (root : Item) :
    root.Reports (·.Unknown root) .unknownReference root.unknownReferences := by
  rw [unknownReferences_eq]
  refine reports_filterMap (fun r hr => ?_) fun r hr => ?_
  · rw [unknownReference?, if_neg]
    rw [List.contains_iff_mem, keys_eq]
    exact hr
  · rw [unknownReference?, if_pos]
    rw [List.contains_iff_mem, keys_eq]
    exact not_not.mp hr

theorem reports_forwardReferences (root : Item) :
    root.Reports (·.LooksAhead root) .forwardReference root.forwardReferences := by
  rw [forwardReferences_eq]
  refine reports_filterMap (fun r hr => ?_) fun r hr => ?_
  · obtain ⟨hother, first, hfirst, hlater⟩ := hr
    rw [forwardReference?, if_neg hother, keys_eq, hfirst]
    exact if_pos hlater
  · rw [forwardReference?, keys_eq]
    split
    · rfl
    · next hother =>
      split
      · next first hfirst => exact if_neg fun hlater => hr ⟨hother, first, hfirst, hlater⟩
      · rfl

theorem mem_duplicateKeys_iff {root : Item} {f : Finding} :
    f ∈ root.duplicateKeys ↔ ∃ key, 1 < (root.preorder.map Item.key).count key ∧
      f = ⟨key, .duplicateKey ((root.preorder.map Item.key).count key)⟩ := by
  rw [duplicateKeys, List.mem_filterMap, keys_eq]
  constructor
  · rintro ⟨⟨key, count⟩, hmem, hf⟩
    obtain ⟨-, rfl⟩ := mem_countTexts_iff.mp hmem
    obtain ⟨hcount, hf⟩ := Option.ite_none_right_eq_some.mp hf
    exact ⟨key, hcount, (Option.some.inj hf).symm⟩
  · rintro ⟨key, hcount, rfl⟩
    have hmem : key ∈ root.preorder.map Item.key := List.count_pos_iff.mp (by omega)
    exact ⟨(key, _), mem_countTexts_iff.mpr ⟨hmem, rfl⟩, if_pos hcount⟩

theorem pairwise_duplicateKeys (root : Item) :
    (root.duplicateKeys.map Finding.item).Pairwise (· < ·) := by
  rw [List.pairwise_map]
  refine (ascending_countTexts root.keys).filterMap _ fun a b hlt f hf g hg => ?_
  obtain ⟨-, hf⟩ := Option.ite_none_right_eq_some.mp hf
  obtain ⟨-, hg⟩ := Option.ite_none_right_eq_some.mp hg
  rw [← Option.some.inj hf, ← Option.some.inj hg]
  exact hlt

/-- The keys of two or more items are found once each, in ascending order and with the number of
these items. Among the reads of items by literal keys, where a key counts once for each expression,
just those of a key of no item are unknown, and just those of a key that is not the reader's own and
that first occurs after it look ahead: each of them is found once, in the order of the items, then
of the spots of their expressions, then of the first uses, and none is found by both checks. -/
theorem lint_is_exact (root : Item) :
    ((root.duplicateKeys.map Finding.item).Pairwise (· < ·) ∧
      ∀ f, f ∈ root.duplicateKeys ↔ ∃ key, 1 < (root.preorder.map Item.key).count key ∧
        f = ⟨key, .duplicateKey ((root.preorder.map Item.key).count key)⟩) ∧
    root.Reports (·.Unknown root) .unknownReference root.unknownReferences ∧
    root.Reports (·.LooksAhead root) .forwardReference root.forwardReferences ∧
    ∀ r : ItemRead, ¬ (r.Unknown root ∧ r.LooksAhead root) := by
  refine ⟨⟨root.pairwise_duplicateKeys, fun f => mem_duplicateKeys_iff⟩,
    root.reports_unknownReferences, root.reports_forwardReferences, ?_⟩
  rintro r ⟨hunknown, -, first, hfirst, -⟩
  exact hunknown (List.isSome_idxOf?.mp (Option.isSome_of_eq_some hfirst))

/-- Three questions, of which two have one key. The condition of the first reads an item that does
not exist, and its rule reads a later one. -/
def tangled : Item :=
  .group ⟨"g", 0, none, []⟩ .sequential
    [.question ⟨"a", 0, some (.call .hasResponse [.literal (.text "x"), .literal (.text "rg")]),
      [⟨"r", .hard, .call .hasResponse [.literal (.text "b"), .literal (.text "rg")]⟩]⟩ .text [],
    .question ⟨"b", 0, none, []⟩ .text [], .question ⟨"b", 0, none, []⟩ .text []]

/-- Each finding is told once, and behind each there is one read. -/
theorem tangled_is_linted :
    tangled.duplicateKeys = [⟨"b", .duplicateKey 2⟩] ∧
    tangled.unknownReferences = [⟨"a", .unknownReference .condition "x"⟩] ∧
    tangled.forwardReferences = [⟨"a", .forwardReference (.rule "r") "b"⟩] ∧
    (∃ r : ItemRead, r.key = "x" ∧ ∀ other, other = r ↔ other.In tangled ∧ other.Unknown tangled) ∧
    ∃ r : ItemRead, r.key = "b" ∧
      ∀ other, other = r ↔ other.In tangled ∧ other.LooksAhead tangled := by
  have hunknown : tangled.unknownReferences = [⟨"a", .unknownReference .condition "x"⟩] := by
    decide +kernel
  have hforward : tangled.forwardReferences = [⟨"a", .forwardReference (.rule "r") "b"⟩] := by
    decide +kernel
  obtain ⟨-, ⟨unknown, -, hunknownReads, hunknownMap⟩,
    ⟨forward, -, hforwardReads, hforwardMap⟩, -⟩ := lint_is_exact tangled
  rw [hunknown] at hunknownMap
  rw [hforward] at hforwardMap
  obtain ⟨r, rfl, hr⟩ := List.map_eq_singleton_iff.mp hunknownMap.symm
  obtain ⟨t, rfl, ht⟩ := List.map_eq_singleton_iff.mp hforwardMap.symm
  simp only [List.mem_singleton] at hunknownReads hforwardReads
  simp only [Finding.mk.injEq, Issue.unknownReference.injEq] at hr
  simp only [Finding.mk.injEq, Issue.forwardReference.injEq] at ht
  exact ⟨by decide +kernel, hunknown, hforward, ⟨r, hr.2.2, hunknownReads⟩,
    ⟨t, ht.2.2, hforwardReads⟩⟩

end Item

end Questionnaire
