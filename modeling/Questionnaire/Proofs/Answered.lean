import Questionnaire.Evaluation
import Questionnaire.Expression.Build
import Questionnaire.Proofs.Written

/-! Whether an item is answered, by the leaves of its answer as they are written. -/
namespace Questionnaire

namespace Written

/-- A node is a leaf whose value suits, or there is such a leaf somewhere beneath it. -/
inductive HasLeaf (suits : Option Json → Prop) : Json → Prop
  | here {j : Json} (hi : items? j = none) (hv : suits (value? j)) : HasLeaf suits j
  | beneath {j c : Json} {items : List Json} (hi : items? j = some items) (hc : c ∈ items)
      (hl : HasLeaf suits c) : HasLeaf suits j

/-- No value at all, or one other than null and the empty text. -/
def Live (value : Option Json) : Prop := value ≠ some .null ∧ value ≠ some (.string "")

namespace HasLeaf
variable {suits : Option Json → Prop} {j : Json} {items : List Json}

theorem iff_of_leaf (hi : items? j = none) : HasLeaf suits j ↔ suits (value? j) := by
  constructor
  · intro h
    cases h with
    | here _ hv => exact hv
    | beneath hj _ _ => simp [hi] at hj
  · exact .here hi

theorem iff_of_group (hi : items? j = some items) :
    HasLeaf suits j ↔ ∃ c ∈ items, HasLeaf suits c := by
  constructor
  · intro h
    cases h with
    | here hj _ => simp [hi] at hj
    | @beneath _ c _ hj hc hl =>
      rw [hi] at hj
      obtain rfl := Option.some.inj hj
      exact ⟨c, hc, hl⟩
  · rintro ⟨c, hc, hl⟩
    exact .beneath hi hc hl

theorem mono {suits' : Option Json → Prop} (h : ∀ v, suits v → suits' v) (hl : HasLeaf suits j) :
    HasLeaf suits' j := by
  induction hl with
  | here hi hv => exact .here hi (h _ hv)
  | beneath hi hc _ ih => exact .beneath hi hc ih

/-- Where a leaf suits one of two conditions, some leaf suits the one or some leaf the other. -/
theorem or_iff {p q : Option Json → Prop} :
    HasLeaf (fun v => p v ∨ q v) j ↔ HasLeaf p j ∨ HasLeaf q j := by
  constructor
  · intro h
    induction h with
    | here hi hv => exact hv.imp (.here hi) (.here hi)
    | beneath hi hc _ ih => exact ih.imp (.beneath hi hc) (.beneath hi hc)
  · rintro (h | h)
    · exact h.mono fun _ => .inl
    · exact h.mono fun _ => .inr

end HasLeaf

end Written

namespace ResponseNode
open Written

/-- A value other than null makes a leaf empty if it is the empty text. -/
theorem isEmpty_leaf_iff (key : String) {w : Json} {v : Value} (hnull : w ≠ .null)
    (hread : Value.ofJson w = .ok v) :
    (leaf key (some v)).isEmpty = false ↔ some w ≠ some (.string "") := by
  cases w with
  | null => exact absurd rfl hnull
  | bool b =>
    obtain rfl := Except.ok.inj hread
    simp [isEmpty]
  | number n =>
    obtain ⟨d, -, rfl⟩ := exists_of_map_eq_ok hread
    simp [isEmpty]
  | string s =>
    obtain rfl := Except.ok.inj hread
    simp [isEmpty]
  | array items => cases hread
  | object members =>
    rw [Value.ofJson] at hread
    obtain ⟨fields, -, rfl⟩ := exists_of_map_eq_ok hread
    simp [isEmpty]

mutual

/-- A node is empty unless it has a leaf whose value is other than the empty text. -/
theorem WrittenAs.isEmpty_iff {node : ResponseNode} {j : Json} (h : node.WrittenAs j) :
    node.isEmpty = false ↔ HasLeaf (· ≠ some (.string "")) j := by
  cases node with
  | leaf key value =>
    cases value with
    | none =>
      obtain ⟨-, hi, hv⟩ := h
      refine iff_of_true rfl (.here hi ?_)
      rcases hv with hv | hv <;> simp [hv]
    | some v =>
      obtain ⟨-, hi, w, hw, hnull, hread⟩ := h
      rw [HasLeaf.iff_of_leaf hi, hw]
      exact isEmpty_leaf_iff key hnull hread
  | group key nodes =>
    obtain ⟨-, items, hi, hitems⟩ := h
    rw [HasLeaf.iff_of_group hi, isEmpty]
    exact hitems.allEmpty_iff

theorem AreWrittenAs.allEmpty_iff {nodes : List ResponseNode} {items : List Json}
    (h : AreWrittenAs nodes items) :
    allEmpty nodes = false ↔ ∃ c ∈ items, HasLeaf (· ≠ some (.string "")) c := by
  cases nodes with
  | nil =>
    cases items with
    | nil => simp [allEmpty]
    | cons j items => exact h.elim
  | cons node nodes =>
    cases items with
    | nil => exact h.elim
    | cons j items =>
      obtain ⟨hnode, hnodes⟩ := h
      rw [allEmpty, Bool.and_eq_false_iff, hnode.isEmpty_iff, hnodes.allEmpty_iff]
      simp

end

end ResponseNode

namespace Expression
open Written

theorem evaluate_hasResponse (ctx : Context) (item path : String) :
    (hasResponse item path).evaluate ctx =
      .ok (.bool ((ctx.node? item path).any fun node => !node.isEmpty)) :=
  rfl

theorem live_or_null_iff (value : Option Json) :
    Live value ∨ value = some .null ↔ value ≠ some (.string "") := by
  unfold Live
  by_cases h : value = some .null
  · subst h
    simp
  · simp [h]

/-- A node that is not empty has a leaf that counts: one that is live, or has null for its value. -/
theorem any_node?_iff {document : Json} {now : Int64} {ctx : Context}
    (h : Context.ofJson document now = .ok ctx) (item path : String) :
    ((ctx.node? item path).any fun node => !node.isEmpty) = true ↔
      ∃ target, node? document item path = some target ∧
        (HasLeaf Live target ∨ HasLeaf (· = some .null) target) := by
  have hnode := Context.node?_writtenAs h item path
  generalize ctx.node? item path = node, node? document item path = target at hnode ⊢
  cases hnode with
  | none => simp
  | @some node target hwritten =>
    rw [Option.any_some, Bool.not_eq_true', hwritten.isEmpty_iff]
    simp only [← live_or_null_iff, HasLeaf.or_iff, Option.some.injEq, exists_eq_left']

/-- An answer counts as a response if it has a live leaf or one with null for its value. To have a
live leaf is the same just where a leaf with null is never the only one to count. -/
theorem hasResponse_of_document {document : Json} {now : Int64} {ctx : Context}
    (h : Context.ofJson document now = .ok ctx) (item path : String) :
    ∃ b, (hasResponse item path).evaluate ctx = .ok (.bool b) ∧
      (b = true ↔ ∃ target, node? document item path = some target ∧
        (HasLeaf Live target ∨ HasLeaf (· = some .null) target)) ∧
      ((b = true ↔ ∃ target, node? document item path = some target ∧ HasLeaf Live target) ↔
        ∀ target, node? document item path = some target → HasLeaf (· = some .null) target →
          HasLeaf Live target) := by
  have htrue := any_node?_iff h item path
  refine ⟨_, evaluate_hasResponse ctx item path, htrue, ?_⟩
  rw [htrue]
  constructor
  · intro hiff target htarget hnull
    obtain ⟨t, ht, hlive⟩ := hiff.mp ⟨target, htarget, .inr hnull⟩
    rw [htarget] at ht
    obtain rfl := Option.some.inj ht
    exact hlive
  · intro hall
    constructor
    · rintro ⟨target, htarget, hlive | hnull⟩
      · exact ⟨target, htarget, hlive⟩
      · exact ⟨target, htarget, hall target htarget hnull⟩
    · rintro ⟨target, htarget, hlive⟩
      exact ⟨target, htarget, .inl hlive⟩

/-- A document with one answer: a group of one leaf, with a value. -/
def answerOf (value : Json) : Json :=
  .object [("responses", .array [.object [("key", .string "q"), ("response",
    .object [("items", .array [.object [("key", .string "text"), ("value", value)]]),
      ("key", .string "rg")])]])]

theorem hasResponse_of_text :
    Context.ofJson (answerOf (.string "yes")) 0 =
        .ok ⟨[("q", .group "rg" [.leaf "text" (some (.text "yes"))])], [], none, 0⟩ ∧
      ∃ b, (hasResponse "q" "rg").evaluate
          ⟨[("q", .group "rg" [.leaf "text" (some (.text "yes"))])], [], none, 0⟩ = .ok (.bool b) ∧
        (b = true ↔ ∃ target, node? (answerOf (.string "yes")) "q" "rg" = some target ∧
          (HasLeaf Live target ∨ HasLeaf (· = some .null) target)) := by
  have h : Context.ofJson (answerOf (.string "yes")) 0 =
      .ok ⟨[("q", .group "rg" [.leaf "text" (some (.text "yes"))])], [], none, 0⟩ := rfl
  obtain ⟨b, hb, htrue, -⟩ := hasResponse_of_document h "q" "rg"
  exact ⟨h, b, hb, htrue⟩

/-- An answer of which the only leaf has null for its value counts, though no leaf is live. -/
theorem null_counts_as_response :
    ∃ ctx target, Context.ofJson (answerOf .null) 0 = .ok ctx ∧
      (hasResponse "q" "rg").evaluate ctx = .ok (.bool true) ∧
      node? (answerOf .null) "q" "rg" = some target ∧ ¬ HasLeaf Live target := by
  refine ⟨⟨[("q", .group "rg" [.leaf "text" none])], [], none, 0⟩, _, rfl, rfl, rfl, ?_⟩
  intro h
  have hitems : items? (.object [("items", .array [.object [("key", .string "text"),
      ("value", .null)]]), ("key", .string "rg")]) =
      some [.object [("key", .string "text"), ("value", .null)]] := rfl
  obtain ⟨leaf, hleaf, hlive⟩ := (HasLeaf.iff_of_group hitems).mp h
  obtain rfl := List.mem_singleton.mp hleaf
  have hnone : items? (.object [("key", .string "text"), ("value", .null)]) = none := rfl
  exact ((HasLeaf.iff_of_leaf hnone).mp hlive).1 rfl

end Expression

end Questionnaire
