import Questionnaire.Proofs.Answered
import Questionnaire.Proofs.Selection

/-! Answers that were cleared. A node can have children and be empty all the same: then its children
are selected options other than any that are not among them, but there is no response. -/
namespace Questionnaire

namespace ResponseNode

/-- At a node or beneath it is a leaf without a value, or with one other than null and the empty
text. -/
inductive HasLiveLeaf : ResponseNode → Prop
  | here {key : String} {value : Option Value} (hnull : value ≠ some .null)
      (htext : value ≠ some (.text "")) : HasLiveLeaf (leaf key value)
  | beneath {key : String} {child : ResponseNode} {children : List ResponseNode}
      (hchild : child ∈ children) (h : HasLiveLeaf child) : HasLiveLeaf (group key children)

theorem hasLiveLeaf_leaf_iff {key : String} {value : Option Value} :
    (leaf key value).HasLiveLeaf ↔ value ≠ some .null ∧ value ≠ some (.text "") := by
  constructor
  · intro h
    cases h with
    | here hnull htext => exact ⟨hnull, htext⟩
  · rintro ⟨hnull, htext⟩
    exact .here hnull htext

theorem hasLiveLeaf_group_iff {key : String} {children : List ResponseNode} :
    (group key children).HasLiveLeaf ↔ ∃ child ∈ children, child.HasLiveLeaf := by
  constructor
  · intro h
    cases h with
    | beneath hchild hlive => exact ⟨_, hchild, hlive⟩
  · rintro ⟨child, hchild, hlive⟩
    exact .beneath hchild hlive

mutual

theorem isEmpty_eq_false_iff (node : ResponseNode) :
    node.isEmpty = false ↔ node.HasLiveLeaf := by
  cases node with
  | leaf key value =>
    rw [hasLiveLeaf_leaf_iff]
    cases value with
    | none => simp [isEmpty]
    | some v => cases v <;> simp [isEmpty]
  | group key children =>
    rw [isEmpty, hasLiveLeaf_group_iff]
    exact allEmpty_eq_false_iff children

theorem allEmpty_eq_false_iff (nodes : List ResponseNode) :
    allEmpty nodes = false ↔ ∃ node ∈ nodes, node.HasLiveLeaf := by
  cases nodes with
  | nil => simp [allEmpty]
  | cons node rest =>
    rw [allEmpty, Bool.and_eq_false_iff, isEmpty_eq_false_iff node, allEmpty_eq_false_iff rest]
    simp

end

theorem hasLiveLeaf_iff_of_children {node : ResponseNode} (h : node.children ≠ []) :
    node.HasLiveLeaf ↔ ∃ child ∈ node.children, child.HasLiveLeaf := by
  cases node with
  | leaf key value => exact absurd rfl h
  | group key children => exact hasLiveLeaf_group_iff

end ResponseNode

namespace Expression

theorem hasResponse_iff (ctx : Context) (item path : String) :
    ((ctx.node? item path).any fun node => !node.isEmpty) = true ↔
      ∃ node, ctx.node? item path = some node ∧ node.HasLiveLeaf := by
  cases ctx.node? item path with
  | none => simp
  | some node => simp [ResponseNode.isEmpty_eq_false_iff]

theorem noneOf_selectedKeys_iff (ctx : Context) (item path : String) (names : List String) :
    Operator.noneOf names (ctx.selectedKeys item path) = true ↔
      ∃ node, ctx.node? item path = some node ∧ node.children ≠ [] ∧
        ∀ child ∈ node.children, child.key ∉ names := by
  rw [Operator.noneOf_iff, Context.selectedKeys]
  cases ctx.node? item path with
  | none => simp
  | some node =>
    have hchildren : node.selectedKeys ≠ [] ↔ node.children ≠ [] :=
      not_congr List.map_eq_nil_iff
    have hnames : (∀ name ∈ names, name ∉ node.selectedKeys) ↔
        ∀ child ∈ node.children, child.key ∉ names := by
      constructor
      · intro h child hchild hname
        exact h child.key hname (List.mem_map_of_mem hchild)
      · intro h name hname hselected
        obtain ⟨child, hchild, rfl⟩ := List.mem_map.mp hselected
        exact h child hchild hname
    rw [Option.elim_some, hchildren, hnames]
    simp only [Option.some.injEq, exists_eq_left']

/-- All selected keys are others just where a node has children and none of them is listed, and
there is a response just where a node has a live leaf. So the first goes with the second exactly
where one of such children has a live leaf; if all of them were cleared it does not. -/
theorem others_with_response_iff (ctx : Context) (item path : String) (keys : List OptionKey) :
    ∃ other response : Bool,
      (onOptions .responseHasOnlyKeysOtherThan item path keys).evaluate ctx = .ok (.bool other) ∧
      (hasResponse item path).evaluate ctx = .ok (.bool response) ∧
      (other = true ↔ ∃ node, ctx.node? item path = some node ∧ node.children ≠ [] ∧
        ∀ child ∈ node.children, child.key ∉ keys.map OptionKey.name) ∧
      (response = true ↔ ∃ node, ctx.node? item path = some node ∧ node.HasLiveLeaf) ∧
      ((other = true → response = true) ↔
        ∀ node, ctx.node? item path = some node → node.children ≠ [] →
          (∀ child ∈ node.children, child.key ∉ keys.map OptionKey.name) →
            ∃ child ∈ node.children, child.HasLiveLeaf) := by
  have hother := noneOf_selectedKeys_iff ctx item path (keys.map OptionKey.name)
  have hresponse := hasResponse_iff ctx item path
  refine ⟨_, _, evaluate_onOptions ctx item path keys rfl (fun _ _ _ => rfl) Operator.noneOf_nil,
    evaluate_hasResponse ctx item path, hother, hresponse, ?_⟩
  rw [hother, hresponse]
  constructor
  · intro himp node hnode hchildren hothers
    obtain ⟨found, hfound, hlive⟩ := himp ⟨node, hnode, hchildren, hothers⟩
    obtain rfl : node = found := Option.some.inj (hnode.symm.trans hfound)
    exact (ResponseNode.hasLiveLeaf_iff_of_children hchildren).mp hlive
  · rintro hall ⟨node, hnode, hchildren, hothers⟩
    have hlive := hall node hnode hchildren hothers
    exact ⟨node, hnode, (ResponseNode.hasLiveLeaf_iff_of_children hchildren).mpr hlive⟩

/-- Where the selected options carry no values, other options are a response. -/
theorem other_option_is_response :
    (onOptions .responseHasOnlyKeysOtherThan "q" "rg.mcg" [.text "2"]).evaluate chosenContext =
        .ok (.bool true) ∧
      (hasResponse "q" "rg.mcg").evaluate chosenContext = .ok (.bool true) := by
  obtain ⟨other, response, hother, hresponse, hothers, -, himp⟩ :=
    others_with_response_iff chosenContext "q" "rg.mcg" [.text "2"]
  have hnode : chosenContext.node? "q" "rg.mcg" =
      some (.group "mcg" [.leaf "1" none, .leaf "3" none]) := rfl
  obtain rfl : other = true := hothers.mpr ⟨_, hnode, by decide, by decide⟩
  obtain rfl : response = true := by
    refine himp.mpr ?_ rfl
    intro node hfound _ _
    obtain rfl := Option.some.inj (hnode.symm.trans hfound)
    have hlive : (ResponseNode.leaf "1" none).HasLiveLeaf := .here (by simp) (by simp)
    exact ⟨_, List.mem_cons_self, hlive⟩
  exact ⟨hother, hresponse⟩

/-- A cleared text counts as an option other than the listed one, though there is no response. -/
theorem cleared_text_is_other :
    ∃ ctx, Context.ofJson (answerOf (.string "")) 0 = .ok ctx ∧
      (onOptions .responseHasOnlyKeysOtherThan "q" "rg" [.text "1"]).evaluate ctx =
        .ok (.bool true) ∧
      (hasResponse "q" "rg").evaluate ctx = .ok (.bool false) :=
  ⟨⟨[("q", .group "rg" [.leaf "text" (some (.text ""))])], [], none, 0⟩, rfl, rfl, rfl⟩

end Expression

end Questionnaire
