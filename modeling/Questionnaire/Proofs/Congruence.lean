import Mathlib.Data.List.Forall2
import Questionnaire.Evaluation

/-! Operators evaluate their arguments and do nothing else with them: where arguments have the same
outcomes one by one, so have the calls. The evaluator of all expressions follows the law that a call
has the outcome of its operator with this very evaluator. -/
namespace Questionnaire

namespace Operator

/-- Expressions with the same outcomes, one by one, each with its own evaluator. -/
abbrev SameOutcomes (eval eval' : Expression → Outcome) :
    List Expression → List Expression → Prop :=
  List.Forall₂ fun e e' => eval e = eval' e'

section
variable {eval eval' : Expression → Outcome}

theorem conjunction_congr {es es' : List Expression} (h : SameOutcomes eval eval' es es') :
    conjunction eval es = conjunction eval' es' := by
  induction h with
  | nil => rfl
  | cons he _ ih => rw [conjunction, conjunction, he, ih]

theorem disjunction_congr {es es' : List Expression} (h : SameOutcomes eval eval' es es') :
    disjunction eval es = disjunction eval' es' := by
  induction h with
  | nil => rfl
  | cons he _ ih => rw [disjunction, disjunction, he, ih]

theorem mapM_congr {α : Type} {f g : Expression → Except Error α} {es es' : List Expression}
    (h : List.Forall₂ (fun e e' => f e = g e') es es') : es.mapM f = es'.mapM g := by
  induction h with
  | nil => rfl
  | cons he _ ih => rw [List.mapM_cons, List.mapM_cons, he, ih]

variable (op : Operator) (ctx : Context) {e₁ e₁' e₂ e₂' e₃ e₃' : Expression}
  (h₁ : eval e₁ = eval' e₁') (h₂ : eval e₂ = eval' e₂') (h₃ : eval e₃ = eval' e₃')
include h₁

theorem definedness_congr : definedness eval e₁ = definedness eval' e₁' := by
  rw [definedness, definedness, h₁]

theorem textOf_congr : op.textOf eval e₁ = op.textOf eval' e₁' := by
  rw [textOf, textOf, h₁]

theorem keyOf_congr : op.keyOf eval e₁ = op.keyOf eval' e₁' := by
  rw [keyOf, keyOf, h₁]

theorem laterTime_congr {base base' : Option Expression}
    (hbase : Option.Rel (fun e e' => eval e = eval' e') base base') :
    op.laterTime eval ctx e₁ base = op.laterTime eval' ctx e₁' base' := by
  rw [laterTime, laterTime, h₁]
  cases hbase with
  | none => rfl
  | some he => simp only [he]

include h₂

theorem comparison_congr : op.comparison eval e₁ e₂ = op.comparison eval' e₁' e₂' := by
  rw [comparison, comparison, h₁, h₂]

theorem nodeOf_congr : op.nodeOf eval ctx e₁ e₂ = op.nodeOf eval' ctx e₁' e₂' := by
  rw [nodeOf, nodeOf, textOf_congr op h₁, textOf_congr op h₂]

theorem leafValueOf_congr : op.leafValueOf eval ctx e₁ e₂ = op.leafValueOf eval' ctx e₁' e₂' := by
  rw [leafValueOf, leafValueOf, nodeOf_congr op ctx h₁ h₂]

theorem selects_congr {keys keys' : List Expression} (hkeys : SameOutcomes eval eval' keys keys')
    (relation : List String → List String → Bool) :
    op.selects eval ctx e₁ e₂ keys relation = op.selects eval' ctx e₁' e₂' keys' relation := by
  have hkeys : keys.mapM (op.keyOf eval) = keys'.mapM (op.keyOf eval') :=
    mapM_congr (hkeys.imp fun _ _ h => keyOf_congr op h)
  rw [selects, selects, textOf_congr op h₁, textOf_congr op h₂, hkeys]

theorem responseValue_congr :
    op.responseValue eval ctx e₁ e₂ = op.responseValue eval' ctx e₁' e₂' := by
  rw [responseValue, responseValue, textOf_congr op h₁, textOf_congr op h₂]

theorem fieldOf_congr : op.fieldOf eval e₁ e₂ = op.fieldOf eval' e₁' e₂' := by
  rw [fieldOf, fieldOf, h₁, textOf_congr op h₂]

theorem flagEquals_congr : op.flagEquals eval ctx e₁ e₂ = op.flagEquals eval' ctx e₁' e₂' := by
  rw [flagEquals, flagEquals, textOf_congr op h₁, h₂]

include h₃

theorem responseDateDifference_congr {absolute absolute' : Option Expression}
    (habsolute : Option.Rel (fun e e' => eval e = eval' e') absolute absolute') :
    op.responseDateDifference eval ctx e₁ e₂ e₃ absolute =
      op.responseDateDifference eval' ctx e₁' e₂' e₃' absolute' := by
  rw [responseDateDifference, responseDateDifference, textOf_congr op h₁, textOf_congr op h₂,
    textOf_congr op h₃]
  cases habsolute with
  | none => rfl
  | some he => simp only [he]

end

/-- Where operators are given as many arguments as they accept, arguments with the same outcomes
make no difference, whatever they look like. -/
theorem operate_congr {eval eval' : Expression → Outcome} (ctx : Context) (op : Operator)
    {es es' : List Expression} (haccepts : op.arity.accepts es.length = true)
    (h : SameOutcomes eval eval' es es') :
    op.operate eval ctx es = op.operate eval' ctx es' := by
  -- The accepted number fixes the shape of the arguments, so that no operator is left without one.
  cases op
  case and => exact congrArg (Except.map Value.bool) (conjunction_congr h)
  case or => exact congrArg (Except.map Value.bool) (disjunction_congr h)
  case sum =>
    have hvalues : es.mapM eval = es'.mapM eval' := mapM_congr h
    simp only [operate, hvalues]
  case getContext =>
    obtain rfl := List.length_eq_zero_iff.mp (Arity.accepts_exactly.mp haccepts)
    cases h
    rfl
  case not | isDefined | hasParticipantFlag =>
    obtain ⟨e, rfl⟩ := List.length_eq_one_iff.mp (Arity.accepts_exactly.mp haccepts)
    obtain _ | ⟨h₁, _ | _⟩ := h
    simp only [operate, h₁, definedness_congr h₁, textOf_congr _ h₁]
  case responseHasKeysAny | responseHasKeysAll | responseHasOnlyKeysOtherThan =>
    have hlength := Arity.accepts_atLeast.mp haccepts
    obtain _ | ⟨h₁, _ | ⟨h₂, hkeys⟩⟩ := h
    case nil | cons.nil =>
      simp only [List.length_cons, List.length_nil] at hlength
      omega
    simp only [operate, selects_congr _ ctx h₁ h₂ hkeys]
  case timestampWithOffset =>
    have hlength := Arity.accepts_between.mp haccepts
    obtain _ | ⟨h₁, _ | ⟨h₂, _ | ⟨h₃, hrest⟩⟩⟩ := h
    case nil | cons.cons.cons =>
      simp only [List.length_cons, List.length_nil] at hlength
      omega
    case cons.nil => exact laterTime_congr _ ctx h₁ .none
    case cons.cons.nil => exact laterTime_congr _ ctx h₁ (.some h₂)
  case dateResponseDiffFromNow =>
    have hlength := Arity.accepts_between.mp haccepts
    obtain _ | ⟨h₁, _ | ⟨h₂, _ | ⟨h₃, _ | ⟨h₄, _ | ⟨h₅, hrest⟩⟩⟩⟩⟩ := h
    case nil | cons.nil | cons.cons.nil | cons.cons.cons.cons.cons =>
      simp only [List.length_cons, List.length_nil] at hlength
      omega
    case cons.cons.cons.nil => exact responseDateDifference_congr _ ctx h₁ h₂ h₃ .none
    case cons.cons.cons.cons.nil =>
      exact responseDateDifference_congr _ ctx h₁ h₂ h₃ (.some h₄)
  -- All others take two arguments.
  all_goals
    obtain ⟨e₁, e₂, rfl⟩ := List.length_eq_two.mp (Arity.accepts_exactly.mp haccepts)
    obtain _ | ⟨h₁, _ | ⟨h₂, _ | _⟩⟩ := h
  case eq => simp only [operate, h₁, h₂]
  case lt | lte | gt | gte =>
    exact congrArg (Except.map Value.bool) (comparison_congr _ h₁ h₂)
  case hasResponse => simp only [operate, nodeOf_congr _ ctx h₁ h₂]
  case getResponseItem => exact responseValue_congr _ ctx h₁ h₂
  case getResponseValueAsNum =>
    simp only [operate, responseNumber, leafValueOf_congr _ ctx h₁ h₂]
  case getResponseValueAsStr =>
    simp only [operate, responseText, leafValueOf_congr _ ctx h₁ h₂]
  case countResponseItems => simp only [operate, responseCount, nodeOf_congr _ ctx h₁ h₂]
  case getAttribute => exact fieldOf_congr _ h₁ h₂
  case hasParticipantFlagKeyAndValue =>
    exact congrArg (Except.map Value.bool) (flagEquals_congr _ ctx h₁ h₂)

theorem apply_congr {eval eval' : Expression → Outcome} (ctx : Context) (op : Operator)
    {es es' : List Expression} (h : SameOutcomes eval eval' es es') :
    op.apply eval ctx es = op.apply eval' ctx es' := by
  rw [apply, apply, ← h.length_eq]
  split
  · next haccepts => exact operate_congr ctx op haccepts h
  · rfl

end Operator

namespace Expression
open Operator
variable {ctx : Context}

theorem depth_le_depthAll {e : Expression} {es : List Expression} (h : e ∈ es) :
    e.depth ≤ depthAll es := by
  induction es with
  | nil => cases h
  | cons first rest ih =>
    rw [depthAll]
    rcases List.mem_cons.mp h with rfl | hrest
    · exact Nat.le_max_left _ _
    · exact Nat.le_trans (ih hrest) (Nat.le_max_right _ _)

/-- It makes no difference what greater depth an expression is evaluated within. -/
theorem evaluateWithin_eq {e : Expression} {m n : Nat} (hm : e.depth ≤ m) (hn : e.depth ≤ n) :
    evaluateWithin ctx m e = evaluateWithin ctx n e := by
  induction m generalizing e n with
  | zero =>
    cases e with
    | literal v => simp only [evaluateWithin]
    | call op arguments => exact absurd hm (Nat.not_succ_le_zero _)
  | succ m ih =>
    cases e with
    | literal v => simp only [evaluateWithin]
    | call op arguments =>
      cases n with
      | zero => exact absurd hn (Nat.not_succ_le_zero _)
      | succ n =>
        refine apply_congr ctx op (List.forall₂_same.mpr fun e he => ?_)
        have hdepth := depth_le_depthAll he
        exact ih (Nat.le_trans hdepth (Nat.le_of_succ_le_succ hm))
          (Nat.le_trans hdepth (Nat.le_of_succ_le_succ hn))

@[simp] theorem textOf_literal (op : Operator) (ctx : Context) (s : String) :
    op.textOf (evaluate ctx) (literal (.text s)) = .ok s := rfl

/-- A call has the outcome that its operator gives with the evaluator for arguments. -/
theorem evaluate_call (ctx : Context) (op : Operator) (arguments : List Expression) :
    (call op arguments).evaluate ctx = op.apply (evaluate ctx) ctx arguments :=
  apply_congr ctx op (List.forall₂_same.mpr fun _ he =>
    evaluateWithin_eq (depth_le_depthAll he) (Nat.le_refl _))

theorem evaluate_call_of_accepts {op : Operator} {arguments : List Expression}
    (haccepts : op.arity.accepts arguments.length = true) :
    (call op arguments).evaluate ctx = op.operate (evaluate ctx) ctx arguments := by
  rw [evaluate_call, apply, if_pos haccepts]

/-- Calls whose arguments have the same outcomes have the same outcome. -/
theorem evaluate_call_congr (op : Operator) {es es' : List Expression}
    (h : SameOutcomes (evaluate ctx) (evaluate ctx) es es') :
    (call op es).evaluate ctx = (call op es').evaluate ctx := by
  rw [evaluate_call, evaluate_call, apply_congr ctx op h]

end Expression

end Questionnaire
