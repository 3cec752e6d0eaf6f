import Questionnaire.Proofs.Agreement
import Questionnaire.Proofs.Loaded
import Questionnaire.Proofs.Outcomes
import Questionnaire.Proofs.Submission

/-! What can go wrong with what was loaded: the faults of expressions, of walks and of option states
are faults of evaluation, and none of loading. -/
namespace Questionnaire
open Occurrence

namespace Error

/-- The faults that data can cause in an expression that was loaded. -/
def isEvaluationFault : Error → Bool
  | .typeError _ _ => true
  | .missingResponse _ => true
  | .missingNode _ _ => true
  | .missingAttribute _ => true
  | .overflow _ => true
  | _ => false

/-- A condition that is named by a key has a fault of evaluation. -/
def IsConditionOf (key : String) (err : Error) : Prop :=
  ∃ source, err = .condition key source ∧ source.isEvaluationFault = true

end Error

namespace Operator

theorem isEvaluationFault_of_mayFail {op : Operator} {err : Error} (h : op.mayFail err = true) :
    err.isEvaluationFault = true := by
  cases err <;> first | rfl | cases h

/-- Only two operators report that data is absent. -/
theorem eq_of_mayFail_of_isAbsence {op : Operator} {err : Error} (h : op.mayFail err = true)
    (habsence : err.isAbsence = true) : op = .getResponseItem ∨ op = .getAttribute := by
  cases err with
  | missingResponse item => exact .inl (of_decide_eq_true h)
  | missingNode item path => exact .inl (of_decide_eq_true h)
  | missingAttribute name => exact .inr (of_decide_eq_true h)
  | _ => cases habsence

end Operator

namespace Expression

/-- An expression stands somewhere in another. -/
inductive Within (x : Expression) : Expression → Prop
  | self : Within x x
  | argument {op : Operator} {arguments : List Expression} {a : Expression} (ha : a ∈ arguments)
      (hx : Within x a) : Within x (.call op arguments)

theorem wellFormed_of_mem {es : List Expression} (h : allWellFormed es = true) {e : Expression}
    (he : e ∈ es) : e.wellFormed = true := by
  induction es with
  | nil => cases he
  | cons first rest ih =>
    obtain ⟨hfirst, hrest⟩ := Bool.and_eq_true_iff.mp h
    rcases List.mem_cons.mp he with rfl | he
    · exact hfirst
    · exact ih hrest he

theorem Within.wellFormed {x e : Expression} (hx : x.Within e) (h : e.wellFormed = true) :
    x.wellFormed = true := by
  induction hx with
  | self => exact h
  | argument ha _ ih => exact ih (wellFormed_of_mem (Bool.and_eq_true_iff.mp h).2 ha)

/-- The fault of a call that is well formed is that of an argument or its operator's own. -/
theorem yields_call (ctx : Context) {op : Operator} {arguments : List Expression}
    (h : (call op arguments).wellFormed = true) :
    Yields ((call op arguments).evaluate ctx)
      (fun err => (∃ e ∈ arguments, e.evaluate ctx = .error err) ∨ op.mayFail err = true)
      (·.kind ∈ op.resultKinds) := by
  have haccepts : op.arity.accepts arguments.length = true := (Bool.and_eq_true_iff.mp h).1
  rw [evaluate_call_of_accepts haccepts]
  exact op.yields_operate (evaluate ctx) ctx haccepts

mutual

/-- The fault of an expression is the own fault of a call in it. -/
theorem exists_call_of_error {ctx : Context} {e : Expression} (hwell : e.wellFormed = true)
    {err : Error} (h : e.evaluate ctx = .error err) :
    ∃ op arguments, (call op arguments).Within e ∧ op.mayFail err = true := by
  cases e with
  | literal v => cases h
  | call op arguments =>
    rcases (yields_call ctx hwell).of_error h with ⟨a, ha, hargument⟩ | hown
    · obtain ⟨inner, args, hin, hfail⟩ :=
        exists_call_of_mem (Bool.and_eq_true_iff.mp hwell).2 ha hargument
      exact ⟨inner, args, .argument ha hin, hfail⟩
    · exact ⟨op, arguments, .self, hown⟩

theorem exists_call_of_mem {ctx : Context} {es : List Expression}
    (hwell : allWellFormed es = true) {e : Expression} (he : e ∈ es) {err : Error}
    (h : e.evaluate ctx = .error err) :
    ∃ op arguments, (call op arguments).Within e ∧ op.mayFail err = true := by
  cases es with
  | nil => cases he
  | cons first rest =>
    obtain ⟨hfirst, hrest⟩ := Bool.and_eq_true_iff.mp hwell
    rcases List.mem_cons.mp he with heq | he
    · rw [heq] at h ⊢
      exact exists_call_of_error hfirst h
    · exact exists_call_of_mem hrest he h

end

variable {ctx : Context} {e : Expression} (he : e.Checked)
include he

theorem Checked.isEvaluationFault {err : Error} (h : e.evaluate ctx = .error err) :
    err.isEvaluationFault = true := by
  obtain ⟨op, -, -, hfail⟩ := exists_call_of_error he.wellFormed h
  exact Operator.isEvaluationFault_of_mayFail hfail

theorem Checked.exists_read_of_isAbsence {err : Error} (h : e.evaluate ctx = .error err)
    (habsence : err.isAbsence = true) :
    ∃ op arguments, (call op arguments).Within e ∧
      (op = .getResponseItem ∨ op = .getAttribute) := by
  obtain ⟨op, arguments, hin, hfail⟩ := exists_call_of_error he.wellFormed h
  exact ⟨op, arguments, hin, Operator.eq_of_mayFail_of_isAbsence hfail habsence⟩

theorem Checked.kind_mem_resultKinds {op : Operator} {arguments : List Expression}
    (hin : (call op arguments).Within e) {v : Value}
    (h : (call op arguments).evaluate ctx = .ok v) : v.kind ∈ op.resultKinds :=
  (yields_call ctx (hin.wellFormed he.wellFormed)).of_ok h

theorem Checked.yields_evaluateBool (ctx : Context) :
    Yields (e.evaluateBool ctx) (·.isEvaluationFault = true) fun _ => True := by
  have hvalue : Yields (e.evaluate ctx) (·.isEvaluationFault = true) fun _ => True := by
    cases h : e.evaluate ctx with
    | ok v => trivial
    | error err => exact he.isEvaluationFault h
  exact hvalue.bind fun v _ => Value.yields_asBool (fun _ _ => rfl) "condition" v

end Expression

namespace Item
variable (ctx : Context) (seeder : Seeder)

theorem Checked.yields_isVisible {item : Item} (h : item.Checked) :
    Yields (item.isVisible ctx) (·.IsConditionOf item.key) fun _ => True := by
  unfold isVisible
  split
  · trivial
  · next condition hc =>
    have hbool := (h _ (mem_expressions_of_condition hc)).yields_evaluateBool ctx
    split
    · trivial
    · next source hsource => exact ⟨source, rfl, hbool.of_error hsource⟩

theorem yields_holds (key option : String) (absent : Bool) {condition : Option Expression}
    (h : ∀ e ∈ condition, e.Checked) :
    Yields (Choice.holds ctx key option absent condition) (·.IsConditionOf (key ++ "." ++ option))
      fun _ => True := by
  unfold Choice.holds
  split
  · trivial
  · next e =>
    have hbool := (h e rfl).yields_evaluateBool ctx
    split
    · trivial
    · next source hsource => exact ⟨source, rfl, hbool.of_error hsource⟩

theorem Checked.yields_optionStates {item : Item} (h : item.Checked) :
    Yields (item.optionStates ctx)
      (fun err => ∃ c ∈ item.options, err.IsConditionOf (item.key ++ "." ++ c.key))
      fun _ => True := by
  refine .mapM fun c hc => ?_
  have hdisplay : ∀ e ∈ c.displayCondition, e.Checked :=
    fun e he => h _ (mem_expressions_of_display hc he)
  have hdisabled : ∀ e ∈ c.disabled, e.Checked :=
    fun e he => h _ (mem_expressions_of_disabled hc he)
  have hstate : Yields (c.state ctx item.key) (·.IsConditionOf (item.key ++ "." ++ c.key))
      fun _ => True := by
    refine .bind (yields_holds ctx _ _ _ hdisplay) fun visible _ => ?_
    exact .bind (yields_holds ctx _ _ _ hdisabled) fun disabled _ => trivial
  exact hstate.imp (fun err herr => ⟨c, hc, herr⟩) fun _ h => h

variable {root : Item} (h : ∀ item ∈ root.descendants, item.Checked)
include h

/-- A walk passes items of the tree, or it fails with the condition of one. -/
theorem yields_items (scope : Walk.Scope) :
    Yields (Walk.items ⟨ctx, seeder, scope⟩ root)
      (fun err => ∃ item ∈ root.descendants, err.IsConditionOf item.key)
      (∀ item ∈ ·, item ∈ root.descendants) := by
  cases hf : (root.shown ctx seeder).failure with
  | some f =>
    rw [items_of_error hf]
    obtain ⟨hin, hv⟩ := isVisible_of_failure hf
    have hmem : f.1.item ∈ root.descendants := List.mem_of_getElem? hin.getElem?
    exact ⟨_, hmem, ((h _ hmem).yields_isVisible ctx).of_error hv⟩
  | none =>
    rw [items_of_none hf]
    intro x hx
    obtain ⟨o, ho, rfl⟩ := List.mem_map.mp hx
    exact List.mem_of_getElem? (in_of_mem_passed (List.mem_filter.mp ho).1).getElem?

/-- The pages are split from a walk, and have no faults but those of the walk. -/
theorem yields_pages : Yields (root.pages ctx seeder)
    (fun err => ∃ item ∈ root.descendants, err.IsConditionOf item.key) fun _ => True :=
  (yields_items ctx seeder h .withPageBreaks).bind fun _ _ => trivial

theorem yields_validateVisible :
    Yields (root.validateVisible ctx seeder)
      (fun err => ∃ item ∈ root.descendants, err.IsConditionOf item.key)
      fun report => ∀ o ∈ report.outcomes, ∀ err, o.status = .broken err →
        err.isEvaluationFault = true := by
  refine .bind (yields_items ctx seeder h .withGroups) fun items hitems => ?_
  intro o ho err hbroken
  obtain ⟨item, hitem, r, hr, rfl⟩ := Report.mem_outcomes_ofItems.mp ho
  have hrule : r.rule.Checked := h item (hitems item hitem) _ (mem_expressions_of_rule hr)
  change r.status ctx = .broken err at hbroken
  unfold Rule.status at hbroken
  cases hv : r.rule.evaluate ctx with
  | ok v =>
    rw [hv] at hbroken
    cases ht : v.truthy <;> simp [ht] at hbroken
  | error source =>
    rw [hv] at hbroken
    obtain rfl : source = err := RuleStatus.broken.inj hbroken
    exact hrule.isEvaluationFault hv

end Item

/-- An expression was read by itself, or it is part of a survey that was read. -/
inductive Expression.Loaded (e : Expression) : Prop
  | alone {j : Json} (h : ofJson j = .ok e)
  | part {j : Json} {survey : Survey} {item : Item} {site : Site}
      (h : Survey.ofJson j = .ok survey) (hitem : item ∈ survey.root.descendants)
      (he : (site, e) ∈ item.expressions)

theorem Expression.Loaded.checked {e : Expression} (h : e.Loaded) : e.Checked := by
  cases h with
  | alone h => exact checked_of_ofJson h
  | part h hitem he => exact Survey.checked_of_ofJson h _ hitem _ he

/-- Nothing that was loaded runs into a fault of loading. An operator with as many operands as it
accepts has no faults but those of its operands and its own, and a value of one of its kinds. An
expression that was loaded has faults of evaluation only, those of absent data only with an operator
that reports them. The walks over a survey that was loaded, and the states of options, fail only
with conditions that have such faults, and the broken rules of a report have such faults. -/
theorem loaded_faults :
    (∀ (eval : Expression → Outcome) (ctx : Context) (op : Operator) (arguments : List Expression),
      op.arity.accepts arguments.length = true →
      (∀ err, op.operate eval ctx arguments = .error err →
        (∃ e ∈ arguments, eval e = .error err) ∨ op.mayFail err = true) ∧
      ∀ v, op.operate eval ctx arguments = .ok v → v.kind ∈ op.resultKinds) ∧
    (∀ (ctx : Context) (e : Expression), e.Loaded →
      (∀ err, e.evaluate ctx = .error err → err.isEvaluationFault = true ∧
        (err.isAbsence = true → ∃ op arguments, (Expression.call op arguments).Within e ∧
          (op = .getResponseItem ∨ op = .getAttribute))) ∧
      ∀ op arguments, (Expression.call op arguments).Within e →
        ∀ v, (Expression.call op arguments).evaluate ctx = .ok v → v.kind ∈ op.resultKinds) ∧
    ∀ (j : Json) (survey : Survey), Survey.ofJson j = .ok survey →
      ∀ (ctx : Context) (seeder : Seeder),
      (∀ err, survey.root.flatten ctx seeder = .error err ∨
          survey.root.pages ctx seeder = .error err ∨
          survey.root.validateVisible ctx seeder = .error err →
        ∃ item ∈ survey.root.descendants, err.IsConditionOf item.key) ∧
      (∀ report, survey.root.validateVisible ctx seeder = .ok report →
        ∀ o ∈ report.outcomes, ∀ err, o.status = .broken err → err.isEvaluationFault = true) ∧
      ∀ item ∈ survey.root.descendants, ∀ err, item.optionStates ctx = .error err →
        ∃ c ∈ item.options, err.IsConditionOf (item.key ++ "." ++ c.key) := by
  refine ⟨fun eval ctx op arguments haccepts => ?_, fun ctx e he => ?_,
    fun j survey hj ctx seeder => ?_⟩
  · have hop := op.yields_operate eval ctx haccepts
    exact ⟨fun err => hop.of_error, fun v => hop.of_ok⟩
  · have hchecked := he.checked
    refine ⟨fun err h => ⟨hchecked.isEvaluationFault h, hchecked.exists_read_of_isAbsence h⟩, ?_⟩
    exact fun op arguments hin v => hchecked.kind_mem_resultKinds hin
  · have hchecked := Survey.checked_of_ofJson hj
    have hreport := Item.yields_validateVisible ctx seeder hchecked
    refine ⟨?_, fun report => hreport.of_ok, fun item hitem err => ?_⟩
    · rintro err (h | h | h)
      · exact (Item.yields_items ctx seeder hchecked .questions).of_error h
      · exact (Item.yields_pages ctx seeder hchecked).of_error h
      · exact hreport.of_error h
    · exact ((hchecked item hitem).yields_optionStates ctx).of_error

namespace Survey

/-- A survey with one question, which is shown depending on its own answer. -/
def dependentDocument : Json :=
  .object [("id", .string "s"), ("root", .object [
    ("condition", .object [("args", .array [.string "q", .string "rg"]),
      ("name", .string "getResponseItem")]),
    ("key", .string "q"), ("kind", .string "question"), ("role", .string "text")])]

def dependent : Survey :=
  ⟨"s", .question ⟨"q", 0, some (.getResponseItem "q" "rg"), []⟩ .text []⟩

/-- Without an answer the question is missing one. -/
theorem dependent_faults :
    dependent.root.flatten (.empty 0) .digest = .error (.condition "q" (.missingResponse "q")) ∧
      ∃ item ∈ dependent.root.descendants,
        (Error.condition "q" (.missingResponse "q")).IsConditionOf item.key := by
  have hv : dependent.root.isVisible (.empty 0) = .error (.condition "q" (.missingResponse "q")) :=
    rfl
  have hfailure : (dependent.root.shown (.empty 0) .digest).failure =
      some (⟨0, dependent.root⟩, .condition "q" (.missingResponse "q")) := by
    rw [Item.shown, Item.trail_eq, trails_cons, trails_nil, trail_of_error _ hv]
    rfl
  have h : dependent.root.flatten (.empty 0) .digest =
      .error (.condition "q" (.missingResponse "q")) := Item.items_of_error hfailure .questions
  have hloaded : ofJson dependentDocument = .ok dependent := rfl
  exact ⟨h, (loaded_faults.2.2 _ _ hloaded (.empty 0) .digest).1 _ (.inl h)⟩

end Survey

end Questionnaire
