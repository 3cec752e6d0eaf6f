import Questionnaire.Expression.Build
import Questionnaire.Proofs.Congruence

/-! Conjunction and disjunction as one construction: operands are passed over as long as they are
the neutral boolean, and the first other outcome decides, be it a boolean, another value or an
error. -/
namespace Questionnaire

namespace Operator
variable {b : Bool} {x : Outcome} {xs ys : List Outcome}

/-- The connective that passes over a boolean. -/
def connective (neutral : Bool) : Operator := if neutral then .and else .or

/-- What a connective makes of the outcomes of its operands. -/
def junction (neutral : Bool) : List Outcome → Except Error Bool
  | [] => .ok neutral
  | x :: rest => do
    let c ← (← x).asBool (connective neutral).name
    if c = neutral then junction neutral rest else return c

/-- What a connective makes of the operand that decides. -/
def verdict (op : Operator) (operand : Outcome) : Except Error Bool := do
  (← operand).asBool op.name

/-- The outcome of a negated operand. -/
def negated (operand : Outcome) : Outcome := do
  return .bool !(← (← operand).asBool not.name)

/-- The first outcome other than the neutral boolean. -/
inductive DecidedBy (neutral : Bool) : List Outcome → Outcome → Prop
  | here {x : Outcome} (h : x ≠ .ok (.bool neutral)) (rest : List Outcome) :
    DecidedBy neutral (x :: rest) x
  | later {x : Outcome} {rest : List Outcome} (h : DecidedBy neutral rest x) :
    DecidedBy neutral (.ok (.bool neutral) :: rest) x

/-- All outcomes are the neutral boolean. -/
def AllNeutral (neutral : Bool) (operands : List Outcome) : Prop :=
  ∀ x ∈ operands, x = .ok (.bool neutral)

theorem verdict_ne (op : Operator) (h : x ≠ .ok (.bool b)) : op.verdict x ≠ .ok b := by
  intro hverdict
  cases x with
  | error e => cases hverdict
  | ok v =>
    cases v with
    | bool c =>
      obtain rfl : c = b := Except.ok.inj hverdict
      exact h rfl
    | _ => cases hverdict

theorem conjunction_eq (eval : Expression → Outcome) (es : List Expression) :
    conjunction eval es = junction true (es.map eval) := by
  induction es with
  | nil => rfl
  | cons e rest ih =>
    rw [conjunction, List.map_cons, junction, ih]
    cases eval e with
    | error err => rfl
    | ok v =>
      cases v with
      | bool c => cases c <;> rfl
      | _ => rfl

theorem disjunction_eq (eval : Expression → Outcome) (es : List Expression) :
    disjunction eval es = junction false (es.map eval) := by
  induction es with
  | nil => rfl
  | cons e rest ih =>
    rw [disjunction, List.map_cons, junction, ih]
    cases eval e with
    | error err => rfl
    | ok v =>
      cases v with
      | bool c => cases c <;> rfl
      | _ => rfl

theorem junction_cons_neutral (b : Bool) (rest : List Outcome) :
    junction b (.ok (.bool b) :: rest) = junction b rest := by
  cases b <;> rfl

theorem junction_cons_of_ne (h : x ≠ .ok (.bool b)) (rest : List Outcome) :
    junction b (x :: rest) = (connective b).verdict x := by
  cases x with
  | error e => cases b <;> rfl
  | ok v =>
    cases v with
    | bool c =>
      cases b with
      | false =>
        cases c with
        | false => exact absurd rfl h
        | true => rfl
      | true =>
        cases c with
        | false => rfl
        | true => exact absurd rfl h
    | _ => cases b <;> rfl

theorem junction_of_decidedBy (h : DecidedBy b xs x) :
    junction b xs = (connective b).verdict x := by
  induction h with
  | here hx rest => exact junction_cons_of_ne hx rest
  | later _ ih => rw [junction_cons_neutral, ih]

theorem junction_of_allNeutral (h : AllNeutral b xs) : junction b xs = .ok b := by
  induction xs with
  | nil => rfl
  | cons x rest ih =>
    rw [h x List.mem_cons_self, junction_cons_neutral]
    exact ih fun y hy => h y (List.mem_cons_of_mem x hy)

theorem allNeutral_or_decidedBy (b : Bool) (xs : List Outcome) :
    AllNeutral b xs ∨ ∃ x, DecidedBy b xs x := by
  induction xs with
  | nil => exact .inl fun x hx => absurd hx List.not_mem_nil
  | cons x rest ih =>
    by_cases hx : x = .ok (.bool b)
    · subst hx
      rcases ih with hneutral | ⟨y, hy⟩
      · exact .inl (List.forall_mem_cons.mpr ⟨rfl, hneutral⟩)
      · exact .inr ⟨y, .later hy⟩
    · exact .inr ⟨x, .here hx rest⟩

theorem DecidedBy.append (h : DecidedBy b xs x) (rest : List Outcome) :
    DecidedBy b (xs ++ rest) x := by
  induction h with
  | here hx more => exact .here hx (more ++ rest)
  | later _ ih => exact .later ih

theorem DecidedBy.ne_nil (h : DecidedBy b xs x) : xs ≠ [] := by
  cases h <;> exact List.cons_ne_nil _ _

theorem junction_append (b : Bool) (xs ys : List Outcome) : junction b (xs ++ ys) =
    (junction b xs).bind fun c => if c = b then junction b ys else .ok c := by
  induction xs with
  | nil =>
    rw [junction, List.nil_append]
    exact (if_pos rfl).symm
  | cons x rest ih =>
    by_cases hx : x = .ok (.bool b)
    · rw [hx, List.cons_append, junction_cons_neutral, junction_cons_neutral, ih]
    · -- The operand ends both sides, as its verdict is not the neutral boolean.
      rw [List.cons_append, junction_cons_of_ne hx, junction_cons_of_ne hx]
      have hne := (connective b).verdict_ne hx
      cases hverdict : (connective b).verdict x with
      | error e => rfl
      | ok c =>
        have hc : c ≠ b := fun h => hne (h ▸ hverdict)
        exact (if_neg hc).symm

/-- Two operands of which each is a connective itself. -/
theorem junction_pair (b : Bool) (p q : Except Error Bool) :
    junction b [p.map .bool, q.map .bool] = p.bind fun c => if c = b then q else .ok c := by
  have hsecond : junction b [q.map .bool] = q := by
    rcases q with e | d
    · cases b <;> rfl
    · cases b <;> cases d <;> rfl
  cases p with
  | error e => cases b <;> rfl
  | ok c =>
    change junction b [.ok (.bool c), q.map .bool] = if c = b then q else .ok c
    by_cases hc : c = b
    · rw [if_pos hc, hc, junction_cons_neutral, hsecond]
    · have hne : (.ok (.bool c) : Outcome) ≠ .ok (.bool b) :=
        fun h => hc (Value.bool.inj (Except.ok.inj h))
      rw [if_neg hc, junction_cons_of_ne hne]
      rfl

theorem negated_ne (h : x ≠ .ok (.bool b)) : negated x ≠ .ok (.bool !b) := by
  intro hnegated
  cases x with
  | error e => cases hnegated
  | ok v =>
    cases v with
    | bool c =>
      have hc : (!c) = !b := Value.bool.inj (Except.ok.inj hnegated)
      have heq : c = b := by simpa using hc
      exact h (heq ▸ rfl)
    | _ => cases hnegated

theorem DecidedBy.map_negated (h : DecidedBy b xs x) :
    DecidedBy (!b) (xs.map negated) (negated x) := by
  induction h with
  | here hx rest => exact .here (negated_ne hx) (rest.map negated)
  | later _ ih => exact .later ih

theorem AllNeutral.map_negated (h : AllNeutral b xs) : AllNeutral (!b) (xs.map negated) := by
  intro y hy
  obtain ⟨x, hx, rfl⟩ := List.mem_map.mp hy
  rw [h x hx]
  rfl

theorem map_verdict_negated (op : Operator) (x : Outcome) :
    (op.verdict (negated x)).map .bool = negated x := by
  cases x with
  | error e => rfl
  | ok v => cases v <;> rfl

end Operator

namespace Expression
open Operator
variable {ctx : Context} {b : Bool} {x : Outcome} {xs ys : List Expression}

/-- The outcomes of expressions, in their order. -/
def outcomes (ctx : Context) (es : List Expression) : List Outcome := es.map (evaluate ctx)

theorem outcomes_append (ctx : Context) (xs ys : List Expression) :
    outcomes ctx (xs ++ ys) = outcomes ctx xs ++ outcomes ctx ys := List.map_append

theorem evaluate_not (e : Expression) : (not e).evaluate ctx = negated (e.evaluate ctx) :=
  evaluate_call ctx .not [e]

theorem outcomes_map_not (ctx : Context) (xs : List Expression) :
    outcomes ctx (xs.map not) = (outcomes ctx xs).map negated := by
  rw [outcomes, outcomes, List.map_map, List.map_map]
  exact List.map_congr_left fun e _ => evaluate_not e

theorem ne_nil_of_outcomes_ne_nil (h : outcomes ctx xs ≠ []) : xs ≠ [] := by
  rintro rfl
  exact h rfl

theorem evaluate_connective (b : Bool) (h : xs ≠ []) :
    (call (connective b) xs).evaluate ctx = (junction b (outcomes ctx xs)).map .bool := by
  have haccepts : (connective b).arity.accepts xs.length = true := by
    cases b <;> exact Arity.accepts_atLeast.mpr (List.length_pos_iff.mpr h)
  rw [evaluate_call_of_accepts haccepts]
  cases b with
  | true => exact congrArg (Except.map Value.bool) (conjunction_eq _ xs)
  | false => exact congrArg (Except.map Value.bool) (disjunction_eq _ xs)

theorem evaluate_connective_of_decidedBy (h : DecidedBy b (outcomes ctx xs) x) :
    (call (connective b) xs).evaluate ctx = ((connective b).verdict x).map .bool := by
  rw [evaluate_connective b (ne_nil_of_outcomes_ne_nil h.ne_nil), junction_of_decidedBy h]

theorem evaluate_connective_append (hxs : xs ≠ []) (hys : ys ≠ []) :
    (call (connective b) (xs ++ ys)).evaluate ctx =
      (call (connective b) [call (connective b) xs, call (connective b) ys]).evaluate ctx := by
  have hparts : outcomes ctx [call (connective b) xs, call (connective b) ys] =
      [(junction b (outcomes ctx xs)).map .bool, (junction b (outcomes ctx ys)).map .bool] := by
    rw [outcomes, List.map_cons, List.map_cons, List.map_nil, evaluate_connective b hxs,
      evaluate_connective b hys]
  rw [evaluate_connective b (List.append_ne_nil_of_left_ne_nil hxs ys), outcomes_append,
    junction_append, evaluate_connective b (List.cons_ne_nil _ _), hparts, junction_pair]

theorem evaluate_dual_of_decidedBy (h : DecidedBy b (outcomes ctx xs) x) :
    (call (connective !b) (xs.map not)).evaluate ctx = negated x := by
  have hdual : DecidedBy (!b) (outcomes ctx (xs.map not)) (negated x) := by
    rw [outcomes_map_not]
    exact h.map_negated
  rw [evaluate_connective_of_decidedBy hdual, map_verdict_negated]

/-- The negation of a connective and the dual connective of the negations differ in nothing but the
operator that a type error names. -/
theorem evaluate_not_connective (hxs : xs ≠ [])
    (hbool : ∀ v, DecidedBy b (outcomes ctx xs) (.ok v) → v.kind = .bool) :
    (not (call (connective b) xs)).evaluate ctx =
      (call (connective !b) (xs.map not)).evaluate ctx := by
  rcases allNeutral_or_decidedBy b (outcomes ctx xs) with hneutral | ⟨x, hx⟩
  · have hdual : AllNeutral (!b) (outcomes ctx (xs.map not)) := by
      rw [outcomes_map_not]
      exact hneutral.map_negated
    have hmap : xs.map not ≠ [] := fun h => hxs (List.map_eq_nil_iff.mp h)
    rw [evaluate_not, evaluate_connective b hxs, junction_of_allNeutral hneutral,
      evaluate_connective (!b) hmap, junction_of_allNeutral hdual]
    rfl
  · rw [evaluate_not, evaluate_connective_of_decidedBy hx, evaluate_dual_of_decidedBy hx]
    cases x with
    | error e => rfl
    | ok v =>
      cases v with
      | bool c => rfl
      | _ => cases hbool _ hx

theorem evaluate_not_of_not_bool {v : Value} (h : DecidedBy b (outcomes ctx xs) (.ok v))
    (hkind : v.kind ≠ .bool) :
    (not (call (connective b) xs)).evaluate ctx =
        .error (.typeError (connective b).name (.notBool v.kind)) ∧
      (call (connective !b) (xs.map not)).evaluate ctx =
        .error (.typeError Operator.not.name (.notBool v.kind)) := by
  rw [evaluate_not, evaluate_connective_of_decidedBy h, evaluate_dual_of_decidedBy h]
  cases v with
  | bool c => exact absurd rfl hkind
  | _ => exact ⟨rfl, rfl⟩

/-- The laws of a connective and its dual, given the boolean that it passes over. -/
structure BooleanLaws (ctx : Context) (op dual : Operator) (neutral : Bool) : Prop where
  append : ∀ xs ys, xs ≠ [] → ys ≠ [] → (call op (xs ++ ys)).evaluate ctx =
    (call op [call op xs, call op ys]).evaluate ctx
  rest_ignored : ∀ xs x, DecidedBy neutral (outcomes ctx xs) x → ∀ rest other,
    (call op (xs ++ rest)).evaluate ctx = (call op (xs ++ other)).evaluate ctx
  not_ok_iff : ∀ xs, xs ≠ [] → ∀ v, (not (call op xs)).evaluate ctx = .ok v ↔
    (call dual (xs.map not)).evaluate ctx = .ok v
  not_of_bool : ∀ xs, xs ≠ [] →
    (∀ v, DecidedBy neutral (outcomes ctx xs) (.ok v) → v.kind = .bool) →
      (not (call op xs)).evaluate ctx = (call dual (xs.map not)).evaluate ctx
  not_of_not_bool : ∀ xs v, DecidedBy neutral (outcomes ctx xs) (.ok v) → v.kind ≠ .bool →
    (not (call op xs)).evaluate ctx = .error (.typeError op.name (.notBool v.kind)) ∧
      (call dual (xs.map not)).evaluate ctx =
        .error (.typeError Operator.not.name (.notBool v.kind))

theorem booleanLaws (ctx : Context) (b : Bool) :
    BooleanLaws ctx (connective b) (connective !b) b where
  append xs ys hxs hys := evaluate_connective_append hxs hys
  rest_ignored xs x hx rest other := by
    have hdecided : ∀ more, DecidedBy b (outcomes ctx (xs ++ more)) x := by
      intro more
      rw [outcomes_append]
      exact hx.append _
    rw [evaluate_connective_of_decidedBy (hdecided rest),
      evaluate_connective_of_decidedBy (hdecided other)]
  not_ok_iff xs hxs v := by
    by_cases hbool : ∀ w, DecidedBy b (outcomes ctx xs) (.ok w) → w.kind = .bool
    · rw [evaluate_not_connective hxs hbool]
    · obtain ⟨w, hw⟩ := Classical.not_forall.mp hbool
      obtain ⟨hdecided, hkind⟩ := Classical.not_imp.mp hw
      obtain ⟨hleft, hright⟩ := evaluate_not_of_not_bool hdecided hkind
      rw [hleft, hright]
      constructor
      · intro h
        cases h
      · intro h
        cases h
  not_of_bool xs hxs hbool := evaluate_not_connective hxs hbool
  not_of_not_bool xs v h hkind := evaluate_not_of_not_bool h hkind

/-- A conjunction of conjunctions is one conjunction of all operands, its negation is the
disjunction of the negations, and no operand after the first that decides has any influence; and
dually. -/
theorem connectives_obey_boolean_laws (ctx : Context) :
    BooleanLaws ctx .and .or true ∧ BooleanLaws ctx .or .and false :=
  ⟨booleanLaws ctx true, booleanLaws ctx false⟩

/-- Truth, and a number that decides because it is no boolean. -/
def numberAmong : List Expression := [.literal (.bool true), int 3]

/-- The number is refused in the name of the operator that meets it, and a call without its
arguments that comes after it is not evaluated. -/
theorem number_refused_by_name :
    (and (numberAmong ++ [.call .hasResponse []])).evaluate (.empty 0) =
        .error (.typeError "and" (.notBool .number)) ∧
      (not (and numberAmong)).evaluate (.empty 0) =
        .error (.typeError "and" (.notBool .number)) ∧
      (or (numberAmong.map not)).evaluate (.empty 0) =
        .error (.typeError "not" (.notBool .number)) := by
  obtain ⟨hand, -⟩ := connectives_obey_boolean_laws (.empty 0)
  have hnumber : DecidedBy true (outcomes (.empty 0) numberAmong) (.ok (.int 3)) :=
    .later (.here (fun h => Value.noConfusion (Except.ok.inj h)) [])
  have hignored := hand.rest_ignored numberAmong _ hnumber [.call .hasResponse []] []
  have hrefused := hand.not_of_not_bool numberAmong _ hnumber Kind.noConfusion
  exact ⟨hignored, hrefused⟩

end Expression

end Questionnaire
