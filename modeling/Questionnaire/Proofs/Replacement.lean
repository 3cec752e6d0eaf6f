import Questionnaire.Expression.Build
import Questionnaire.Proofs.Congruence

/-! Sub-expressions replaced by others with the same outcome: what they stand in keeps its outcome,
since no operator looks at more of an argument than its outcome. -/
namespace Questionnaire.Expression

/-- A place in an expression: which argument to take, from the outermost call inwards. -/
abbrev Place := List Nat

def at? : Expression → Place → Option Expression
  | e, [] => some e
  | .literal _, _ :: _ => none
  | .call _ arguments, i :: place => arguments[i]?.bind fun e => e.at? place

mutual

/-- Put new expressions at some places. What stood inside a replaced expression is gone with it. -/
def replace (new : Place → Option Expression) : Expression → Expression
  | .literal v => (new []).getD (.literal v)
  | .call operator arguments => (new []).getD (.call operator (replaceAll new 0 arguments))

/-- The same for arguments, of which the first one has a number. -/
def replaceAll (new : Place → Option Expression) (first : Nat) : List Expression → List Expression
  | [] => []
  | e :: rest => replace (fun place => new (first :: place)) e :: replaceAll new (first + 1) rest

end

@[simp] theorem at?_nil (e : Expression) : e.at? [] = some e := by
  cases e <;> rfl

theorem replace_of_some {new : Place → Option Expression} {e replacement : Expression}
    (h : new [] = some replacement) : e.replace new = replacement := by
  cases e <;> simp [replace, h]

theorem replace_call_of_none {new : Place → Option Expression} {operator : Operator}
    {arguments : List Expression} (h : new [] = none) :
    (call operator arguments).replace new = call operator (replaceAll new 0 arguments) := by
  simp [replace, h]

theorem getElem?_replaceAll (new : Place → Option Expression) (first i : Nat)
    (es : List Expression) :
    (replaceAll new first es)[i]? =
      es[i]?.map fun e => e.replace fun place => new ((first + i) :: place) := by
  induction es generalizing first i with
  | nil => simp [replaceAll]
  | cons e rest ih =>
    cases i with
    | zero => simp [replaceAll]
    | succ i =>
      have hnext : first + 1 + i = first + (i + 1) := by omega
      simp [replaceAll, ih, hnext]

/-- Where nothing above a place is replaced, a new expression for the place stands there. -/
theorem at?_replace {new : Place → Option Expression} {e old replacement : Expression}
    {place : Place} (hold : e.at? place = some old) (hnew : new place = some replacement)
    (habove : ∀ above below, place = above ++ below → below ≠ [] → new above = none) :
    (e.replace new).at? place = some replacement := by
  induction place generalizing new e with
  | nil => rw [replace_of_some hnew, at?_nil]
  | cons i place ih =>
    cases e with
    | literal v => cases hold
    | call operator arguments =>
      obtain ⟨argument, hargument, hold⟩ := Option.bind_eq_some_iff.mp hold
      have hnone : new [] = none := habove [] (i :: place) rfl (List.cons_ne_nil i place)
      have hinner : (argument.replace fun place => new (i :: place)).at? place =
          some replacement :=
        ih hold hnew fun above below hplace => habove (i :: above) below (congrArg (i :: ·) hplace)
      rw [replace_call_of_none hnone, at?, getElem?_replaceAll, hargument, Nat.zero_add]
      exact hinner

/-- Every new expression has the outcome of the one at its place. -/
def Preserves (ctx : Context) (e : Expression) (new : Place → Option Expression) : Prop :=
  ∀ place old replacement, e.at? place = some old → new place = some replacement →
    replacement.evaluate ctx = old.evaluate ctx

theorem Preserves.argument {ctx : Context} {operator : Operator} {arguments : List Expression}
    {new : Place → Option Expression} (h : (call operator arguments).Preserves ctx new) {i : Nat}
    {e : Expression} (he : arguments[i]? = some e) :
    e.Preserves ctx fun place => new (i :: place) := by
  intro place old replacement hold hnew
  refine h (i :: place) old replacement ?_ hnew
  rw [at?, he]
  exact hold

variable {ctx : Context}

mutual

/-- The arguments of a call keep their outcomes one by one, and no operator tells them from what
they replace. -/
theorem evaluate_replace {e : Expression} {new : Place → Option Expression}
    (h : e.Preserves ctx new) : (e.replace new).evaluate ctx = e.evaluate ctx := by
  cases hnew : new [] with
  | some replacement =>
    rw [replace_of_some hnew]
    exact h [] e replacement e.at?_nil hnew
  | none =>
    cases e with
    | literal v => simp [replace, hnew]
    | call operator arguments =>
      have harguments : ∀ i (e : Expression), arguments[i]? = some e →
          e.Preserves ctx fun place => new ((0 + i) :: place) := by
        intro i e he
        rw [Nat.zero_add]
        exact h.argument he
      rw [replace_call_of_none hnew]
      exact evaluate_call_congr operator (sameOutcomes_replaceAll harguments)

theorem sameOutcomes_replaceAll {es : List Expression} {new : Place → Option Expression}
    {first : Nat} (h : ∀ i (e : Expression), es[i]? = some e →
      e.Preserves ctx fun place => new ((first + i) :: place)) :
    Operator.SameOutcomes (evaluate ctx) (evaluate ctx) (replaceAll new first es) es := by
  cases es with
  | nil => exact .nil
  | cons e rest =>
    have hfirst : e.Preserves ctx fun place => new (first :: place) := h 0 e rfl
    have hrest : ∀ i (e : Expression), rest[i]? = some e →
        e.Preserves ctx fun place => new ((first + 1 + i) :: place) := by
      intro i e he
      rw [show first + 1 + i = first + (i + 1) by omega]
      exact h (i + 1) e he
    exact .cons (evaluate_replace hfirst) (sameOutcomes_replaceAll hrest)

end

/-- The literal of the value of an expression, if it has one. -/
def folded? (ctx : Context) (e : Expression) : Option Expression :=
  (e.evaluate ctx).toOption.map .literal

/-- The literals for the sub-expressions at the chosen places that have a value. -/
def foldedAt (ctx : Context) (chosen : Place → Bool) (e : Expression) : Place → Option Expression :=
  fun place => if chosen place then (e.at? place).bind (folded? ctx) else none

def fold (ctx : Context) (chosen : Place → Bool) (e : Expression) : Expression :=
  e.replace (e.foldedAt ctx chosen)

theorem evaluate_of_folded? {e replacement : Expression} (h : e.folded? ctx = some replacement) :
    replacement.evaluate ctx = e.evaluate ctx := by
  unfold folded? at h
  cases hv : e.evaluate ctx with
  | error fault => simp [hv, Except.toOption] at h
  | ok v =>
    obtain rfl : .literal v = replacement := by simpa [hv, Except.toOption] using h
    rfl

theorem preserves_foldedAt (e : Expression) (chosen : Place → Bool) :
    e.Preserves ctx (e.foldedAt ctx chosen) := by
  intro place old replacement hold hnew
  unfold foldedAt at hnew
  split at hnew
  · rw [hold, Option.bind_some] at hnew
    exact evaluate_of_folded? hnew
  · cases hnew

/-- Sub-expressions, as many and as deep as one likes, may be replaced by others with the same
outcome, a value or an error, and those with a value by the literal of it: the outcome of the whole
is the same. The new expressions do stand at their places, unless more is replaced around them. -/
theorem evaluation_is_congruent (ctx : Context) (e : Expression) :
    (∀ new, e.Preserves ctx new → (e.replace new).evaluate ctx = e.evaluate ctx) ∧
    (∀ chosen, (e.fold ctx chosen).evaluate ctx = e.evaluate ctx) ∧
    ∀ new place old replacement, e.at? place = some old → new place = some replacement →
      (∀ above below, place = above ++ below → below ≠ [] → new above = none) →
      (e.replace new).at? place = some replacement := by
  refine ⟨fun new h => evaluate_replace h, fun chosen => ?_, fun new place old replacement => ?_⟩
  · exact evaluate_replace (e.preserves_foldedAt chosen)
  · exact at?_replace

/-- A test whose item is computed from an attribute, and its key from a sum. -/
def computedTest : Expression :=
  .call .responseHasKeysAny [getAttribute getContext "item", text "rg", .call .sum [int 1, int 1]]

def computedContext : Context :=
  ⟨[("q", .group "rg" [.leaf "2" none])], [("item", .text "q")], none, 0⟩

/-- Literals for the item and the key. -/
def literalOperands : Place → Option Expression
  | [0] => some (text "q")
  | [2] => some (int 2)
  | _ => none

theorem computed_test_unchanged :
    computedTest.Preserves computedContext literalOperands ∧
      (computedTest.replace literalOperands).evaluate computedContext =
        computedTest.evaluate computedContext ∧
      (computedTest.replace literalOperands).at? [2] = some (int 2) := by
  have hpreserves : computedTest.Preserves computedContext literalOperands := by
    intro place old replacement hold hnew
    unfold literalOperands at hnew
    split at hnew
    · obtain rfl := Option.some.inj hold
      obtain rfl := Option.some.inj hnew
      rfl
    · obtain rfl := Option.some.inj hold
      obtain rfl := Option.some.inj hnew
      rfl
    · cases hnew
  obtain ⟨hreplace, -, hplace⟩ := evaluation_is_congruent computedContext computedTest
  refine ⟨hpreserves, hreplace literalOperands hpreserves,
    hplace literalOperands [2] _ _ rfl rfl ?_⟩
  intro above below happend hne
  cases above with
  | nil => rfl
  | cons i above =>
    obtain ⟨-, hnil⟩ := List.cons.inj happend
    exact absurd (List.append_eq_nil_iff.mp hnil.symm).2 hne

end Questionnaire.Expression
