import Questionnaire.Expression.Build
import Questionnaire.Proofs.Congruence
import Questionnaire.Proofs.Equality
import Questionnaire.Proofs.Records

/-! The order of values and their equality: where both have an answer they agree. A text that is
equal to a number reads as that number, though many other texts do too. -/
namespace Questionnaire

/-- Of two comparisons in the same direction the first strict one decides. -/
theorem compare_eq_then {α : Type} [Ord α] [Std.TransOrd α] {a b c : α}
    (hab : (compare a b).isLE = true) (hbc : (compare b c).isLE = true) :
    compare a c = (compare a b).then (compare b c) := by
  cases hfirst : compare a b with
  | lt => exact Std.TransCmp.lt_of_lt_of_isLE hfirst hbc
  | eq => exact Std.TransCmp.congr_left hfirst
  | gt =>
    rw [hfirst] at hab
    cases hab

namespace Value
variable {operator : String} {u v w : Value} {a b : Decimal}

/-- The number that a value stands for where numbers are compared. -/
def decimal? : Value → Option Decimal
  | .number d => some d
  | .bool b => some (if b then .one else .zero)
  | .text s => Decimal.ofText? (Text.trimmed s.toList)
  | _ => none

theorem asNumber_eq_ok_iff {d : Decimal} : v.asNumber operator = .ok d ↔ v.decimal? = some d := by
  cases v with
  | text s =>
    rw [asNumber, decimal?]
    cases Decimal.ofText? (Text.trimmed s.toList) <;> simp
  | _ => simp [asNumber, decimal?]

/-- How two values are ordered, if they are: not at all next to null, and as numbers unless both are
texts. -/
inductive Ranked : Value → Value → Option Ordering → Prop
  | null_left (w : Value) : Ranked .null w none
  | null_right (v : Value) : Ranked v .null none
  | texts (s t : String) : Ranked (.text s) (.text t) (some (compare s t))
  | numbers {v w : Value} {a b : Decimal} (htexts : v.kind = .text → w.kind ≠ .text)
      (hv : v.decimal? = some a) (hw : w.decimal? = some b) : Ranked v w (some (a.order b))

theorem order_of_not_texts (hv : v ≠ .null) (hw : w ≠ .null)
    (htexts : v.kind = .text → w.kind ≠ .text) : order operator v w =
      (do return some ((← asNumber operator v).order (← asNumber operator w))) := by
  cases v with
  | null => exact absurd rfl hv
  | text s =>
    cases w with
    | null => exact absurd rfl hw
    | text t => exact absurd rfl (htexts rfl)
    | _ => rfl
  | _ =>
    cases w with
    | null => exact absurd rfl hw
    | _ => rfl

theorem ne_null_of_decimal? (h : v.decimal? = some a) : v ≠ .null := by
  rintro rfl
  cases h

/-- The operator has no influence on an order, only on the error where there is none. -/
theorem order_eq_ok_iff {o : Option Ordering} : order operator v w = .ok o ↔ Ranked v w o := by
  constructor
  · intro h
    by_cases hv : v = .null
    · subst hv
      obtain rfl := Except.ok.inj h
      exact .null_left w
    by_cases hw : w = .null
    · subst hw
      obtain rfl : none = o := by cases v <;> exact Except.ok.inj h
      exact .null_right v
    by_cases htexts : v.kind = .text → w.kind ≠ .text
    · rw [order_of_not_texts hv hw htexts] at h
      obtain ⟨a, ha, h⟩ := exists_of_bind_eq_ok h
      obtain ⟨b, hb, h⟩ := exists_of_bind_eq_ok h
      obtain rfl := Except.ok.inj h
      exact .numbers htexts (asNumber_eq_ok_iff.mp ha) (asNumber_eq_ok_iff.mp hb)
    · cases v with
      | text s =>
        cases w with
        | text t =>
          obtain rfl := Except.ok.inj h
          exact .texts s t
        | _ => exact absurd (fun _ => Kind.noConfusion) htexts
      | _ => exact absurd (fun hkind => Kind.noConfusion hkind) htexts
  · intro h
    cases h with
    | null_left => rfl
    | null_right => cases v <;> rfl
    | texts s t => rfl
    | numbers htexts ha hb =>
      rw [order_of_not_texts (ne_null_of_decimal? ha) (ne_null_of_decimal? hb) htexts,
        asNumber_eq_ok_iff.mpr ha, asNumber_eq_ok_iff.mpr hb]
      rfl

theorem Ranked.swap {o : Option Ordering} (h : Ranked v w o) :
    Ranked w v (o.map Ordering.swap) := by
  cases h with
  | null_left => exact .null_right w
  | null_right => exact .null_left v
  | texts s t =>
    have hswap : (compare s t).swap = compare t s := Std.OrientedCmp.eq_swap.symm
    rw [Option.map_some, hswap]
    exact .texts t s
  | @numbers _ _ a b htexts ha hb =>
    have hswap : (a.order b).swap = b.order a := by
      rw [Decimal.order_eq_compare, Decimal.order_eq_compare]
      exact Std.OrientedCmp.eq_swap.symm
    rw [Option.map_some, hswap]
    exact .numbers (fun hw hv => htexts hv hw) hb ha

theorem Ranked.swap_iff {o : Option Ordering} :
    Ranked v w o ↔ Ranked w v (o.map Ordering.swap) := by
  constructor
  · exact Ranked.swap
  · intro h
    have hback := h.swap
    have htwice : (o.map Ordering.swap).map Ordering.swap = o := by
      cases o with
      | none => rfl
      | some x => rw [Option.map_some, Option.map_some, Ordering.swap_swap]
    rwa [htwice] at hback

/-- The text form of a value that counts as a number reads as that number, if it reads as any. -/
theorem toRat_eq_of_toText? {s : String} (hform : v.toText? = some s) (ha : v.decimal? = some a)
    (hb : (text s).decimal? = some b) : a.toRat = b.toRat := by
  cases v with
  | text t =>
    obtain rfl : t = s := Option.some.inj hform
    rw [ha] at hb
    rw [Option.some.inj hb]
  | number d =>
    obtain rfl : d.canonicalText = s := Option.some.inj hform
    obtain rfl : d = a := Option.some.inj ha
    have hread := Decimal.ofText?_canonicalText d
    rw [decimal?, hread] at hb
    rw [← Option.some.inj hb, Decimal.toRat_normalize]
  | bool c =>
    obtain rfl := Option.some.inj hform
    -- Neither of the two words is a number.
    cases c <;> cases hb
  | _ => cases hform

/-- Numbers, and booleans that stand for one and zero. -/
def IsNumeric : Value → Prop
  | .number _ => True
  | .bool _ => True
  | _ => False

theorem IsNumeric.exists_decimal? (h : v.IsNumeric) : ∃ d, v.decimal? = some d := by
  cases v with
  | number d => exact ⟨d, rfl⟩
  | bool c => exact ⟨_, rfl⟩
  | _ => exact h.elim

theorem equals_of_isNumeric (hv : v.IsNumeric) (hw : w.IsNumeric) (ha : v.decimal? = some a)
    (hb : w.decimal? = some b) : v.equals w = .ok (a.equal b) := by
  cases v with
  | bool c =>
    obtain rfl := Option.some.inj ha
    cases w with
    | bool d =>
      obtain rfl := Option.some.inj hb
      cases c <;> cases d <;> rfl
    | number d =>
      obtain rfl := Option.some.inj hb
      rfl
    | _ => exact hw.elim
  | number d =>
    obtain rfl := Option.some.inj ha
    cases w with
    | bool c =>
      obtain rfl := Option.some.inj hb
      rfl
    | number e =>
      obtain rfl := Option.some.inj hb
      rfl
    | _ => exact hw.elim
  | _ => exact hv.elim

/-- Equal values that count as numbers count as one number. -/
theorem equal_of_equals (h : v.equals w = .ok true) (ha : v.decimal? = some a)
    (hb : w.decimal? = some b) : a.equal b = true := by
  rw [Decimal.equal_iff]
  by_cases hv : v.kind = .text
  · cases v with
    | text s =>
      rw [equals_text_left] at h
      have hform : w.toText? = some s := of_decide_eq_true (Except.ok.inj h)
      exact (toRat_eq_of_toText? hform hb ha).symm
    | _ => cases hv
  · by_cases hw : w.kind = .text
    · cases w with
      | text s =>
        rw [equals_text_right] at h
        have hform : v.toText? = some s := of_decide_eq_true (Except.ok.inj h)
        exact toRat_eq_of_toText? hform ha hb
      | _ => cases hw
    · have hvalue : ∀ {x : Value} {d : Decimal}, x.kind ≠ .text → x.decimal? = some d →
          x.IsNumeric := by
        intro x d hx hd
        cases x with
        | number _ => trivial
        | bool _ => trivial
        | text s => exact absurd rfl hx
        | _ => cases hd
      rw [equals_of_isNumeric (hvalue hv ha) (hvalue hw hb) ha hb] at h
      exact Decimal.equal_iff.mp (Except.ok.inj h)

theorem eq_of_equals_of_order {o : Ordering} (hequals : v.equals w = .ok true)
    (horder : order operator v w = .ok (some o)) : o = .eq := by
  cases order_eq_ok_iff.mp horder with
  | texts s t =>
    rw [equals_text_left] at hequals
    have hform : (text t).toText? = some s := of_decide_eq_true (Except.ok.inj hequals)
    obtain rfl : t = s := Option.some.inj hform
    exact Std.ReflCmp.compare_self
  | numbers htexts ha hb => exact Decimal.order_eq_eq_iff.mpr (equal_of_equals hequals ha hb)

/-- Two texts, or two values that stand for numbers. -/
inductive Comparable : Value → Value → Prop
  | texts (s t : String) : Comparable (.text s) (.text t)
  | numbers {v w : Value} (hv : v.IsNumeric) (hw : w.IsNumeric) : Comparable v w

theorem IsNumeric.kind_ne_text (h : v.IsNumeric) : v.kind ≠ .text := by
  cases v with
  | text s => exact h.elim
  | _ => exact Kind.noConfusion

theorem order_of_isNumeric (hv : v.IsNumeric) (ha : v.decimal? = some a)
    (hb : w.decimal? = some b) :
    order operator v w = .ok (some (compare a.toRat b.toRat)) := by
  rw [← Decimal.order_eq_compare]
  exact order_eq_ok_iff.mpr (.numbers (fun h => absurd h hv.kind_ne_text) ha hb)

theorem Comparable.exists_order (h : v.Comparable w) (operator : String) :
    ∃ o, order operator v w = .ok (some o) := by
  cases h with
  | texts s t => exact ⟨_, rfl⟩
  | numbers hv hw =>
    obtain ⟨a, ha⟩ := hv.exists_decimal?
    obtain ⟨b, hb⟩ := hw.exists_decimal?
    exact ⟨_, order_of_isNumeric hv ha hb⟩

theorem Comparable.order_eq_iff (h : v.Comparable w) :
    order operator v w = .ok (some .eq) ↔ v.equals w = .ok true := by
  cases h with
  | texts s t =>
    have horder : order operator (text s) (text t) = .ok (some (compare s t)) := rfl
    rw [horder, equals_text_left, toText?, Except.ok.injEq, Option.some.injEq, Except.ok.injEq,
      decide_eq_true_iff, Option.some.injEq, Std.compare_eq_iff_eq]
    exact eq_comm
  | numbers hv hw =>
    obtain ⟨a, ha⟩ := hv.exists_decimal?
    obtain ⟨b, hb⟩ := hw.exists_decimal?
    rw [order_of_isNumeric hv ha hb, equals_of_isNumeric hv hw ha hb, Except.ok.injEq,
      Except.ok.injEq, Option.some.injEq, ← Decimal.order_eq_compare, Decimal.order_eq_eq_iff]

theorem Comparable.order_trans {x y : Ordering} (huv : u.Comparable v) (hvw : v.Comparable w)
    (hx : order operator u v = .ok (some x)) (hy : order operator v w = .ok (some y))
    (hxle : x.isLE = true) (hyle : y.isLE = true) :
    order operator u w = .ok (some (x.then y)) := by
  cases huv with
  | texts r s =>
    cases hvw with
    | texts _ t =>
      obtain rfl : compare r s = x := Option.some.inj (Except.ok.inj hx)
      obtain rfl : compare s t = y := Option.some.inj (Except.ok.inj hy)
      rw [← compare_eq_then hxle hyle]
      rfl
    | numbers hs _ => exact hs.elim
  | numbers hu hv =>
    cases hvw with
    | texts _ _ => exact hv.elim
    | numbers _ hw =>
      obtain ⟨a, ha⟩ := hu.exists_decimal?
      obtain ⟨b, hb⟩ := hv.exists_decimal?
      obtain ⟨c, hc⟩ := hw.exists_decimal?
      rw [order_of_isNumeric hu ha hb] at hx
      rw [order_of_isNumeric hv hb hc] at hy
      obtain rfl := Option.some.inj (Except.ok.inj hx)
      obtain rfl := Option.some.inj (Except.ok.inj hy)
      rw [order_of_isNumeric hu ha hc, compare_eq_then hxle hyle]

/-- The laws of the order that an operator asks for. Where one direction has an order, or none for
null, so has the other; hence the one fails exactly when the other does. -/
structure OrderLaws (operator : String) : Prop where
  eq_of_equals : ∀ v w o, v.equals w = .ok true → order operator v w = .ok (some o) → o = .eq
  existsUnique : ∀ v w, Comparable v w → ∃! o, order operator v w = .ok (some o)
  eq_iff_equals : ∀ v w, Comparable v w →
    (order operator v w = .ok (some .eq) ↔ v.equals w = .ok true)
  trans : ∀ u v w x y, Comparable u v → Comparable v w → order operator u v = .ok (some x) →
    order operator v w = .ok (some y) → x.isLE = true → y.isLE = true →
      order operator u w = .ok (some (x.then y))
  swap : ∀ v w o, order operator v w = .ok o ↔ order operator w v = .ok (o.map Ordering.swap)

theorem orderLaws (operator : String) : OrderLaws operator where
  eq_of_equals v w o := eq_of_equals_of_order
  existsUnique v w h := by
    obtain ⟨o, ho⟩ := h.exists_order operator
    refine ⟨o, ho, fun other hother => ?_⟩
    exact Option.some.inj (Except.ok.inj (hother.symm.trans ho))
  eq_iff_equals v w h := h.order_eq_iff
  trans u v w x y huv hvw := huv.order_trans hvw
  swap v w o := by
    rw [order_eq_ok_iff, order_eq_ok_iff]
    exact Ranked.swap_iff

end Value

namespace Operator

variable {eval : Expression → Outcome} {x y : Expression}

theorem comparison_eq_ok_iff {op : Operator} {answer : Bool} :
    op.comparison eval x y = .ok answer ↔
      ∃ v w o, eval x = .ok v ∧ eval y = .ok w ∧ Value.Ranked v w o ∧
        answer = o.any op.holds := by
  constructor
  · intro h
    obtain ⟨v, hv, h⟩ := exists_of_bind_eq_ok h
    obtain ⟨w, hw, h⟩ := exists_of_bind_eq_ok h
    obtain ⟨o, ho, h⟩ := exists_of_bind_eq_ok h
    refine ⟨v, w, o, hv, hw, Value.order_eq_ok_iff.mp ho, ?_⟩
    cases o with
    | none => exact (Except.ok.inj h).symm
    | some o => exact (Except.ok.inj h).symm
  · rintro ⟨v, w, o, hv, hw, ho, rfl⟩
    have horder : Value.order op.name v w = .ok o := Value.order_eq_ok_iff.mpr ho
    rw [comparison, hv, hw]
    change (Value.order op.name v w >>= _) = _
    rw [horder]
    cases o <;> rfl

/-- Two comparisons of which one asks for the contrary of the other. -/
theorem comparison_not {op other : Operator} (hholds : ∀ o, op.holds o = !other.holds o)
    (hx : eval x ≠ .ok .null) (hy : eval y ≠ .ok .null) {answer : Bool}
    (h : op.comparison eval x y = .ok answer) : other.comparison eval x y = .ok !answer := by
  obtain ⟨v, w, o, hv, hw, hranked, rfl⟩ := comparison_eq_ok_iff.mp h
  refine comparison_eq_ok_iff.mpr ⟨v, w, o, hv, hw, hranked, ?_⟩
  cases o with
  | some o => rw [Option.any_some, Option.any_some, hholds, Bool.not_not]
  | none =>
    -- Only null has no order.
    cases hranked with
    | null_left => exact absurd hv hx
    | null_right => exact absurd hw hy

theorem comparison_not_iff {op other : Operator} (hholds : ∀ o, op.holds o = !other.holds o)
    (hx : eval x ≠ .ok .null) (hy : eval y ≠ .ok .null) (answer : Bool) :
    op.comparison eval x y = .ok answer ↔ other.comparison eval x y = .ok !answer := by
  have hback : ∀ o, other.holds o = !op.holds o := fun o => by rw [hholds, Bool.not_not]
  constructor
  · exact comparison_not hholds hx hy
  · intro h
    have hanswer := comparison_not hback hx hy h
    rwa [Bool.not_not] at hanswer

end Operator

namespace Expression

theorem map_bool_eq_iff {x : Except Error Bool} {b : Bool} :
    x.map Value.bool = .ok (.bool b) ↔ x = .ok b := by
  cases x <;> simp [Except.map]

/-- Equality and order never contradict each other. The order is total and transitive among texts,
and among numbers and booleans, and it is reversed with its sides. Unless an operand is null,
the weak comparisons are the negations of the strict ones. -/
theorem order_agrees_with_equality :
    (∀ operator : String, Value.OrderLaws operator) ∧
      ∀ (ctx : Context) (left right : Expression), left.evaluate ctx ≠ .ok .null →
        right.evaluate ctx ≠ .ok .null → ∀ answer : Bool,
          ((call .lte [left, right]).evaluate ctx = .ok (.bool answer) ↔
            (call .gt [left, right]).evaluate ctx = .ok (.bool !answer)) ∧
          ((call .gte [left, right]).evaluate ctx = .ok (.bool answer) ↔
            (call .lt [left, right]).evaluate ctx = .ok (.bool !answer)) := by
  refine ⟨Value.orderLaws, fun ctx left right hleft hright answer => ?_⟩
  constructor
  · rw [evaluate_call_of_accepts rfl, evaluate_call_of_accepts rfl]
    change (Operator.lte.comparison _ _ _).map _ = _ ↔ (Operator.gt.comparison _ _ _).map _ = _
    rw [map_bool_eq_iff, map_bool_eq_iff]
    exact Operator.comparison_not_iff (by decide) hleft hright answer
  · rw [evaluate_call_of_accepts rfl, evaluate_call_of_accepts rfl]
    change (Operator.gte.comparison _ _ _).map _ = _ ↔ (Operator.lt.comparison _ _ _).map _ = _
    rw [map_bool_eq_iff, map_bool_eq_iff]
    exact Operator.comparison_not_iff (by decide) hleft hright answer

/-- One with a place. -/
def placedOne : Value :=
  .number ⟨false, 10, 1, Nat.le_of_ble_eq_true rfl, Nat.le_of_ble_eq_true rfl⟩

/-- The text `1` is equal to the number, so that no order but equality can hold of the two; and as
the number is not above two it is at most two. -/
theorem one_at_most_two :
    (Value.text "1").equals placedOne = .ok true ∧
      Value.order "lt" (.text "1") placedOne = .ok (some .eq) ∧
      (call .gt [.literal placedOne, int 2]).evaluate (.empty 0) = .ok (.bool false) ∧
      (call .lte [.literal placedOne, int 2]).evaluate (.empty 0) = .ok (.bool true) := by
  obtain ⟨hlaws, hnegation⟩ := order_agrees_with_equality
  have hequal : (Value.text "1").equals placedOne = .ok true := rfl
  have hordered : ∃ o, Value.order "lt" (.text "1") placedOne = .ok (some o) := ⟨_, rfl⟩
  obtain ⟨o, ho⟩ := hordered
  obtain rfl := (hlaws "lt").eq_of_equals _ _ o hequal ho
  have hgt : (call .gt [.literal placedOne, int 2]).evaluate (.empty 0) = .ok (.bool false) := rfl
  have hone : (Expression.literal placedOne).evaluate (.empty 0) ≠ .ok .null :=
    fun h => Value.noConfusion (Except.ok.inj h)
  have htwo : (int 2).evaluate (.empty 0) ≠ .ok .null :=
    fun h => Value.noConfusion (Except.ok.inj h)
  exact ⟨hequal, ho, hgt, (hnegation (.empty 0) _ _ hone htwo true).1.mpr hgt⟩

end Expression

end Questionnaire
