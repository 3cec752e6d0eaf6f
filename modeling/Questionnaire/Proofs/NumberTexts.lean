import Questionnaire.Proofs.Equality
import Questionnaire.Proofs.Selection

/-! Numbers given as texts: wherever a number is asked for, its text form is read as that number,
and wherever a text is asked for, all representations of the number give that one form. -/
namespace Questionnaire

namespace Value

/-- Two numbers have one text form just if they are equal. -/
theorem toText?_number_eq_iff (d e : Decimal) :
    (number e).toText? = some d.canonicalText ↔ e.toRat = d.toRat := by
  rw [toText?, Option.some.injEq, Decimal.canonicalText_eq_iff, Decimal.equal_iff]

theorem asNumber_canonicalText (d : Decimal) (operator : String) :
    (text d.canonicalText).asNumber operator = .ok d.normalize := by
  rw [asNumber, d.ofText?_canonicalText]

theorem equals_canonicalText (d e : Decimal) :
    (text d.canonicalText).equals (number e) = .ok (decide (e.toRat = d.toRat)) := by
  rw [equals_text_left, Except.ok.injEq, decide_eq_decide]
  exact toText?_number_eq_iff d e

theorem asKey_canonicalText (operator : String) (d e : Decimal) :
    (number e).asKey operator = (text d.canonicalText).asKey operator ↔ e.toRat = d.toRat := by
  rw [asKey, asKey, Except.ok.injEq, Decimal.canonicalText_eq_iff, Decimal.equal_iff]

end Value

namespace Expression

def getResponseValueAsStr (item path : String) : Expression :=
  onResponse .getResponseValueAsStr item path []

variable {ctx : Context} {item path : String} {v : Value}

theorem evaluate_getResponseValueAsNum {d : Decimal} (hleaf : ctx.leafValue? item path = some v)
    (hnumber : v.asNumber Operator.getResponseValueAsNum.name = .ok d) :
    (getResponseValueAsNum item path).evaluate ctx = .ok (.number d) := by
  have hread : Operator.getResponseValueAsNum.leafValueOf (evaluate ctx) ctx (text item)
      (text path) = .ok (some v) := congrArg Except.ok hleaf
  rw [getResponseValueAsNum, onResponse, evaluate_call_of_accepts rfl]
  change Operator.getResponseValueAsNum.responseNumber _ ctx (text item) (text path) = _
  simp only [Operator.responseNumber, hread, hnumber, bind, Except.bind, pure, Except.pure]

theorem evaluate_getResponseValueAsStr {s : String} (hleaf : ctx.leafValue? item path = some v)
    (htext : v.toText? = some s) :
    (getResponseValueAsStr item path).evaluate ctx = .ok (.text s) := by
  have hread : Operator.getResponseValueAsStr.leafValueOf (evaluate ctx) ctx (text item)
      (text path) = .ok (some v) := congrArg Except.ok hleaf
  rw [getResponseValueAsStr, onResponse, evaluate_call_of_accepts rfl]
  change Operator.getResponseValueAsStr.responseText _ ctx (text item) (text path) = _
  simp only [Operator.responseText, hread, htext, bind, Except.bind, pure, Except.pure,
    Option.bind_some]

/-- The text form of a number is that of all its representations and of no other number. It converts
to the number, equals it and no other, and is the same option key. An answer that is the text reads
as the number, and an answer that is the number as the text. -/
theorem text_form_denotes_number (d : Decimal) :
    ∃ t, (Value.number d).toText? = some t ∧
      (∀ e : Decimal, (Value.number e).toText? = some t ↔ e.toRat = d.toRat) ∧
      (∀ operator, ∃ e : Decimal,
        (Value.text t).asNumber operator = .ok e ∧ e.toRat = d.toRat) ∧
      (∀ e : Decimal, (Value.text t).equals (.number e) = .ok (decide (e.toRat = d.toRat))) ∧
      (∀ (operator : String) (e : Decimal),
        (Value.number e).asKey operator = (Value.text t).asKey operator ↔ e.toRat = d.toRat) ∧
      ∀ ctx item path,
        (ctx.leafValue? item path = some (.text t) → ∃ e : Decimal,
          (getResponseValueAsNum item path).evaluate ctx = .ok (.number e) ∧
            e.toRat = d.toRat) ∧
        (ctx.leafValue? item path = some (.number d) →
          (getResponseValueAsStr item path).evaluate ctx = .ok (.text t)) := by
  have hvalue : d.normalize.toRat = d.toRat := d.toRat_normalize
  refine ⟨d.canonicalText, rfl, Value.toText?_number_eq_iff d, fun operator => ?_,
    Value.equals_canonicalText d, fun operator => Value.asKey_canonicalText operator d,
    fun ctx item path => ?_⟩
  · exact ⟨d.normalize, Value.asNumber_canonicalText d operator, hvalue⟩
  · constructor
    · intro hleaf
      have hnumber := Value.asNumber_canonicalText d Operator.getResponseValueAsNum.name
      exact ⟨d.normalize, evaluate_getResponseValueAsNum hleaf hnumber, hvalue⟩
    · intro hleaf
      exact evaluate_getResponseValueAsStr hleaf rfl

/-- The negative number of all 96 bits and 28 places. -/
def finest : Decimal :=
  ⟨true, Decimal.coefficientBound - 1, 28, by decide, by decide⟩

/-- Answers with that number as a text and as a number. -/
def finestContext : Context :=
  ⟨[("q", .group "rg" [.leaf "text" (some (.text "-7.9228162514264337593543950335")),
    .leaf "number" (some (.number finest))])], [], none, 0⟩

/-- The text with all digits is read as a number that has the value of the other answer, and the
other answer as the text. -/
theorem finest_text_read :
    (∃ e : Decimal, (getResponseValueAsNum "q" "rg.text").evaluate finestContext = .ok (.number e) ∧
      e.toRat = finest.toRat) ∧
      (getResponseValueAsStr "q" "rg.number").evaluate finestContext =
        .ok (.text "-7.9228162514264337593543950335") := by
  obtain ⟨t, ht, -, -, -, -, hread⟩ := text_form_denotes_number finest
  have hform : (Value.number finest).toText? = some "-7.9228162514264337593543950335" := by
    decide +kernel
  obtain rfl := Option.some.inj (ht.symm.trans hform)
  exact ⟨(hread finestContext "q" "rg.text").1 (by rfl),
    (hread finestContext "q" "rg.number").2 (by rfl)⟩

end Expression

end Questionnaire
