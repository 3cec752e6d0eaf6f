import Questionnaire.Proofs.CanonicalText
import Questionnaire.Value.Comparison

/-! Equality of values: reflexive and symmetric throughout, and an equivalence on texts and numbers,
which are equal just if their text forms are. -/
namespace Questionnaire

namespace Decimal

theorem equal_self (d : Decimal) : d.equal d = true := equal_iff.mpr rfl

theorem equal_comm (a b : Decimal) : a.equal b = b.equal a := by
  rw [Bool.eq_iff_iff, equal_iff, equal_iff]
  exact eq_comm

end Decimal

namespace Value

mutual

theorem same_self (v : Value) : same v v = true := by
  cases v with
  | null => rfl
  | bool b => exact decide_eq_true rfl
  | number d => exact d.equal_self
  | text s => exact decide_eq_true rfl
  | record fields => exact sameFields_self fields

theorem sameFields_self (fields : List (String × Value)) : sameFields fields fields = true := by
  cases fields with
  | nil => rfl
  | cons field rest =>
    obtain ⟨name, v⟩ := field
    rw [sameFields, same_self v, sameFields_self rest, decide_eq_true rfl]
    rfl

end

mutual

theorem same_comm (v w : Value) : same v w = same w v := by
  cases v with
  | null => cases w <;> rfl
  | bool b =>
    cases w with
    | bool c => simp only [same, eq_comm]
    | _ => rfl
  | number d =>
    cases w with
    | number e => exact Decimal.equal_comm d e
    | _ => rfl
  | text s =>
    cases w with
    | text t => simp only [same, eq_comm]
    | _ => rfl
  | record fields =>
    cases w with
    | record others => exact sameFields_comm fields others
    | _ => rfl

theorem sameFields_comm (fields others : List (String × Value)) :
    sameFields fields others = sameFields others fields := by
  cases fields with
  | nil => cases others <;> rfl
  | cons field rest =>
    cases others with
    | nil => rfl
    | cons other more =>
      obtain ⟨m, v⟩ := field
      obtain ⟨n, w⟩ := other
      have hname : decide (m = n) = decide (n = m) := by simp only [eq_comm]
      rw [sameFields, sameFields, same_comm v w, sameFields_comm rest more, hname]

end

theorem equals_text_left (s : String) (v : Value) :
    (text s).equals v = .ok (decide (v.toText? = some s)) := by
  cases v <;> rfl

theorem equals_text_right (v : Value) (s : String) :
    v.equals (text s) = .ok (decide (v.toText? = some s)) := by
  cases v with
  | text t =>
    rw [equals_text_left, toText?, toText?]
    simp only [eq_comm]
  | _ => rfl

theorem equals_number (a b : Decimal) : (number a).equals (number b) = .ok (a.equal b) := rfl

theorem equals_self (v : Value) : v.equals v = .ok true := by
  cases v with
  | null => rfl
  | bool b => exact congrArg _ (decide_eq_true rfl)
  | number d => rw [equals_number, d.equal_self]
  | text s => rw [equals_text_left, toText?, decide_eq_true rfl]
  | record fields =>
    change Except.ok (sameFields fields fields) = _
    rw [sameFields_self]

/-- Also the errors do not tell the two sides apart: a record is named first in each of them. -/
theorem equals_comm (v w : Value) : v.equals w = w.equals v := by
  cases v with
  | text s => rw [equals_text_left, equals_text_right]
  | null => cases w <;> rfl
  | bool b =>
    cases w with
    | bool c =>
      change Except.ok (decide (b = c)) = .ok (decide (c = b))
      simp only [eq_comm]
    | number d => exact congrArg _ (Decimal.equal_comm _ d)
    | _ => rfl
  | number d =>
    cases w with
    | bool c => exact congrArg _ (Decimal.equal_comm d _)
    | number e => exact congrArg _ (Decimal.equal_comm d e)
    | _ => rfl
  | record fields =>
    cases w with
    | record others => exact congrArg _ (sameFields_comm fields others)
    | _ => rfl

def IsTextOrNumber : Value → Prop
  | .text _ => True
  | .number _ => True
  | _ => False

/-- Texts and numbers are equal just if their text forms are. -/
theorem equals_eq_of_isTextOrNumber {v w : Value} (hv : v.IsTextOrNumber)
    (hw : w.IsTextOrNumber) :
    ∃ s t, v.toText? = some s ∧ w.toText? = some t ∧ v.equals w = .ok (decide (s = t)) := by
  cases v with
  | text s =>
    have hform : ∃ t, w.toText? = some t := by
      cases w with
      | text t => exact ⟨t, rfl⟩
      | number d => exact ⟨d.canonicalText, rfl⟩
      | _ => exact hw.elim
    obtain ⟨t, ht⟩ := hform
    refine ⟨s, t, rfl, ht, ?_⟩
    rw [equals_text_left, ht]
    simp only [Option.some.injEq, eq_comm]
  | number a =>
    cases w with
    | text t =>
      refine ⟨a.canonicalText, t, rfl, rfl, ?_⟩
      rw [equals_text_right, toText?]
      simp only [Option.some.injEq]
    | number b =>
      refine ⟨a.canonicalText, b.canonicalText, rfl, rfl, ?_⟩
      rw [equals_number, Except.ok.injEq, Bool.eq_iff_iff, decide_eq_true_iff]
      exact Decimal.canonicalText_eq_iff.symm
    | _ => exact hw.elim
  | _ => exact hv.elim

theorem equals_trans {u v w : Value} (hu : u.IsTextOrNumber) (hv : v.IsTextOrNumber)
    (hw : w.IsTextOrNumber) (huv : u.equals v = .ok true) (hvw : v.equals w = .ok true) :
    u.equals w = .ok true := by
  obtain ⟨r, s, hr, hs, hrs⟩ := equals_eq_of_isTextOrNumber hu hv
  obtain ⟨s', t, hs', ht, hst⟩ := equals_eq_of_isTextOrNumber hv hw
  obtain ⟨r', t', hr', ht', hrt⟩ := equals_eq_of_isTextOrNumber hu hw
  obtain rfl : s = s' := Option.some.inj (hs.symm.trans hs')
  obtain rfl : r = r' := Option.some.inj (hr.symm.trans hr')
  obtain rfl : t = t' := Option.some.inj (ht.symm.trans ht')
  have hleft : r = s := of_decide_eq_true (Except.ok.inj (hrs.symm.trans huv))
  have hright : s = t := of_decide_eq_true (Except.ok.inj (hst.symm.trans hvw))
  rw [hrt, decide_eq_true (hleft.trans hright)]

/-- Equality is reflexive and symmetric on all values, also in its errors. On texts and numbers it
never fails, is equality of the text forms, and so is an equivalence. -/
theorem equality_of_text_forms :
    (∀ v : Value, v.equals v = .ok true) ∧
      (∀ v w : Value, v.equals w = w.equals v) ∧
      (∀ v w : Value, v.IsTextOrNumber → w.IsTextOrNumber →
        ∃ s t, v.toText? = some s ∧ w.toText? = some t ∧ v.equals w = .ok (decide (s = t))) ∧
      Equivalence fun v w : { v : Value // v.IsTextOrNumber } => v.1.equals w.1 = .ok true := by
  refine ⟨equals_self, equals_comm, fun v w => equals_eq_of_isTextOrNumber, ?_⟩
  constructor
  · exact fun v => equals_self v.1
  · intro v w h
    rw [equals_comm, h]
  · intro u v w huv hvw
    exact equals_trans u.2 v.2 w.2 huv hvw

/-- Zero with a sign and two places. -/
def signedZero : Decimal :=
  { Decimal.zero with negative := true, scale := 2, scale_le := Nat.le_add_right 2 26 }

/-- A zero with a sign is equal to the text of zero, and by that to any other zero. -/
theorem zeros_are_equal :
    (number signedZero).equals (text "0") = .ok true ∧
      (number signedZero).equals (number .zero) = .ok true := by
  obtain ⟨-, -, -, hequivalence⟩ := equality_of_text_forms
  have hsigned : (number signedZero).equals (text "0") = .ok true := by decide +kernel
  have hplain : (text "0").equals (number .zero) = .ok true := by decide +kernel
  exact ⟨hsigned, hequivalence.trans (x := ⟨number signedZero, trivial⟩) (y := ⟨text "0", trivial⟩)
    (z := ⟨number .zero, trivial⟩) hsigned hplain⟩

end Value

end Questionnaire
