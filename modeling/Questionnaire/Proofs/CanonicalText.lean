import Mathlib.Data.List.TakeWhile
import Questionnaire.Decimal.Text
import Questionnaire.Proofs.NormalForm
import Questionnaire.Text.Blank

/-! Decimals as texts: what is written is read back as it stands, so that a number has one canonical
text and no other number has the same. -/
namespace Questionnaire

namespace Text

theorem trimmed_of_not_blank {s : List Char} (h : ∀ c ∈ s, isBlank c = false) : trimmed s = s := by
  have hkept : ∀ t : List Char, (∀ c ∈ t, isBlank c = false) → t.dropWhile isBlank = t := by
    intro t ht
    cases t with
    | nil => rfl
    | cons c rest => simp [ht c List.mem_cons_self]
  have hreverse : ∀ c ∈ s.reverse, isBlank c = false := fun c hc => h c (List.mem_reverse.mp hc)
  rw [trimmed, hkept s h, hkept s.reverse hreverse, List.reverse_reverse]

end Text

namespace Decimal

theorem digit?_of_isDigit {c : Char} (h : c.isDigit = true) :
    digit? c = some (c.toNat - '0'.toNat) :=
  if_pos h

theorem le_ofDigitChars (ds : List Char) (n : Nat) : n ≤ Nat.ofDigitChars 10 ds n := by
  induction ds generalizing n with
  | nil => exact Nat.le_refl n
  | cons c rest ih =>
    have hstep := ih (10 * n + (c.toNat - '0'.toNat))
    rw [Nat.ofDigitChars_cons]
    omega

theorem ofDigitChars_zeros (k : Nat) (ds : List Char) :
    Nat.ofDigitChars 10 (List.replicate k '0' ++ ds) 0 = Nat.ofDigitChars 10 ds 0 := by
  induction k with
  | zero => rfl
  | succ k ih =>
    rw [List.replicate_succ, List.cons_append, Nat.ofDigitChars_cons]
    exact ih

namespace Reading

/-- A digit for which there is room is appended to the coefficient. -/
theorem digits?_cons_digit {r : Reading} {c : Char} (hdigit : c.isDigit = true)
    (hroom : 10 * r.coefficient + (c.toNat - '0'.toNat) < coefficientBound)
    (hplace : r.point = true → r.scale < 28) (rest : List Char) :
    r.digits? (c :: rest) = digits? ⟨10 * r.coefficient + (c.toNat - '0'.toNat),
      if r.point then r.scale + 1 else 0, r.point, true⟩ rest := by
  have hfits : (r.point && (decide (r.scale = 28) ||
      decide (coefficientBound ≤ 10 * r.coefficient + (c.toNat - '0'.toNat)))) = false := by
    cases hpoint : r.point with
    | false => rfl
    | true =>
      have hscale := hplace hpoint
      simp only [Bool.true_and, Bool.or_eq_false_iff, decide_eq_false_iff_not]
      constructor <;> omega
  rw [digits?, digit?_of_isDigit hdigit]
  dsimp only
  rw [if_neg (by rw [hfits]; exact Bool.false_ne_true), if_neg (by omega)]

/-- Digits for which there is room are read as they stand, and whatever follows them after that. -/
theorem digits?_append {r : Reading} {ds : List Char} (hdigits : ∀ c ∈ ds, c.isDigit = true)
    (hroom : Nat.ofDigitChars 10 ds r.coefficient < coefficientBound)
    (hplaces : r.point = true → r.scale + ds.length ≤ 28) (hwhole : r.point = false → r.scale = 0)
    (rest : List Char) :
    r.digits? (ds ++ rest) = digits? ⟨Nat.ofDigitChars 10 ds r.coefficient,
      if r.point then r.scale + ds.length else 0, r.point, r.started || !ds.isEmpty⟩ rest := by
  induction ds generalizing r with
  | nil =>
    obtain ⟨coefficient, scale, point, started⟩ := r
    cases point with
    | false =>
      obtain rfl : scale = 0 := hwhole rfl
      simp
    | true => simp
  | cons c more ih =>
    have hdigit : c.isDigit = true := hdigits c List.mem_cons_self
    rw [Nat.ofDigitChars_cons] at hroom
    have hfirst : 10 * r.coefficient + (c.toNat - '0'.toNat) < coefficientBound :=
      Nat.lt_of_le_of_lt (le_ofDigitChars more _) hroom
    have hplace : r.point = true → r.scale < 28 := by
      intro hpoint
      have hlength := hplaces hpoint
      rw [List.length_cons] at hlength
      omega
    rw [List.cons_append, digits?_cons_digit hdigit hfirst hplace, ih]
    · cases hpoint : r.point with
      | false => simp [Nat.ofDigitChars_cons]
      | true =>
        have hscale : r.scale + 1 + more.length = r.scale + (more.length + 1) := by omega
        simp [Nat.ofDigitChars_cons, hscale]
    · exact fun other hother => hdigits other (List.mem_cons_of_mem c hother)
    · exact hroom
    · intro hpoint
      have hlength := hplaces hpoint
      change r.point = true at hpoint
      simp only [hpoint, if_true, List.length_cons] at hlength ⊢
      omega
    · intro hpoint
      change r.point = false at hpoint
      simp [hpoint]

theorem digits?_whole {ds : List Char} (hne : ds ≠ []) (hdigits : ∀ c ∈ ds, c.isDigit = true)
    (hroom : Nat.ofDigitChars 10 ds 0 < coefficientBound) (rest : List Char) :
    empty.digits? (ds ++ rest) = digits? ⟨Nat.ofDigitChars 10 ds 0, 0, false, true⟩ rest := by
  have hstarted : (!ds.isEmpty) = true := by simp [hne]
  have hpoint : empty.point = true → empty.scale + ds.length ≤ 28 := fun h => absurd h (by decide)
  rw [digits?_append hdigits hroom hpoint (fun _ => rfl), hstarted]
  rfl

theorem digits?_fraction {ds : List Char} {n : Nat} (hdigits : ∀ c ∈ ds, c.isDigit = true)
    (hroom : Nat.ofDigitChars 10 ds n < coefficientBound) (hplaces : ds.length ≤ 28) :
    digits? ⟨n, 0, false, true⟩ ('.' :: ds) =
      some ⟨Nat.ofDigitChars 10 ds n, ds.length, true, true⟩ := by
  have hpoint : digits? ⟨n, 0, false, true⟩ ('.' :: ds) = digits? ⟨n, 0, true, true⟩ ds := rfl
  have hread := digits?_append (r := ⟨n, 0, true, true⟩) hdigits hroom
    (fun _ => (Nat.zero_add ds.length).symm ▸ hplaces) (fun h => Bool.noConfusion h) []
  rw [List.append_nil] at hread
  rw [hpoint, hread]
  simp [digits?]

end Reading

/-- The digits of the coefficient, with zeros in front so that some stand before the point. -/
def digitChars (d : Decimal) : List Char :=
  let digits := Nat.toDigits 10 d.coefficient
  List.replicate (d.scale + 1 - digits.length) '0' ++ digits

/-- The digits before the point. -/
def wholeChars (d : Decimal) : List Char := d.digitChars.take (d.digitChars.length - d.scale)

/-- The digits after the point. -/
def fractionChars (d : Decimal) : List Char := d.digitChars.drop (d.digitChars.length - d.scale)

def signChars (d : Decimal) : List Char := if d.negative then ['-'] else []

def pointChars (d : Decimal) : List Char := if d.scale = 0 then [] else '.' :: d.fractionChars

theorem toList_toText (d : Decimal) :
    d.toText.toList = d.signChars ++ d.wholeChars ++ d.pointChars :=
  String.toList_ofList

theorem wholeChars_append_fractionChars (d : Decimal) :
    d.wholeChars ++ d.fractionChars = d.digitChars :=
  List.take_append_drop _ _

theorem isDigit_of_mem_digitChars {d : Decimal} {c : Char} (h : c ∈ d.digitChars) :
    c.isDigit = true := by
  rcases List.mem_append.mp h with hzero | hdigit
  · obtain rfl := (List.mem_replicate.mp hzero).2
    decide
  · exact Nat.isDigit_of_mem_toDigits (by decide) (by decide) hdigit

theorem isDigit_of_mem_wholeChars {d : Decimal} {c : Char} (h : c ∈ d.wholeChars) :
    c.isDigit = true :=
  isDigit_of_mem_digitChars (List.mem_of_mem_take h)

theorem isDigit_of_mem_fractionChars {d : Decimal} {c : Char} (h : c ∈ d.fractionChars) :
    c.isDigit = true :=
  isDigit_of_mem_digitChars (List.mem_of_mem_drop h)

theorem scale_lt_length_digitChars (d : Decimal) : d.scale < d.digitChars.length := by
  rw [digitChars, List.length_append, List.length_replicate]
  omega

theorem wholeChars_ne_nil (d : Decimal) : d.wholeChars ≠ [] := by
  have hlength := d.scale_lt_length_digitChars
  rw [← List.length_pos_iff, wholeChars, List.length_take]
  omega

theorem length_fractionChars (d : Decimal) : d.fractionChars.length = d.scale := by
  have hlength := d.scale_lt_length_digitChars
  rw [fractionChars, List.length_drop]
  omega

theorem ofDigitChars_digitChars (d : Decimal) :
    Nat.ofDigitChars 10 d.digitChars 0 = d.coefficient := by
  rw [digitChars, ofDigitChars_zeros, Nat.ofDigitChars_toDigits (by decide) (by decide)]

theorem ofDigitChars_fractionChars (d : Decimal) :
    Nat.ofDigitChars 10 d.fractionChars (Nat.ofDigitChars 10 d.wholeChars 0) = d.coefficient := by
  rw [← Nat.ofDigitChars_append, wholeChars_append_fractionChars, ofDigitChars_digitChars]

/-- What is read from the digits and the point of a decimal. -/
theorem digits?_written (d : Decimal) :
    Reading.empty.digits? (d.wholeChars ++ d.pointChars) =
      some ⟨d.coefficient, d.scale, d.scale ≠ 0, true⟩ := by
  have hcoefficient := d.ofDigitChars_fractionChars
  have hroom : Nat.ofDigitChars 10 d.wholeChars 0 < coefficientBound := by
    have hle := le_ofDigitChars d.fractionChars (Nat.ofDigitChars 10 d.wholeChars 0)
    have hlt := d.coefficient_lt
    omega
  rw [Reading.digits?_whole d.wholeChars_ne_nil (fun c => isDigit_of_mem_wholeChars) hroom,
    pointChars]
  by_cases hscale : d.scale = 0
  · have hfraction : d.fractionChars = [] := by
      rw [← List.length_eq_zero_iff, length_fractionChars, hscale]
    rw [hfraction] at hcoefficient
    change Nat.ofDigitChars 10 d.wholeChars 0 = d.coefficient at hcoefficient
    simp [Reading.digits?, hcoefficient, hscale]
  · rw [if_neg hscale, Reading.digits?_fraction (fun c => isDigit_of_mem_fractionChars)
      (hcoefficient ▸ d.coefficient_lt) (d.length_fractionChars ▸ d.scale_le), hcoefficient,
      length_fractionChars]
    simp [hscale]

theorem ofPlain?_minus (s : List Char) : ofPlain? ('-' :: s) =
    (Reading.empty.digits? s).bind fun r => ofParts? true r.coefficient r.scale :=
  rfl

theorem ofPlain?_cons_digit {c : Char} (h : c.isDigit = true) (rest : List Char) :
    ofPlain? (c :: rest) =
      (Reading.empty.digits? (c :: rest)).bind fun r => ofParts? false r.coefficient r.scale := by
  have hminus : c ≠ '-' := by
    rintro rfl
    exact absurd h (by decide)
  have hplus : c ≠ '+' := by
    rintro rfl
    exact absurd h (by decide)
  simp [ofPlain?, hminus, hplus]

/-- Plain notation keeps coefficient, places and sign. -/
theorem ofPlain?_toText (d : Decimal) : ofPlain? d.toText.toList = some d := by
  have hparts : ofParts? d.negative d.coefficient d.scale = some d :=
    dif_pos ⟨d.coefficient_lt, d.scale_le⟩
  have hdigits := d.digits?_written
  rw [toList_toText, signChars, List.append_assoc]
  cases hnegative : d.negative with
  | true =>
    rw [hnegative] at hparts
    rw [if_pos rfl, List.singleton_append, ofPlain?_minus, hdigits, Option.bind_some, hparts]
  | false =>
    rw [hnegative] at hparts
    obtain ⟨c, rest, hwhole⟩ := List.exists_cons_of_ne_nil d.wholeChars_ne_nil
    have hdigit : c.isDigit = true := isDigit_of_mem_wholeChars (hwhole ▸ List.mem_cons_self)
    rw [hwhole, List.cons_append] at hdigits
    rw [if_neg Bool.false_ne_true, List.nil_append, hwhole, List.cons_append,
      ofPlain?_cons_digit hdigit, hdigits, Option.bind_some, hparts]

theorem toText_injective {a b : Decimal} (h : a.toText = b.toText) : a = b := by
  have ha := ofPlain?_toText a
  rw [h, ofPlain?_toText b] at ha
  exact (Option.some.inj ha).symm

/-- Two numbers are equal just if their canonical texts are. -/
theorem canonicalText_eq_iff {a b : Decimal} :
    a.canonicalText = b.canonicalText ↔ a.equal b = true := by
  rw [equal_iff, ← normalize_eq_iff]
  constructor
  · exact toText_injective
  · intro h
    rw [canonicalText, canonicalText, h]

theorem not_blank_of_isDigit {c : Char} (h : c.isDigit = true) : Text.isBlank c = false := by
  have hrange : 48 ≤ c.toNat ∧ c.toNat ≤ 57 := Char.isDigit_iff_toNat.mp h
  simp only [Text.isBlank, Bool.or_eq_false_iff, Bool.and_eq_false_iff, decide_eq_false_iff_not]
  omega

theorem not_blank_of_mem_toText {d : Decimal} {c : Char} (h : c ∈ d.toText.toList) :
    Text.isBlank c = false := by
  rw [toList_toText, List.mem_append, List.mem_append, signChars, pointChars] at h
  rcases h with (hsign | hwhole) | hpoint
  · split at hsign
    · obtain rfl := List.mem_singleton.mp hsign
      decide
    · cases hsign
  · exact not_blank_of_isDigit (isDigit_of_mem_wholeChars hwhole)
  · split at hpoint
    · cases hpoint
    · rcases List.mem_cons.mp hpoint with rfl | hfraction
      · decide
      · exact not_blank_of_isDigit (isDigit_of_mem_fractionChars hfraction)

/-- The canonical text of a number is read as its normal form, also where white space is ignored. -/
theorem ofText?_canonicalText (d : Decimal) :
    ofText? (Text.trimmed d.canonicalText.toList) = some d.normalize := by
  rw [canonicalText, Text.trimmed_of_not_blank fun c => not_blank_of_mem_toText, ofText?,
    ofPlain?_toText]

end Decimal

end Questionnaire
