import Mathlib.Data.Rat.Lemmas
import Questionnaire.Proofs.Convertible
import Questionnaire.Proofs.WireForm

/-! Integers of 64 bits as values, and what such values are written as. -/
namespace Questionnaire

namespace Json

/-- An integer of 64 bits, with a sign or without one. -/
def Number.IsWord : Number → Prop
  | .int i => -2 ^ 63 ≤ i ∧ i < 2 ^ 64
  | .float _ => False

/-- An integer of 64 bits with a sign. -/
def Number.IsSignedWord : Number → Prop
  | .int i => -2 ^ 63 ≤ i ∧ i < 2 ^ 63
  | .float _ => False

/-- The nearest binary number in place of an integer above those with a sign. -/
def Number.narrowed : Number → Number
  | .int i => if i < 2 ^ 63 then .int i else .float (.nearest i)
  | n => n

mutual

/-- A value with all its numbers narrowed. -/
def narrowed : Json → Json
  | .number n => .number n.narrowed
  | .object members => .object (narrowedMembers members)
  | j => j

def narrowedMembers : List (String × Json) → List (String × Json)
  | [] => []
  | (name, j) :: rest => (name, narrowed j) :: narrowedMembers rest

end

theorem Number.narrowed_eq_iff {n : Number} (h : n.IsWord) : n.narrowed = n ↔ n.IsSignedWord := by
  cases n with
  | int i =>
    obtain ⟨hlo, -⟩ := h
    rw [narrowed, IsSignedWord]
    split <;> simp_all
  | float x => exact h.elim

mutual

theorem narrowed_eq_iff {j : Json} (h : j.Plain Number.IsWord) :
    j.narrowed = j ↔ j.Plain Number.IsSignedWord := by
  cases j with
  | number n =>
    rw [narrowed, number.injEq]
    exact Number.narrowed_eq_iff h
  | array items => exact h.elim
  | object members =>
    rw [narrowed, object.injEq]
    exact narrowedMembers_eq_iff h
  | _ => exact iff_of_true rfl trivial

theorem narrowedMembers_eq_iff {members : List (String × Json)}
    (h : MembersPlain Number.IsWord members) :
    narrowedMembers members = members ↔ MembersPlain Number.IsSignedWord members := by
  cases members with
  | nil => exact iff_of_true rfl trivial
  | cons member rest =>
    obtain ⟨name, j⟩ := member
    obtain ⟨hfirst, hrest⟩ := h
    rw [narrowedMembers, MembersPlain, ← narrowed_eq_iff hfirst, ← narrowedMembers_eq_iff hrest]
    simp

end

end Json

namespace Binary64

theorem negative_ofRatio (negative : Bool) (num den : Nat) :
    (ofRatio negative num den).negative = negative := by
  unfold ofRatio
  dsimp only
  split
  · rfl
  · split
    · rfl
    · split <;> rfl

theorem nearest_intCast {i : Int} (h : 0 ≤ i) : nearest i = ofRatio false i.natAbs 1 := by
  have hsign : decide ((i : Rat) < 0) = false := by
    apply decide_eq_false
    exact_mod_cast Int.not_lt.mpr h
  rw [nearest, hsign]
  rfl

end Binary64

namespace Decimal

/-- An integer has no fraction that would add to it. -/
theorem toBinary_ofInt {i : Int} (hpos : 0 ≤ i) (h : i.natAbs < coefficientBound) :
    (ofInt i).toBinary = .nearest i := by
  have hnegative : (ofInt i).negative = false := decide_eq_false (Int.not_lt.mpr hpos)
  have hpower : Nat.pow 10 (ofInt i).scale = 1 := rfl
  have hfraction : (Binary64.nearest ((Binary64.ofRatio false 0 1).toRat /
      (Binary64.ofRatio false 1 1).toRat)).isZero = true := by decide +kernel
  unfold toBinary
  dsimp only
  rw [hpower, coefficient_ofInt h, hnegative, Nat.div_one, Nat.mod_one, if_pos hfraction,
    Binary64.nearest_intCast hpos]
  generalize hwhole : Binary64.ofRatio false i.natAbs 1 = whole
  have hsign : whole.negative = false := by rw [← hwhole, Binary64.negative_ofRatio]
  rw [← hsign]

end Decimal

namespace Value

theorem numberToJson_ofInt {i : Int} (hlo : -2 ^ 63 ≤ i) (hhi : i < 2 ^ 64) :
    numberToJson (.ofInt i) = .number (Json.Number.int i).narrowed := by
  have hbound : i.natAbs < Decimal.coefficientBound := by
    unfold Decimal.coefficientBound
    omega
  have hmin : Int64.minValue.toInt = -2 ^ 63 := by decide
  have hmax : Int64.maxValue.toInt = 2 ^ 63 - 1 := by decide
  rw [numberToJson, if_pos (Decimal.isInteger_ofInt i)]
  simp only [Decimal.toInt64?, Decimal.integerPart_ofInt hbound, hmin, hmax, Json.Number.narrowed]
  by_cases hi : i < 2 ^ 63
  · rw [if_pos ⟨hlo, by omega⟩, if_pos hi]
    have hword : (Int64.ofInt i).toInt = i := Int64.toInt_ofInt_of_le (by omega) (by omega)
    exact congrArg Json.int hword
  · rw [if_neg (by omega), if_neg hi]
    rw [Decimal.toBinary_ofInt (by omega) hbound]

mutual

/-- Integers of 64 bits are read exactly, and written with those too great for a sign narrowed. -/
theorem exists_narrowed {j : Json} (h : j.Plain Json.Number.IsWord) :
    ∃ v, ofJson j = .ok v ∧ v.toJson = j.narrowed := by
  cases j with
  | number n =>
    cases n with
    | float x => exact h.elim
    | int i =>
      obtain ⟨hlo, hhi⟩ := h
      have hbound : i.natAbs < Decimal.coefficientBound := by
        unfold Decimal.coefficientBound
        omega
      refine ⟨.int i, ?_, numberToJson_ofInt hlo hhi⟩
      rw [ofJson, decimalOfNumber, Decimal.ofInt?_eq_ofInt hbound]
      rfl
  | array items => exact h.elim
  | object members =>
    obtain ⟨fields, hfields, hwritten⟩ := exists_narrowedMembers h
    refine ⟨.record fields, ?_, ?_⟩
    · rw [ofJson, hfields]
      rfl
    · rw [toJson, hwritten, Json.narrowed]
  | _ => exact ⟨_, rfl, rfl⟩

theorem exists_narrowedMembers {members : List (String × Json)}
    (h : Json.MembersPlain Json.Number.IsWord members) :
    ∃ fields, ofMembers members = .ok fields ∧
      fieldsToJson fields = Json.narrowedMembers members := by
  cases members with
  | nil => exact ⟨[], rfl, rfl⟩
  | cons member rest =>
    obtain ⟨name, j⟩ := member
    obtain ⟨hfirst, hrest⟩ := h
    obtain ⟨v, hv, hwritten⟩ := exists_narrowed hfirst
    obtain ⟨fields, hfields, hothers⟩ := exists_narrowedMembers hrest
    refine ⟨(name, v) :: fields, ?_, ?_⟩
    · rw [ofMembers, hv, hfields]
      rfl
    · rw [fieldsToJson, hwritten, hothers, Json.narrowedMembers]

end

/-- Without arrays and with integers of 64 bits for its numbers, JSON stands for a value. It is what
the value is written as, but for the integers that only fit without a sign: for each of them there
is the nearest binary number instead. -/
theorem integers_are_narrowed {j : Json} (h : j.Plain Json.Number.IsWord) :
    ∃ v, ofJson j = .ok v ∧ v.toJson = j.narrowed ∧
      (v.toJson = j ↔ j.Plain Json.Number.IsSignedWord) := by
  obtain ⟨v, hv, hwritten⟩ := exists_narrowed h
  refine ⟨v, hv, hwritten, ?_⟩
  rw [hwritten]
  exact Json.narrowed_eq_iff h

/-- A record in a record, with the least and the greatest integer that have a sign. -/
def signedLimits : Json :=
  .object [("limits", .object [
    ("greatest", .int 9223372036854775807), ("least", .int (-9223372036854775808))])]

theorem signed_limits_written :
    signedLimits.Plain Json.Number.IsWord ∧
      ∃ v, ofJson signedLimits = .ok v ∧ v.toJson = signedLimits := by
  have hword : signedLimits.Plain Json.Number.IsWord := by
    refine ⟨⟨?_, ?_, trivial⟩, trivial⟩ <;> constructor <;> decide
  have hsigned : signedLimits.Plain Json.Number.IsSignedWord := by
    refine ⟨⟨?_, ?_, trivial⟩, trivial⟩ <;> constructor <;> decide
  obtain ⟨v, hv, -, hwritten⟩ := integers_are_narrowed hword
  exact ⟨hword, v, hv, hwritten.mpr hsigned⟩

/-- The greatest integer of 64 bits is written as the power of two that follows it. -/
theorem greatest_word_narrowed :
    (Json.int 18446744073709551615).Plain Json.Number.IsWord ∧
      ∃ v, ofJson (.int 18446744073709551615) = .ok v ∧
        v.toJson = .number (.float ⟨false, 2 ^ 52, 12⟩) ∧
        v.toJson ≠ .int 18446744073709551615 := by
  have hnarrowed : (Json.Number.int 18446744073709551615).narrowed =
      .float ⟨false, 2 ^ 52, 12⟩ := by decide +kernel
  have hwritten : (Value.int 18446744073709551615).toJson =
      .number (.float ⟨false, 2 ^ 52, 12⟩) := by
    rw [← hnarrowed]
    exact numberToJson_ofInt (i := 18446744073709551615) (by decide) (by decide)
  refine ⟨by constructor <;> decide, .int 18446744073709551615, rfl, hwritten, ?_⟩
  rw [hwritten]
  exact nofun

end Value

end Questionnaire
