import Questionnaire.Proofs.Records
import Questionnaire.Value.Conversion

/-! Which JSON stands for a value: no array at any depth, and only numbers that decimals can
hold. -/
namespace Questionnaire

section
variable {ε α β γ : Type}

theorem exists_map_eq_ok_iff {x : Except ε α} {f : α → β} :
    (∃ b, x.map f = .ok b) ↔ ∃ a, x = .ok a := by
  cases x <;> simp [Except.map]

theorem exists_bind_eq_ok_iff {x : Except ε α} {f : α → β} :
    (∃ b, (x >>= fun a => pure (f a)) = .ok b) ↔ ∃ a, x = .ok a := by
  refine ⟨?_, exists_bind_eq_ok⟩
  rintro ⟨b, h⟩
  obtain ⟨a, ha, -⟩ := exists_of_bind_eq_ok h
  exact ⟨a, ha⟩

/-- Two computations of which the second does not depend on the first. -/
theorem exists_bind₂_eq_ok_iff {x : Except ε α} {y : Except ε β} {f : α → β → γ} :
    (∃ c, (x >>= fun a => y >>= fun b => pure (f a b)) = .ok c) ↔
      (∃ a, x = .ok a) ∧ ∃ b, y = .ok b := by
  constructor
  · rintro ⟨c, h⟩
    obtain ⟨a, ha, h⟩ := exists_of_bind_eq_ok h
    obtain ⟨b, hb, -⟩ := exists_of_bind_eq_ok h
    exact ⟨⟨a, ha⟩, b, hb⟩
  · rintro ⟨⟨a, rfl⟩, b, rfl⟩
    exact ⟨f a b, rfl⟩

end

namespace Json

mutual

/-- No array stands anywhere in a value, and every number in it suits. -/
def Plain (suits : Number → Prop) : Json → Prop
  | .number n => suits n
  | .array _ => False
  | .object members => MembersPlain suits members
  | _ => True

def MembersPlain (suits : Number → Prop) : List (String × Json) → Prop
  | [] => True
  | (_, j) :: rest => Plain suits j ∧ MembersPlain suits rest

end

/-- An integer of at most 96 bits, or another number whose shortest text reads as a decimal. -/
def Number.IsConvertible : Number → Prop
  | .int i => i.natAbs < Decimal.coefficientBound
  | .float x => ∃ d, Decimal.ofText? x.text.toList = some d

/-- A value without arrays whose numbers can be converted. -/
abbrev Convertible : Json → Prop := Plain Number.IsConvertible

end Json

namespace Value

theorem exists_decimalOfNumber_iff {n : Json.Number} :
    (∃ d, decimalOfNumber n = .ok d) ↔ n.IsConvertible := by
  cases n with
  | int i =>
    simp only [decimalOfNumber, Decimal.ofInt?, Decimal.ofParts?, Nat.zero_le, and_true,
      Json.Number.IsConvertible]
    split
    · next d h =>
      split at h
      · next hlt => simp [hlt]
      · cases h
    · next h =>
      split at h
      · cases h
      · next hlt => simp [hlt]
  | float x =>
    simp only [decimalOfNumber, Json.Number.IsConvertible]
    cases Decimal.ofText? x.text.toList <;> simp

mutual

/-- JSON stands for a value just if it is convertible. -/
theorem exists_ofJson_iff (j : Json) : (∃ v, ofJson j = .ok v) ↔ j.Convertible := by
  cases j with
  | number n =>
    rw [ofJson, exists_map_eq_ok_iff]
    exact exists_decimalOfNumber_iff
  | array items => exact iff_of_false (fun ⟨_, h⟩ => nomatch h) id
  | object members =>
    rw [ofJson, exists_map_eq_ok_iff]
    exact exists_ofMembers_iff members
  | _ => exact iff_of_true ⟨_, rfl⟩ trivial

theorem exists_ofMembers_iff (members : List (String × Json)) :
    (∃ fields, ofMembers members = .ok fields) ↔
      Json.MembersPlain Json.Number.IsConvertible members := by
  cases members with
  | nil => exact iff_of_true ⟨_, rfl⟩ trivial
  | cons member rest =>
    obtain ⟨name, j⟩ := member
    rw [ofMembers, exists_bind₂_eq_ok_iff, Json.MembersPlain]
    exact and_congr (exists_ofJson_iff j) (exists_ofMembers_iff rest)

end

end Value

end Questionnaire
