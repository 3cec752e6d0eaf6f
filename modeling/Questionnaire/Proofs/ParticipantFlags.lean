import Questionnaire.Context.Assembly
import Questionnaire.Evaluation
import Questionnaire.Expression.Build
import Questionnaire.Proofs.Congruence
import Questionnaire.Proofs.Equality

/-! Flags of the participant compared with values. The comparison is the general equality: it goes
by the text forms, but not for two nulls, for records, or for a boolean and a number. -/
namespace Questionnaire

namespace Value

/-- Whether both values have a text form and it is the same. -/
def sameText (v w : Value) : Bool := v.toText?.any fun s => w.toText? = some s

/-- Values that are equal though they have no text form in common. -/
inductive EqualOtherwise : Value → Value → Prop
  | nulls : EqualOtherwise .null .null
  | records {a b : List (String × Value)} (h : sameFields a b = true) :
      EqualOtherwise (.record a) (.record b)
  | boolNumber {b : Bool} {d : Decimal} (h : (if b then Decimal.one else .zero).equal d = true) :
      EqualOtherwise (.bool b) (.number d)
  | numberBool {d : Decimal} {b : Bool} (h : d.equal (if b then .one else .zero) = true) :
      EqualOtherwise (.number d) (.bool b)

/-- A record next to a boolean or a number, with the error that their comparison is. -/
inductive Incomparable : Value → Value → Error → Prop
  | recordLeft {fields : List (String × Value)} {v : Value}
      (h : v.kind = .bool ∨ v.kind = .number) :
      Incomparable (.record fields) v (.typeError "eq" (.recordAgainst v.kind))
  | recordRight {fields : List (String × Value)} {v : Value}
      (h : v.kind = .bool ∨ v.kind = .number) :
      Incomparable v (.record fields) (.typeError "eq" (.recordAgainst v.kind))

theorem sameText_text_right (v : Value) (s : String) :
    sameText v (.text s) = decide (v.toText? = some s) := by
  rw [sameText, toText?]
  cases v.toText? <;> simp [eq_comm]

theorem sameText_bool_bool (a b : Bool) : sameText (.bool a) (.bool b) = decide (a = b) := by
  cases a <;> cases b <;> rfl

theorem sameText_number_number (a b : Decimal) :
    sameText (.number a) (.number b) = a.equal b := by
  rw [Bool.eq_iff_iff, ← Decimal.canonicalText_eq_iff]
  simp [sameText, toText?, eq_comm]

/-- No number has the text form of a boolean. -/
theorem sameText_bool_number (b : Bool) (d : Decimal) : sameText (.bool b) (.number d) = false := by
  have hne : d.canonicalText ≠ if b then "true" else "false" := by
    intro h
    have hread := Decimal.ofText?_canonicalText d
    rw [h] at hread
    cases b <;> cases hread
  simpa [sameText, toText?] using hne

theorem sameText_number_bool (d : Decimal) (b : Bool) : sameText (.number d) (.bool b) = false := by
  rw [← sameText_bool_number b d]
  simp [sameText, toText?, eq_comm]

theorem EqualOtherwise.sameText_eq_false {v w : Value} (h : EqualOtherwise v w) :
    sameText v w = false := by
  cases h with
  | nulls => rfl
  | records => rfl
  | @boolNumber b d => exact sameText_bool_number b d
  | @numberBool d b => exact sameText_number_bool d b

theorem EqualOtherwise.equals_eq {v w : Value} (h : EqualOtherwise v w) :
    v.equals w = .ok true := by
  cases h with
  | nulls => rfl
  | records h => exact congrArg Except.ok h
  | boolNumber h => exact congrArg Except.ok h
  | numberBool h => exact congrArg Except.ok h

theorem Incomparable.equals_eq {v w : Value} {e : Error} (h : Incomparable v w e) :
    v.equals w = .error e := by
  cases h with
  | recordLeft h => cases w <;> simp [kind] at h <;> rfl
  | recordRight h => cases v <;> simp [kind] at h <;> rfl

/-- All other values are equal just if they have a text form in common. -/
theorem equals_eq_sameText {v w : Value} (hequal : ¬ EqualOtherwise v w)
    (hcomparable : ∀ e, ¬ Incomparable v w e) : v.equals w = .ok (sameText v w) := by
  cases v with
  | text s =>
    rw [equals_text_left]
    rfl
  | null =>
    cases w with
    | null => exact absurd .nulls hequal
    | _ => rfl
  | bool b =>
    cases w with
    | text s => rw [equals_text_right, sameText_text_right]
    | bool c => rw [sameText_bool_bool]; rfl
    | number d =>
      rw [sameText_bool_number]
      exact congrArg Except.ok (Bool.eq_false_iff.mpr fun h => hequal (.boolNumber h))
    | null => rfl
    | record fields => exact absurd (.recordRight (.inl rfl)) (hcomparable _)
  | number d =>
    cases w with
    | text s => rw [equals_text_right, sameText_text_right]
    | bool b =>
      rw [sameText_number_bool]
      exact congrArg Except.ok (Bool.eq_false_iff.mpr fun h => hequal (.numberBool h))
    | number e => rw [sameText_number_number, equals_number]
    | null => rfl
    | record fields => exact absurd (.recordRight (.inr rfl)) (hcomparable _)
  | record fields =>
    cases w with
    | text s => rw [equals_text_right, sameText_text_right]
    | null => rfl
    | bool b => exact absurd (.recordLeft (.inl rfl)) (hcomparable _)
    | number d => exact absurd (.recordLeft (.inr rfl)) (hcomparable _)
    | record others => exact congrArg Except.ok (Bool.eq_false_iff.mpr fun h => hequal (.records h))

end Value

/-- A flag is a field of the record that the attribute `participantFlags` is. -/
theorem Context.participantFlag?_eq_some_iff {ctx : Context} {key : String} {flag : Value} :
    ctx.participantFlag? key = some flag ↔
      ∃ flags, ctx.attribute? "participantFlags" = some (.record flags) ∧
        Fields.get? key flags = some flag := by
  unfold participantFlag?
  cases ctx.attribute? "participantFlags" with
  | none => simp
  | some v => cases v <;> simp

namespace Expression
open Value
variable {ctx : Context} {key value : Expression} {k : String} {v : Value}

/-- Whether the participant has a flag. -/
def hasFlag (key : Expression) : Expression := .call .hasParticipantFlag [key]

/-- Whether the participant has a flag and its value equals another. -/
def flagEquals (key value : Expression) : Expression :=
  .call .hasParticipantFlagKeyAndValue [key, value]

theorem evaluate_hasFlag (hkey : key.evaluate ctx = .ok (.text k)) :
    (hasFlag key).evaluate ctx = .ok (.bool (ctx.participantFlag? k).isSome) := by
  have htext : Operator.hasParticipantFlag.textOf (evaluate ctx) key = .ok k := by
    rw [Operator.textOf, hkey]
    rfl
  rw [hasFlag, evaluate_call_of_accepts rfl, Operator.operate, htext]
  rfl

theorem evaluate_flagEquals (hkey : key.evaluate ctx = .ok (.text k))
    (hvalue : value.evaluate ctx = .ok v) :
    (flagEquals key value).evaluate ctx =
      (ctx.participantFlag? k).elim (.ok (.bool false)) fun flag => (flag.equals v).map .bool := by
  have htext : Operator.hasParticipantFlagKeyAndValue.textOf (evaluate ctx) key = .ok k := by
    rw [Operator.textOf, hkey]
    rfl
  rw [flagEquals, evaluate_call_of_accepts rfl, Operator.operate, Operator.flagEquals, htext,
    hvalue]
  simp only [bind, Except.bind, pure, Except.pure]
  cases ctx.participantFlag? k <;> rfl

/-- A flag is compared with a value by their text forms, unless the two are equal otherwise or
cannot be compared: then the outcome is true without a common text form, or the error of an
equality. -/
theorem flags_compare_as_texts_iff (hkey : key.evaluate ctx = .ok (.text k))
    (hvalue : value.evaluate ctx = .ok v) :
    ∃ stored : Option Value,
      (∀ flag, stored = some flag ↔ ∃ flags,
        ctx.attribute? "participantFlags" = some (.record flags) ∧
          Fields.get? k flags = some flag) ∧
      (hasFlag key).evaluate ctx = .ok (.bool stored.isSome) ∧
      ((flagEquals key value).evaluate ctx = .ok (.bool (stored.any fun flag => flag.sameText v)) ↔
        ∀ flag, stored = some flag →
          ¬ EqualOtherwise flag v ∧ ∀ e, ¬ Incomparable flag v e) ∧
      ∀ flag, stored = some flag →
        (EqualOtherwise flag v → flag.sameText v = false ∧
          (flagEquals key value).evaluate ctx = .ok (.bool true)) ∧
        ∀ e, Incomparable flag v e → (flagEquals key value).evaluate ctx = .error e := by
  refine ⟨ctx.participantFlag? k, fun flag => Context.participantFlag?_eq_some_iff,
    evaluate_hasFlag hkey, ?_⟩
  rw [evaluate_flagEquals hkey hvalue]
  cases hflag : ctx.participantFlag? k with
  | none => simp
  | some flag =>
    have hothers : EqualOtherwise flag v →
        flag.sameText v = false ∧ (flag.equals v).map Value.bool = .ok (.bool true) := by
      intro h
      rw [h.equals_eq]
      exact ⟨h.sameText_eq_false, rfl⟩
    have hincomparable : ∀ e, Incomparable flag v e →
        (flag.equals v).map Value.bool = .error e := by
      intro e h
      rw [h.equals_eq]
      rfl
    simp only [Option.elim_some, Option.any_some, Option.some.injEq, forall_eq']
    refine ⟨⟨fun houtcome => ⟨fun h => ?_, fun e h => ?_⟩, fun ⟨hequal, hcomparable⟩ => ?_⟩,
      hothers, hincomparable⟩
    · obtain ⟨hsame, htrue⟩ := hothers h
      rw [htrue, hsame] at houtcome
      cases houtcome
    · rw [hincomparable e h] at houtcome
      cases houtcome
    · rw [equals_eq_sameText hequal hcomparable]
      rfl

/-- One and a half, with a zero at its end. -/
def oneAndHalf : Decimal := ⟨false, 150, 2, by decide, by decide⟩

/-- A text that is set as a flag by its dotted path equals the number that it denotes, whatever
zeros that number ends in. -/
theorem level_flag_is_number :
    (flagEquals (text "level") (.literal (.number oneAndHalf))).evaluate
      ((Context.empty 0).insertAttribute "participantFlags.level" (.text "1.5")) =
        .ok (.bool true) := by
  generalize hctx : (Context.empty 0).insertAttribute "participantFlags.level" (.text "1.5") = ctx
  have hkey : (text "level").evaluate ctx = .ok (.text "level") := rfl
  have hvalue : (literal (.number oneAndHalf)).evaluate ctx = .ok (.number oneAndHalf) := rfl
  obtain ⟨stored, hstored, -, hiff, -⟩ := flags_compare_as_texts_iff hkey hvalue
  obtain rfl : stored = some (.text "1.5") := by
    subst hctx
    exact (hstored _).mpr ⟨[("level", .text "1.5")], rfl, rfl⟩
  refine hiff.mpr fun flag hflag => ?_
  obtain rfl := Option.some.inj hflag
  exact ⟨nofun, nofun⟩

/-- A document with three flags: a boolean, a null and a record. -/
def threeFlags : Json :=
  .object [("attributes", .object [("participantFlags", .object [
    ("gone", .null), ("on", .bool true), ("region", .object [("code", .string "NL")])])])]

/-- A boolean flag equals a number of another text form, null equals null without any, and of a
record and a number the comparison is an error. -/
theorem flags_equal_without_text :
    ∃ ctx, Context.ofJson threeFlags 0 = .ok ctx ∧
      (flagEquals (text "on") (int 1)).evaluate ctx = .ok (.bool true) ∧
      sameText (.bool true) (.int 1) = false ∧
      (flagEquals (text "gone") (.literal .null)).evaluate ctx = .ok (.bool true) ∧
      sameText .null .null = false ∧
      (flagEquals (text "region") (int 1)).evaluate ctx =
        .error (.typeError "eq" (.recordAgainst .number)) :=
  ⟨⟨[], [("participantFlags", .record [("gone", .null), ("on", .bool true),
    ("region", .record [("code", .text "NL")])])], none, 0⟩,
    rfl, rfl, by decide +kernel, rfl, rfl, rfl⟩

end Expression

end Questionnaire
