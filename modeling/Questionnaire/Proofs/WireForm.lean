import Questionnaire.Expression.Build
import Questionnaire.Proofs.Loaded

/-! Expressions as JSON: what is written is read back, and what was read is written in one form. -/
namespace Questionnaire

namespace Decimal

theorem toInt_of_toInt64? {d : Decimal} {i : Int64} (h : d.toInt64? = some i) :
    i.toInt = d.integerPart := by
  unfold toInt64? at h
  dsimp only at h
  split at h
  · next hrange =>
    obtain rfl := Option.some.inj h
    have hmin : Int64.minValue.toInt = -2 ^ 63 := by decide
    have hmax : Int64.maxValue.toInt = 2 ^ 63 - 1 := by decide
    exact Int64.toInt_ofInt_of_le (by omega) (by omega)
  · cases h

theorem integerPart_mul {d : Decimal} (h : d.isInteger = true) :
    d.integerPart * Nat.pow 10 d.scale = d.signed := by
  have hmod : d.coefficient % Nat.pow 10 d.scale = 0 := of_decide_eq_true h
  have hdvd : ((Nat.pow 10 d.scale : Nat) : Int) ∣ (d.coefficient : Int) :=
    Int.natCast_dvd_natCast.mpr (Nat.dvd_of_mod_eq_zero hmod)
  have hsigned : ((Nat.pow 10 d.scale : Nat) : Int) ∣ d.signed := by
    unfold signed
    split
    · exact (Int.dvd_neg).mpr hdvd
    · exact hdvd
  exact Int.tdiv_mul_cancel hsigned

theorem natAbs_lt (i : Int64) : i.toInt.natAbs < coefficientBound := by
  have hlo := i.le_toInt
  have hhi := i.toInt_lt
  unfold coefficientBound
  omega

/-- An integer of at most 96 bits is not cut. -/
theorem coefficient_ofInt {i : Int} (h : i.natAbs < coefficientBound) :
    (ofInt i).coefficient = i.natAbs := by
  have hmin : min i.natAbs (coefficientBound - 1) = i.natAbs := by omega
  exact hmin

theorem ofInt?_eq_ofInt {i : Int} (h : i.natAbs < coefficientBound) :
    ofInt? i = some (ofInt i) := by
  rw [ofInt?, ofParts?, dif_pos ⟨h, Nat.zero_le 28⟩]
  congr 2
  exact (coefficient_ofInt h).symm

theorem signed_ofInt {i : Int} (h : i.natAbs < coefficientBound) : (ofInt i).signed = i := by
  have hnegative : (ofInt i).negative = decide (i < 0) := rfl
  rw [signed, coefficient_ofInt h, hnegative]
  simp only [decide_eq_true_eq]
  split <;> omega

theorem integerPart_ofInt {i : Int} (h : i.natAbs < coefficientBound) :
    (ofInt i).integerPart = i := by
  rw [integerPart, signed_ofInt h]
  exact Int.tdiv_one _

theorem isInteger_ofInt (i : Int) : (ofInt i).isInteger = true :=
  decide_eq_true (Nat.mod_one _)

/-- An integer of 64 bits is equal to what it is without its places. -/
theorem equal_ofInt {d : Decimal} (hd : d.isInteger = true) {i : Int64}
    (hi : d.toInt64? = some i) : (ofInt i.toInt).equal d = true := by
  have hpart := integerPart_mul hd
  rw [← toInt_of_toInt64? hi] at hpart
  have haligned : i.toInt * Nat.pow 10 d.scale = d.signed * Nat.pow 10 0 := by
    rw [hpart]
    simp
  simp only [equal, aligned, signed_ofInt (natAbs_lt i)]
  exact decide_eq_true haligned

theorem toInt64?_ofInt (i : Int64) : (ofInt i.toInt).toInt64? = some i := by
  simp only [toInt64?, integerPart_ofInt (natAbs_lt i), i.minValue_le_toInt, i.toInt_le, and_self,
    if_true, Int64.ofInt_toInt]

end Decimal

namespace Value

theorem isScalar_toJson {v : Value} (h : v.kind ≠ .record) : v.toJson.isScalar = true := by
  cases v with
  | record fields => exact absurd rfl h
  | number d =>
    rw [toJson, numberToJson]
    split <;> rfl
  | _ => rfl

theorem ofJson_int (i : Int64) : ofJson (.int i.toInt) = .ok (.int i.toInt) := by
  rw [Json.int, ofJson, decimalOfNumber, Decimal.ofInt?_eq_ofInt (Decimal.natAbs_lt i)]
  rfl

theorem toJson_int (i : Int64) : (int i.toInt).toJson = .int i.toInt := by
  rw [int, toJson, numberToJson, if_pos (Decimal.isInteger_ofInt i.toInt), Decimal.toInt64?_ofInt]

/-- An integer of 64 bits is read back, whatever its places. -/
theorem exists_ofJson_toJson {d : Decimal} (hd : d.isInteger = true) {i : Int64}
    (hi : d.toInt64? = some i) :
    ∃ w, ofJson (number d).toJson = .ok w ∧ w.same (number d) = true := by
  refine ⟨int i.toInt, ?_, ?_⟩
  · rw [toJson, numberToJson, if_pos hd, hi]
    exact ofJson_int i
  · rw [int, same]
    exact Decimal.equal_ofInt hd hi

end Value

namespace Json

mutual

/-- Numbers that stand for literals of an expression are integers of 64 bits. -/
def IntegerLiterals : Json → Prop
  | .number n => ∃ i : Int64, n = .int i.toInt
  | .object members => ArgumentsIntegerLiterals members
  | _ => True

def ArgumentsIntegerLiterals : List (String × Json) → Prop
  | [] => True
  | (name, .array items) :: rest =>
    if name = "args" then AllIntegerLiterals items else ArgumentsIntegerLiterals rest
  | (name, _) :: rest => if name = "args" then True else ArgumentsIntegerLiterals rest

def AllIntegerLiterals : List Json → Prop
  | [] => True
  | j :: rest => IntegerLiterals j ∧ AllIntegerLiterals rest

end

mutual

/-- A call with its name and its arguments, none if there are none, and with no other members. -/
def canonical : Json → Json
  | .object members =>
    .object [("args", .array (canonicalArguments members)),
      ("name", (Fields.get? "name" members).getD .null)]
  | j => j

def canonicalArguments : List (String × Json) → List Json
  | [] => []
  | (name, .array items) :: rest =>
    if name = "args" then canonicalAll items else canonicalArguments rest
  | (name, _) :: rest => if name = "args" then [] else canonicalArguments rest

def canonicalAll : List Json → List Json
  | [] => []
  | j :: rest => canonical j :: canonicalAll rest

end

end Json

/-- A scalar is written as it was read. -/
theorem Value.toJson_of_ofJson {j : Json} (hj : j.isScalar = true) (hnumber : j.IntegerLiterals)
    {v : Value} (h : ofJson j = .ok v) : v.toJson = j := by
  cases j with
  | number n =>
    obtain ⟨i, rfl⟩ := hnumber
    obtain rfl := Except.ok.inj ((ofJson_int i).symm.trans h)
    exact toJson_int i
  | array items => cases hj
  | object members => cases hj
  | _ => obtain rfl := Except.ok.inj h; rfl

theorem Operator.name_of_ofName? {name : String} {op : Operator} (h : ofName? name = some op) :
    op.name = name := by
  unfold ofName? at h
  have hname := List.find?_some h
  exact of_decide_eq_true hname

namespace Expression

mutual

/-- Expressions with the same calls, and literals that stand in a relation. -/
def Alike (R : Value → Value → Prop) : Expression → Expression → Prop
  | .literal v, .literal w => R v w
  | .call operator arguments, .call operator' arguments' =>
    operator = operator' ∧ AllAlike R arguments arguments'
  | _, _ => False

def AllAlike (R : Value → Value → Prop) : List Expression → List Expression → Prop
  | [], [] => True
  | e :: rest, e' :: rest' => Alike R e e' ∧ AllAlike R rest rest'
  | _, _ => False

end

theorem AllAlike.length_eq {R : Value → Value → Prop} {es es' : List Expression}
    (h : AllAlike R es es') : es.length = es'.length := by
  induction es generalizing es' with
  | nil =>
    cases es' with
    | nil => rfl
    | cons e' rest' => cases h
  | cons e rest ih =>
    cases es' with
    | nil => cases h
    | cons e' rest' => rw [List.length_cons, List.length_cons, ih h.2]

mutual

theorem Alike.eq {e e' : Expression} (h : Alike Eq e e') : e = e' := by
  cases e with
  | literal v =>
    cases e' with
    | literal w => exact congrArg literal h
    | call operator arguments => cases h
  | call operator arguments =>
    cases e' with
    | literal w => cases h
    | call operator' arguments' =>
      obtain ⟨rfl, harguments⟩ := h
      rw [harguments.eq]

theorem AllAlike.eq {es es' : List Expression} (h : AllAlike Eq es es') : es = es' := by
  cases es with
  | nil =>
    cases es' with
    | nil => rfl
    | cons e' rest' => cases h
  | cons e rest =>
    cases es' with
    | nil => cases h
    | cons e' rest' => rw [h.1.eq, h.2.eq]

end

/-- The value of a literal is no record, and what it is written as is read as one related to it. -/
def ReadBack (R : Value → Value → Prop) (v : Value) : Prop :=
  v.kind ≠ .record ∧ ∃ w, Value.ofJson v.toJson = .ok w ∧ R w v

theorem readBack_of_kind {v : Value} (h : v.kind ∈ [Kind.null, .bool, .text]) :
    ReadBack (fun w v => w.same v = true) v := by
  cases v with
  | null => exact ⟨nofun, .null, rfl, rfl⟩
  | bool b => exact ⟨nofun, .bool b, rfl, decide_eq_true rfl⟩
  | text s => exact ⟨nofun, .text s, rfl, decide_eq_true rfl⟩
  | number d => simp [Value.kind] at h
  | record fields => simp [Value.kind] at h

theorem operatorOf_written (operator : Operator) (arguments : Json) :
    operatorOf [("args", arguments), ("name", .string operator.name)] = .ok operator := by
  have hname : (Fields.get? "name" [("args", arguments), ("name", .string operator.name)]).bind
      Json.string? = some operator.name := rfl
  rw [operatorOf, hname]
  simp only [Operator.ofName?_name]

theorem ofJson_written (operator : Operator) (items : List Json) :
    ofJson (.object [("args", .array items), ("name", .string operator.name)]) =
      ofJsonAll items >>= call? operator := by
  rw [ofJson, operatorOf_written]
  change (argumentsOf operator _ >>= call? operator) = _
  rw [argumentsOf, if_pos rfl]

mutual

/-- A well-formed expression is read back as one that is alike, if its literals are. -/
theorem exists_ofJson_toJson {R : Value → Value → Prop} {e : Expression}
    (hwell : e.wellFormed = true) (hliterals : e.Literals (ReadBack R)) :
    ∃ e', ofJson e.toJson = .ok e' ∧ e'.Alike R e := by
  cases e with
  | literal v =>
    obtain ⟨hkind, w, hw, hR⟩ := hliterals
    refine ⟨.literal w, ?_, hR⟩
    rw [toJson, ofJson_of_isScalar (Value.isScalar_toJson hkind), hw]
    rfl
  | call operator arguments =>
    obtain ⟨haccepts, hwell⟩ := Bool.and_eq_true_iff.mp hwell
    obtain ⟨read, hread, halike⟩ := exists_ofJsonAll_toJsonAll hwell hliterals
    refine ⟨.call operator read, ?_, rfl, halike⟩
    have hcall : call? operator read = .ok (.call operator read) := by
      rw [call?, halike.length_eq, if_pos haccepts]
    rw [toJson, ofJson_written, hread]
    exact hcall

theorem exists_ofJsonAll_toJsonAll {R : Value → Value → Prop} {es : List Expression}
    (hwell : allWellFormed es = true) (hliterals : AllLiterals (ReadBack R) es) :
    ∃ es', ofJsonAll (toJsonAll es) = .ok es' ∧ AllAlike R es' es := by
  cases es with
  | nil => exact ⟨[], rfl, trivial⟩
  | cons e rest =>
    obtain ⟨hfirst, hrest⟩ := Bool.and_eq_true_iff.mp hwell
    obtain ⟨e', he, halike⟩ := exists_ofJson_toJson hfirst hliterals.1
    obtain ⟨others, hothers, hall⟩ := exists_ofJsonAll_toJsonAll hrest hliterals.2
    refine ⟨e' :: others, ?_, halike, hall⟩
    rw [toJsonAll, ofJsonAll, he, hothers]
    rfl

end

theorem get?_name_of_operatorOf {members : List (String × Json)} {operator : Operator}
    (h : operatorOf members = .ok operator) :
    Fields.get? "name" members = some (.string operator.name) := by
  unfold operatorOf at h
  split at h
  · cases h
  · next name hname =>
    split at h
    · next found hfound =>
      obtain rfl := Except.ok.inj h
      have heq : found.name = name := Operator.name_of_ofName? hfound
      obtain ⟨j, hj, hstring⟩ := Option.bind_eq_some_iff.mp hname
      rw [hj, heq]
      cases j with
      | string s => exact congrArg (fun t => some (Json.string t)) (Option.some.inj hstring)
      | _ => cases hstring
    · cases h

mutual

/-- An expression whose numbers were integers is written in the canonical form of what it was read
from, and its literals are read back as they are. -/
theorem toJson_of_ofJson {j : Json} {e : Expression} (h : ofJson j = .ok e)
    (hj : j.IntegerLiterals) : e.toJson = j.canonical ∧ e.Literals (ReadBack Eq) := by
  cases j with
  | object members =>
    obtain ⟨operator, hoperator, h⟩ := exists_of_bind_eq_ok h
    obtain ⟨arguments, harguments, h⟩ := exists_of_bind_eq_ok h
    obtain ⟨-, rfl⟩ := call?_eq_ok_iff.mp h
    obtain ⟨hwritten, hliterals⟩ := toJsonAll_of_argumentsOf harguments hj
    refine ⟨?_, hliterals⟩
    rw [toJson, hwritten, Json.canonical, get?_name_of_operatorOf hoperator]
    rfl
  | array items => cases h
  | _ =>
    rw [ofJson_of_isScalar rfl] at h
    obtain ⟨v, hv, rfl⟩ := exists_of_map_eq_ok h
    have hwritten := Value.toJson_of_ofJson rfl hj hv
    refine ⟨hwritten, Value.kind_ne_record_of_ofJson rfl hv, v, ?_, rfl⟩
    rw [hwritten]
    exact hv

theorem toJsonAll_of_argumentsOf {operator : Operator} {members : List (String × Json)}
    {arguments : List Expression} (h : argumentsOf operator members = .ok arguments)
    (hmembers : Json.ArgumentsIntegerLiterals members) :
    toJsonAll arguments = Json.canonicalArguments members ∧
      AllLiterals (ReadBack Eq) arguments := by
  cases members with
  | nil => obtain rfl := Except.ok.inj h; exact ⟨rfl, trivial⟩
  | cons member rest =>
    obtain ⟨name, j⟩ := member
    cases j with
    | array items =>
      rw [argumentsOf] at h
      rw [Json.ArgumentsIntegerLiterals] at hmembers
      rw [Json.canonicalArguments]
      split at h
      · next hname =>
        rw [if_pos hname] at hmembers ⊢
        exact toJsonAll_of_ofJsonAll h hmembers
      · next hname =>
        rw [if_neg hname] at hmembers ⊢
        exact toJsonAll_of_argumentsOf h hmembers
    | _ =>
      rw [argumentsOf] at h
      rw [Json.ArgumentsIntegerLiterals] at hmembers
      rw [Json.canonicalArguments]
      split at h
      · cases h
      · next hname =>
        rw [if_neg hname] at hmembers ⊢
        exact toJsonAll_of_argumentsOf h hmembers
      all_goals exact nofun

theorem toJsonAll_of_ofJsonAll {items : List Json} {es : List Expression}
    (h : ofJsonAll items = .ok es) (hitems : Json.AllIntegerLiterals items) :
    toJsonAll es = Json.canonicalAll items ∧ AllLiterals (ReadBack Eq) es := by
  cases items with
  | nil => obtain rfl := Except.ok.inj h; exact ⟨rfl, trivial⟩
  | cons j rest =>
    obtain ⟨e, he, h⟩ := exists_of_bind_eq_ok h
    obtain ⟨es, hes, h⟩ := exists_of_bind_eq_ok h
    obtain rfl := Except.ok.inj h
    obtain ⟨hfirst, hliteral⟩ := toJson_of_ofJson he hitems.1
    obtain ⟨hothers, hliterals⟩ := toJsonAll_of_ofJsonAll hes hitems.2
    refine ⟨?_, hliteral, hliterals⟩
    rw [toJsonAll, Json.canonicalAll, hfirst, hothers]

end

/-- An expression that is well formed is read back from what it is written as, up to equality of
values, if its literals are; null, booleans, texts and integers of 64 bits are. What was read is
well formed, with no record for a literal. If its numbers were integers of 64 bits, it is written in
the canonical form of what it was read from, and read back from there as it is. -/
theorem wire_round_trip :
    (∀ e : Expression, e.wellFormed = true →
      e.Literals (ReadBack fun w v => w.same v = true) →
      ∃ e', ofJson e.toJson = .ok e' ∧ e'.Alike (fun w v => w.same v = true) e) ∧
    (∀ v : Value, v.kind ∈ [Kind.null, .bool, .text] ∨
        (∃ d i, v = .number d ∧ d.isInteger = true ∧ d.toInt64? = some i) →
      ReadBack (fun w v => w.same v = true) v) ∧
    (∀ (j : Json) (e : Expression), ofJson j = .ok e →
      e.wellFormed = true ∧ e.Literals (·.kind ≠ .record)) ∧
    ∀ (j : Json) (e : Expression), ofJson j = .ok e → j.IntegerLiterals →
      e.toJson = j.canonical ∧ ofJson e.toJson = .ok e := by
  refine ⟨fun e => exists_ofJson_toJson, ?_, fun j e h => ?_, fun j e h hj => ?_⟩
  · rintro v (hv | ⟨d, i, rfl, hd, hi⟩)
    · exact readBack_of_kind hv
    · exact ⟨nofun, Value.exists_ofJson_toJson hd hi⟩
  · have hchecked := checked_of_ofJson h
    exact ⟨hchecked.wellFormed, hchecked.literals⟩
  · obtain ⟨hwritten, hliterals⟩ := toJson_of_ofJson h hj
    obtain ⟨e', he, halike⟩ := exists_ofJson_toJson (checked_of_ofJson h).wellFormed hliterals
    rw [halike.eq] at he
    exact ⟨hwritten, he⟩

/-- A comparison with an attribute. One call lacks its arguments, and one has a member of no use. -/
def looseForm : Json :=
  .object [("args", .array [
    .object [("args", .array [.object [("name", .string "getContext")], .string "age"]),
      ("comment", .array []), ("name", .string "getAttribute")],
    .int 18]), ("name", .string "gte")]

def adult : Expression := .call .gte [getAttribute getContext "age", int 18]

theorem adult_canonical :
    ofJson looseForm = .ok adult ∧
      adult.toJson = .object [("args", .array [
        .object [("args", .array [.object [("args", .array []), ("name", .string "getContext")],
          .string "age"]), ("name", .string "getAttribute")],
        .int 18]), ("name", .string "gte")] ∧
      ofJson adult.toJson = .ok adult := by
  have hread : ofJson looseForm = .ok adult := by rfl
  have hnumbers : looseForm.IntegerLiterals := ⟨⟨trivial, trivial, trivial⟩, ⟨18, rfl⟩, trivial⟩
  exact ⟨hread, wire_round_trip.2.2.2 _ _ hread hnumbers⟩

end Expression

end Questionnaire
