import Mathlib.Data.List.Basic
import Questionnaire.Proofs.Congruence

/-! What operators give: values of certain kinds, and faults that are those of an argument or
their own. -/
namespace Questionnaire

/-- A computation gives a value of one sort or a fault of another. -/
def Yields {α : Type} (x : Except Error α) (fault : Error → Prop) (value : α → Prop) : Prop :=
  match x with
  | .ok a => value a
  | .error e => fault e

section
variable {α β : Type} {fault : Error → Prop} {value : α → Prop}

theorem Yields.of_ok {x : Except Error α} (hx : Yields x fault value) {a : α} (h : x = .ok a) :
    value a := by
  subst h
  exact hx

theorem Yields.of_error {x : Except Error α} (hx : Yields x fault value) {e : Error}
    (h : x = .error e) : fault e := by
  subst h
  exact hx

theorem Yields.bind {x : Except Error α} {f : α → Except Error β} {result : β → Prop}
    (hx : Yields x fault value) (hf : ∀ a, value a → Yields (f a) fault result) :
    Yields (x >>= f) fault result := by
  cases x with
  | error e => exact hx
  | ok a => exact hf a hx

theorem Yields.ok_bind {a : α} {f : α → Except Error β} {result : β → Prop}
    (h : Yields (f a) fault result) : Yields (.ok a >>= f) fault result := h

theorem Yields.map {x : Except Error α} {f : α → β} {result : β → Prop}
    (hx : Yields x fault value) (hf : ∀ a, value a → result (f a)) :
    Yields (x.map f) fault result := by
  cases x with
  | error e => exact hx
  | ok a => exact hf a hx

theorem Yields.imp {x : Except Error α} {fault' : Error → Prop} {value' : α → Prop}
    (hx : Yields x fault value) (hfault : ∀ e, fault e → fault' e)
    (hvalue : ∀ a, value a → value' a) : Yields x fault' value' := by
  cases x with
  | error e => exact hfault e hx
  | ok a => exact hvalue a hx

theorem Yields.mapM {f : β → Except Error α} {xs : List β}
    (hf : ∀ x ∈ xs, Yields (f x) fault fun _ => True) :
    Yields (xs.mapM f) fault fun _ => True := by
  induction xs with
  | nil => trivial
  | cons x xs ih =>
    rw [List.mapM_cons]
    refine .bind (hf x List.mem_cons_self) fun a _ => ?_
    refine .bind (ih fun y hy => hf y (List.mem_cons_of_mem x hy)) fun rest _ => ?_
    trivial

end

def Kind.all : List Kind := [.null, .bool, .number, .text, .record]

theorem Kind.mem_all (k : Kind) : k ∈ all := by
  cases k <;> decide

namespace Value
variable {fault : Error → Prop} (htype : ∀ operator cause, fault (.typeError operator cause))
include htype

theorem yields_asBool (operator : String) (v : Value) :
    Yields (v.asBool operator) fault fun _ => True := by
  cases v with
  | bool b => trivial
  | _ => exact htype operator _

theorem yields_asNumber (operator : String) (v : Value) :
    Yields (v.asNumber operator) fault fun _ => True := by
  cases v with
  | null => exact htype operator _
  | bool b => trivial
  | number d => trivial
  | text s =>
    rw [asNumber]
    split
    · trivial
    · exact htype operator _
  | record fields => exact htype operator _

theorem yields_equals (left right : Value) : Yields (left.equals right) fault fun _ => True := by
  unfold equals
  split
  case h_10 =>
    refine .bind (yields_asNumber htype "eq" _) fun a _ => ?_
    refine .bind (yields_asNumber htype "eq" _) fun b _ => ?_
    trivial
  all_goals first
    | trivial
    | exact htype "eq" _

theorem yields_order (operator : String) (left right : Value) :
    Yields (left.order operator right) fault fun _ => True := by
  unfold order
  split
  case h_4 =>
    refine .bind (yields_asNumber htype operator _) fun a _ => ?_
    refine .bind (yields_asNumber htype operator _) fun b _ => ?_
    trivial
  all_goals trivial

variable (hoverflow : ∀ cause, fault (.overflow cause))
include hoverflow

theorem yields_addSummand (total : Decimal) (v : Value) :
    Yields (addSummand total v) fault fun _ => True := by
  have hsummand : Yields v.summand fault fun _ => True := by
    unfold summand
    split
    · trivial
    · exact yields_asNumber htype "sum" v
  unfold addSummand
  refine .bind hsummand fun n _ => ?_
  split
  · trivial
  · exact hoverflow _

theorem yields_sum (values : List Value) : Yields (sum values) fault fun _ => True := by
  unfold sum
  generalize Decimal.zero = total
  induction values generalizing total with
  | nil => trivial
  | cons v values ih =>
    rw [List.foldlM_cons]
    exact .bind (yields_addSummand htype hoverflow total v) fun next _ => ih next

omit htype in
theorem yields_offset (base seconds : Decimal) :
    Yields (offset base seconds) fault fun _ => True := by
  unfold offset
  split
  · trivial
  · exact hoverflow _

end Value

namespace Operator

/-- The kinds of values that an operator can have. -/
def resultKinds : Operator → List Kind
  | .sum | .countResponseItems | .timestampWithOffset => [.number]
  | .getResponseValueAsNum | .dateResponseDiffFromNow => [.number, .null]
  | .getResponseValueAsStr => [.text, .null]
  | .getContext => [.record]
  | .getResponseItem | .getAttribute => Kind.all
  | _ => [.bool]

/-- The faults of an operator itself, given as many arguments as it accepts. -/
def mayFail (op : Operator) : Error → Bool
  | .typeError _ _ => true
  | .missingResponse _ => op = .getResponseItem
  | .missingNode _ _ => op = .getResponseItem
  | .missingAttribute _ => op = .getAttribute
  | .overflow _ => op = .sum || op = .timestampWithOffset || op = .dateResponseDiffFromNow
  | _ => false

section
variable {fault : Error → Prop} {eval : Expression → Outcome}

theorem yields_bool {x : Except Error Bool} (hx : Yields x fault fun _ => True) :
    Yields (x.map Value.bool) fault (·.kind ∈ [Kind.bool]) :=
  hx.map fun _ _ => List.mem_cons_self

variable (htype : ∀ operator cause, fault (.typeError operator cause))
include htype

theorem yields_conjunction {es : List Expression}
    (h : ∀ e ∈ es, Yields (eval e) fault fun _ => True) :
    Yields (conjunction eval es) fault fun _ => True := by
  induction es with
  | nil => trivial
  | cons e rest ih =>
    refine .bind (h e List.mem_cons_self) fun v _ => ?_
    refine .bind (Value.yields_asBool htype and.name v) fun b _ => ?_
    cases b with
    | true => exact ih fun x hx => h x (List.mem_cons_of_mem e hx)
    | false => trivial

theorem yields_disjunction {es : List Expression}
    (h : ∀ e ∈ es, Yields (eval e) fault fun _ => True) :
    Yields (disjunction eval es) fault fun _ => True := by
  induction es with
  | nil => trivial
  | cons e rest ih =>
    refine .bind (h e List.mem_cons_self) fun v _ => ?_
    refine .bind (Value.yields_asBool htype or.name v) fun b _ => ?_
    cases b with
    | true => trivial
    | false => exact ih fun x hx => h x (List.mem_cons_of_mem e hx)

theorem yields_asArgument (operator : String) (v : Value) :
    Yields (v.asArgument operator) fault fun _ => True := by
  cases v with
  | text s => trivial
  | _ => exact htype operator _

theorem yields_asKey (operator : String) (v : Value) :
    Yields (v.asKey operator) fault fun _ => True := by
  cases v with
  | text s => trivial
  | number d => trivial
  | _ => exact htype operator _

theorem yields_field (op : Operator) (hattribute : ∀ name, fault (.missingAttribute name))
    (base : Value) (name : String) : Yields (op.field base name) fault fun _ => True := by
  unfold field
  split
  · split
    · trivial
    · exact hattribute name
  · exact htype op.name _

variable (op : Operator) {a b : Expression} (ha : Yields (eval a) fault fun _ => True)
  (hb : Yields (eval b) fault fun _ => True)

include ha

omit htype in
/-- An absence is no fault here; any other fault of the argument stays one. -/
theorem yields_definedness : Yields (definedness eval a) fault fun _ => True := by
  unfold definedness
  split
  · trivial
  · next e he =>
    split
    · trivial
    · exact ha.of_error he

theorem yields_textOf : Yields (op.textOf eval a) fault fun _ => True :=
  .bind ha fun v _ => yields_asArgument htype op.name v

theorem yields_keyOf : Yields (op.keyOf eval a) fault fun _ => True :=
  .bind ha fun v _ => yields_asKey htype op.name v

include hb

theorem yields_comparison : Yields (op.comparison eval a b) fault fun _ => True := by
  refine .bind ha fun left _ => ?_
  refine .bind hb fun right _ => ?_
  refine .bind (Value.yields_order htype op.name left right) fun o _ => ?_
  cases o <;> trivial

theorem yields_nodeOf (ctx : Context) : Yields (op.nodeOf eval ctx a b) fault fun _ => True := by
  refine .bind (yields_textOf htype op ha) fun item _ => ?_
  refine .bind (yields_textOf htype op hb) fun path _ => ?_
  trivial

theorem yields_leafValueOf (ctx : Context) :
    Yields (op.leafValueOf eval ctx a b) fault fun _ => True :=
  .bind (yields_nodeOf htype op ha hb ctx) fun _ _ => trivial

theorem yields_selects (ctx : Context) {keys : List Expression}
    (hkeys : ∀ e ∈ keys, Yields (eval e) fault fun _ => True)
    (relation : List String → List String → Bool) :
    Yields (op.selects eval ctx a b keys relation) fault fun _ => True := by
  refine .bind (yields_textOf htype op ha) fun item _ => ?_
  refine .bind (yields_textOf htype op hb) fun path _ => ?_
  refine .bind (.mapM fun e he => yields_keyOf htype op (hkeys e he)) fun keys _ => ?_
  cases ctx.node? item path <;> trivial

theorem yields_responseNumber (ctx : Context) :
    Yields (op.responseNumber eval ctx a b) fault (·.kind ∈ [Kind.number, .null]) := by
  refine .bind (yields_leafValueOf htype op ha hb ctx) fun leaf _ => ?_
  cases leaf with
  | none => exact List.mem_cons_of_mem _ List.mem_cons_self
  | some v =>
    dsimp only
    split
    · exact List.mem_cons_self
    · exact List.mem_cons_of_mem _ List.mem_cons_self

theorem yields_responseText (ctx : Context) :
    Yields (op.responseText eval ctx a b) fault (·.kind ∈ [Kind.text, .null]) := by
  refine .bind (yields_leafValueOf htype op ha hb ctx) fun leaf _ => ?_
  cases leaf.bind Value.toText? with
  | none => exact List.mem_cons_of_mem _ List.mem_cons_self
  | some s => exact List.mem_cons_self

theorem yields_responseCount (ctx : Context) :
    Yields (op.responseCount eval ctx a b) fault (·.kind ∈ [Kind.number]) := by
  refine .bind (yields_nodeOf htype op ha hb ctx) fun node _ => ?_
  cases node <;> exact List.mem_cons_self

theorem yields_flagEquals (ctx : Context) :
    Yields (op.flagEquals eval ctx a b) fault fun _ => True := by
  refine .bind (yields_textOf htype op ha) fun key _ => ?_
  refine .bind hb fun expected _ => ?_
  cases ctx.participantFlag? key with
  | none => trivial
  | some flag => exact Value.yields_equals htype flag expected

theorem yields_responseValue (ctx : Context) (hresponse : ∀ item, fault (.missingResponse item))
    (hnode : ∀ item path, fault (.missingNode item path)) :
    Yields (op.responseValue eval ctx a b) fault fun _ => True := by
  refine .bind (yields_textOf htype op ha) fun item _ => ?_
  refine .bind (yields_textOf htype op hb) fun path _ => ?_
  split
  · exact hresponse item
  · split
    · exact hnode item path
    · trivial
    · exact htype op.name _

theorem yields_fieldOf (hattribute : ∀ name, fault (.missingAttribute name)) :
    Yields (op.fieldOf eval a b) fault fun _ => True := by
  refine .bind ha fun base _ => ?_
  exact .bind (yields_textOf htype op hb) fun name _ => yields_field htype op hattribute base name

variable (hoverflow : ∀ cause, fault (.overflow cause))
include hoverflow

omit hb in
theorem yields_laterTime (ctx : Context) (base : Option Expression)
    (hbase : ∀ e ∈ base, Yields (eval e) fault fun _ => True) :
    Yields (op.laterTime eval ctx a base) fault (·.kind ∈ [Kind.number]) := by
  refine .bind ha fun v _ => ?_
  refine .bind (Value.yields_asNumber htype op.name v) fun seconds _ => ?_
  have hlater : ∀ start, Yields (Value.offset start seconds >>= fun d => .ok (Value.number d)) fault
      (·.kind ∈ [Kind.number]) :=
    fun start => .bind (Value.yields_offset hoverflow start seconds) fun _ _ => List.mem_cons_self
  cases base with
  | none => exact hlater _
  | some e =>
    refine .bind (hbase e rfl) fun w _ => ?_
    exact .bind (Value.yields_asNumber htype op.name w) fun start _ => hlater start

omit ha hb in
theorem yields_dateDifference (ctx : Context) (stored : Decimal) (unit : String) :
    Yields (op.dateDifference ctx stored unit) fault fun _ => True := by
  have hmoment : Yields ctx.moment fault fun _ => True := by
    unfold Context.moment
    split
    · trivial
    · exact hoverflow _
  unfold dateDifference
  dsimp only
  split
  · refine .ok_bind ?_
    split
    · refine .ok_bind (.bind hmoment fun start _ => ?_)
      split
      · trivial
      · exact htype op.name _
    · exact hoverflow _
  · exact hoverflow _

theorem yields_responseDateDifference (ctx : Context) {unit : Expression}
    (hunit : Yields (eval unit) fault fun _ => True) (absolute : Option Expression)
    (habsolute : ∀ e ∈ absolute, Yields (eval e) fault fun _ => True) :
    Yields (op.responseDateDifference eval ctx a b unit absolute) fault
      (·.kind ∈ [Kind.number, .null]) := by
  refine .bind (yields_textOf htype op ha) fun item _ => ?_
  refine .bind (yields_textOf htype op hb) fun path _ => ?_
  refine .bind (yields_textOf htype op hunit) fun unit _ => ?_
  have hnull : Value.null.kind ∈ [Kind.number, .null] := List.mem_cons_of_mem _ List.mem_cons_self
  have hdifference : ∀ (flag : Bool) (v : Value), Yields (v.asNumber op.name >>= fun stored =>
      op.dateDifference ctx stored unit >>= fun difference =>
        .ok (Value.int (if flag then difference.natAbs else difference))) fault
        (·.kind ∈ [Kind.number, .null]) := by
    intro flag v
    refine .bind (Value.yields_asNumber htype op.name v) fun stored _ => ?_
    refine .bind (yields_dateDifference htype op hoverflow ctx stored unit) fun _ _ => ?_
    exact List.mem_cons_self
  cases absolute with
  | none =>
    refine .ok_bind ?_
    split
    · exact hnull
    · exact hdifference false _
  | some e =>
    refine .bind (habsolute e rfl) fun w _ => ?_
    refine .bind (Value.yields_asBool htype op.name w) fun flag _ => ?_
    split
    · exact hnull
    · exact hdifference flag _

end

/-- An operator with as many arguments as it accepts has a value of one of its kinds, or a fault
that is an argument's or its own. -/
theorem yields_operate (eval : Expression → Outcome) (ctx : Context) (op : Operator)
    {arguments : List Expression} (haccepts : op.arity.accepts arguments.length = true) :
    Yields (op.operate eval ctx arguments)
      (fun err => (∃ e ∈ arguments, eval e = .error err) ∨ op.mayFail err = true)
      (·.kind ∈ op.resultKinds) := by
  have hargument : ∀ e ∈ arguments, Yields (eval e)
      (fun err => (∃ e ∈ arguments, eval e = .error err) ∨ op.mayFail err = true)
      fun _ => True := by
    intro e he
    cases houtcome : eval e with
    | ok v => trivial
    | error err => exact .inl ⟨e, he, houtcome⟩
  have htype : ∀ operator cause,
      (∃ e ∈ arguments, eval e = .error (.typeError operator cause)) ∨
        op.mayFail (.typeError operator cause) = true := fun _ _ => .inr rfl
  -- The accepted number fixes the shape of the arguments, so that no operator is left without one.
  cases op
  case and => exact yields_bool (yields_conjunction htype hargument)
  case or => exact yields_bool (yields_disjunction htype hargument)
  case sum =>
    refine .bind (.mapM hargument) fun values _ => ?_
    exact .bind (Value.yields_sum htype (fun _ => .inr rfl) values) fun _ _ => List.mem_cons_self
  case getContext =>
    obtain rfl := List.length_eq_zero_iff.mp (Arity.accepts_exactly.mp haccepts)
    exact List.mem_cons_self
  case not =>
    obtain ⟨a, rfl⟩ := List.length_eq_one_iff.mp (Arity.accepts_exactly.mp haccepts)
    refine .bind (hargument a List.mem_cons_self) fun v _ => ?_
    exact .bind (Value.yields_asBool htype _ v) fun _ _ => List.mem_cons_self
  case isDefined =>
    obtain ⟨a, rfl⟩ := List.length_eq_one_iff.mp (Arity.accepts_exactly.mp haccepts)
    exact yields_bool (yields_definedness (hargument a List.mem_cons_self))
  case hasParticipantFlag =>
    obtain ⟨a, rfl⟩ := List.length_eq_one_iff.mp (Arity.accepts_exactly.mp haccepts)
    have ha := hargument a List.mem_cons_self
    exact .bind (yields_textOf htype _ ha) fun _ _ => List.mem_cons_self
  case responseHasKeysAny | responseHasKeysAll | responseHasOnlyKeysOtherThan =>
    have hlength := Arity.accepts_atLeast.mp haccepts
    rcases arguments with _ | ⟨a, _ | ⟨b, keys⟩⟩
    case nil | cons.nil =>
      simp only [List.length_cons, List.length_nil] at hlength
      omega
    have ha := hargument a List.mem_cons_self
    have hb := hargument b (List.mem_cons_of_mem a List.mem_cons_self)
    have hkeys : ∀ e ∈ keys, _ := fun e he =>
      hargument e (List.mem_cons_of_mem a (List.mem_cons_of_mem b he))
    exact yields_bool (yields_selects htype _ ha hb ctx hkeys _)
  case timestampWithOffset =>
    have hlength := Arity.accepts_between.mp haccepts
    rcases arguments with _ | ⟨a, _ | ⟨b, _ | ⟨c, rest⟩⟩⟩
    case nil | cons.cons.cons =>
      simp only [List.length_cons, List.length_nil] at hlength
      omega
    all_goals have ha := hargument a List.mem_cons_self
    case cons.nil => exact yields_laterTime htype _ ha (fun _ => .inr rfl) ctx none nofun
    case cons.cons.nil =>
      have hb := hargument b (List.mem_cons_of_mem a List.mem_cons_self)
      exact yields_laterTime htype _ ha (fun _ => .inr rfl) ctx (some b)
        (fun e he => Option.mem_some.mp he ▸ hb)
  case dateResponseDiffFromNow =>
    have hlength := Arity.accepts_between.mp haccepts
    rcases arguments with _ | ⟨a, _ | ⟨b, _ | ⟨unit, _ | ⟨absolute, _ | ⟨d, rest⟩⟩⟩⟩⟩
    case nil | cons.nil | cons.cons.nil | cons.cons.cons.cons.cons =>
      simp only [List.length_cons, List.length_nil] at hlength
      omega
    all_goals
      have ha := hargument a (by simp)
      have hb := hargument b (by simp)
      have hunit := hargument unit (by simp)
    case cons.cons.cons.nil =>
      exact yields_responseDateDifference htype _ ha hb (fun _ => .inr rfl) ctx hunit none
        nofun
    case cons.cons.cons.cons.nil =>
      have habsolute := hargument absolute (by simp)
      exact yields_responseDateDifference htype _ ha hb (fun _ => .inr rfl) ctx hunit
        (some absolute) (fun e he => Option.mem_some.mp he ▸ habsolute)
  -- All others take two arguments.
  all_goals
    obtain ⟨a, b, rfl⟩ := List.length_eq_two.mp (Arity.accepts_exactly.mp haccepts)
    have ha := hargument a List.mem_cons_self
    have hb := hargument b (List.mem_cons_of_mem a List.mem_cons_self)
  case lt | lte | gt | gte => exact yields_bool (yields_comparison htype _ ha hb)
  case eq =>
    refine .bind ha fun v _ => .bind hb fun w _ => ?_
    exact .bind (Value.yields_equals htype v w) fun _ _ => List.mem_cons_self
  case hasResponse =>
    exact .bind (yields_nodeOf htype _ ha hb ctx) fun _ _ => List.mem_cons_self
  case getResponseItem =>
    exact (yields_responseValue htype _ ha hb ctx (fun _ => .inr rfl) fun _ _ => .inr rfl).imp
      (fun _ h => h) fun v _ => v.kind.mem_all
  case getResponseValueAsNum => exact yields_responseNumber htype _ ha hb ctx
  case getResponseValueAsStr => exact yields_responseText htype _ ha hb ctx
  case countResponseItems => exact yields_responseCount htype _ ha hb ctx
  case getAttribute =>
    exact (yields_fieldOf htype _ ha hb fun _ => .inr rfl).imp (fun _ h => h)
      fun v _ => v.kind.mem_all
  case hasParticipantFlagKeyAndValue => exact yields_bool (yields_flagEquals htype _ ha hb ctx)

end Operator

end Questionnaire
