import Questionnaire.Proofs.Congruence
import Questionnaire.Expression.Build
import Questionnaire.Expression.References

/-! An expression reads no responses but those of the items that are collected from it, so that
contexts which agree on these give it the same outcome. -/
namespace Questionnaire

namespace References

theorem items_subset_addItem (refs : References) (key : String) :
    refs.items ⊆ (refs.addItem key).items := by
  unfold addItem
  split
  · exact fun _ hk => hk
  · exact fun _ hk => List.mem_append_left _ hk

theorem mem_addItem (refs : References) (key : String) : key ∈ (refs.addItem key).items := by
  unfold addItem
  split
  · next h => exact List.contains_iff_mem.mp h
  · simp

theorem dynamic_addItem (refs : References) (key : String) :
    (refs.addItem key).dynamic = refs.dynamic := by
  unfold addItem
  split <;> rfl

/-- References with at least those of others. -/
structure Extends (refs more : References) : Prop where
  items_subset : refs.items ⊆ more.items
  dynamic_le : refs.dynamic ≤ more.dynamic

theorem Extends.refl (refs : References) : refs.Extends refs := ⟨fun _ hk => hk, Nat.le_refl _⟩

theorem Extends.trans {a b c : References} (hab : a.Extends b) (hbc : b.Extends c) : a.Extends c :=
  ⟨fun _ hk => hbc.items_subset (hab.items_subset hk), Nat.le_trans hab.dynamic_le hbc.dynamic_le⟩

theorem extends_addCall (refs : References) (operator : Operator) (arguments : List Expression) :
    refs.Extends (refs.addCall operator arguments) := by
  unfold addCall
  split
  · split
    · next key rest =>
      exact ⟨refs.items_subset_addItem key, Nat.le_of_eq (dynamic_addItem refs key).symm⟩
    · exact ⟨fun _ hk => hk, Nat.le_succ _⟩
    · exact .refl refs
  · exact .refl refs

mutual

theorem extends_visit (refs : References) (e : Expression) : refs.Extends (refs.visit e) := by
  cases e with
  | literal v => exact .refl refs
  | call operator arguments =>
    exact (refs.extends_addCall operator arguments).trans (extends_visitAll _ arguments)

theorem extends_visitAll (refs : References) (es : List Expression) :
    refs.Extends (refs.visitAll es) := by
  cases es with
  | nil => exact .refl refs
  | cons e rest => exact (extends_visit refs e).trans (extends_visitAll _ rest)

end

end References

namespace Expression

/-- The first of some arguments, if there are any, is the literal key of one of some items. -/
def NamesOneOf (items : List String) (arguments : List Expression) : Prop :=
  ∀ first ∈ arguments.head?, ∃ key ∈ items, first = .literal (.text key)

mutual

/-- Every call in an expression that reads a response reads that of one of some items. -/
def ReadsOnly (items : List String) : Expression → Prop
  | .literal _ => True
  | .call operator arguments =>
    (operator.referencesItem → NamesOneOf items arguments) ∧ AllReadOnly items arguments

def AllReadOnly (items : List String) : List Expression → Prop
  | [] => True
  | e :: rest => ReadsOnly items e ∧ AllReadOnly items rest

end

theorem NamesOneOf.mono {items more : List String} (hsub : items ⊆ more)
    {arguments : List Expression} (h : NamesOneOf items arguments) : NamesOneOf more arguments := by
  intro first hfirst
  obtain ⟨key, hkey, he⟩ := h first hfirst
  exact ⟨key, hsub hkey, he⟩

mutual

theorem ReadsOnly.mono {items more : List String} (hsub : items ⊆ more) {e : Expression}
    (h : e.ReadsOnly items) : e.ReadsOnly more := by
  cases e with
  | literal v => trivial
  | call operator arguments =>
    obtain ⟨hnames, harguments⟩ := h
    exact ⟨fun hr => (hnames hr).mono hsub, harguments.mono hsub⟩

theorem AllReadOnly.mono {items more : List String} (hsub : items ⊆ more) {es : List Expression}
    (h : AllReadOnly items es) : AllReadOnly more es := by
  cases es with
  | nil => trivial
  | cons e rest => exact ⟨h.1.mono hsub, h.2.mono hsub⟩

end

/-- The key that a call reads is collected unless the call is counted as dynamic. -/
theorem namesOneOf_addCall {refs : References} {operator : Operator} {arguments : List Expression}
    (hr : operator.referencesItem) (hd : (refs.addCall operator arguments).dynamic = 0) :
    NamesOneOf (refs.addCall operator arguments).items arguments := by
  intro first hfirst
  unfold References.addCall at hd ⊢
  rw [if_pos hr] at hd ⊢
  split at hd
  · next key rest =>
    obtain rfl : Expression.literal (.text key) = first := by simpa using hfirst
    exact ⟨key, refs.mem_addItem key, rfl⟩
  · simp at hd
  · simp at hfirst

mutual

/-- What is collected from an expression without dynamic reads is all that it reads. -/
theorem readsOnly_visit {refs : References} {e : Expression} (hd : (refs.visit e).dynamic = 0) :
    e.ReadsOnly (refs.visit e).items := by
  cases e with
  | literal v => trivial
  | call operator arguments =>
    rw [References.visit] at hd ⊢
    -- The arguments are visited after the call, and no visit takes a reference away.
    have hextends := (refs.addCall operator arguments).extends_visitAll arguments
    have hcall : (refs.addCall operator arguments).dynamic = 0 :=
      Nat.eq_zero_of_le_zero (hd ▸ hextends.dynamic_le)
    refine ⟨fun hr => ?_, allReadOnly_visitAll hd⟩
    exact (namesOneOf_addCall hr hcall).mono hextends.items_subset

theorem allReadOnly_visitAll {refs : References} {es : List Expression}
    (hd : (refs.visitAll es).dynamic = 0) : AllReadOnly (refs.visitAll es).items es := by
  cases es with
  | nil => trivial
  | cons e rest =>
    rw [References.visitAll] at hd ⊢
    have hextends := (refs.visit e).extends_visitAll rest
    have hfirst : (refs.visit e).dynamic = 0 :=
      Nat.eq_zero_of_le_zero (hd ▸ hextends.dynamic_le)
    exact ⟨(readsOnly_visit hfirst).mono hextends.items_subset, allReadOnly_visitAll hd⟩

end

end Expression

/-- Contexts that differ in responses only, and not in those to some items. -/
structure Context.AgreeOn (among : String → Prop) (a b : Context) : Prop where
  attributes_eq : a.attributes = b.attributes
  participantId_eq : a.participantId = b.participantId
  evaluationTime_eq : a.evaluationTime = b.evaluationTime
  response?_eq : ∀ key, among key → a.response? key = b.response? key

namespace Context
variable {a b : Context} {among : String → Prop} {key : String}

theorem node?_congr (hk : a.response? key = b.response? key) (path : String) :
    a.node? key path = b.node? key path := by
  rw [node?, node?, hk]

theorem leafValue?_congr (hk : a.response? key = b.response? key) (path : String) :
    a.leafValue? key path = b.leafValue? key path := by
  rw [leafValue?, leafValue?, node?_congr hk]

theorem AgreeOn.moment_eq (hab : a.AgreeOn among b) : a.moment = b.moment := by
  rw [moment, moment, hab.evaluationTime_eq]

end Context

namespace Operator
variable {a b : Context} {among : String → Prop} {key : String} (op : Operator)

section
variable (eval : Expression → Outcome)

/-- An operator that reads no response gives the same on contexts that differ in responses only. -/
theorem operate_eq_of_not_referencesItem (hab : a.AgreeOn among b)
    (hr : op.referencesItem = false) (arguments : List Expression) :
    op.operate eval a arguments = op.operate eval b arguments := by
  obtain ⟨responses, attributes, participantId, evaluationTime⟩ := a
  obtain ⟨responses', attributes', participantId', evaluationTime'⟩ := b
  obtain ⟨rfl, rfl, rfl, -⟩ := hab
  cases op
  case and => rfl
  case or => rfl
  case sum => rfl
  all_goals
    first
    | exact absurd hr (by decide)
    | rcases arguments with _ | ⟨x, _ | ⟨y, _ | ⟨z, rest⟩⟩⟩ <;> rfl

variable {item : Expression} (hitem : eval item = .ok (.text key))
include hitem

theorem textOf_eq : op.textOf eval item = .ok key := by
  rw [textOf, hitem]
  rfl

theorem nodeOf_eq (hk : a.response? key = b.response? key) (path : Expression) :
    op.nodeOf eval a item path = op.nodeOf eval b item path := by
  have hnode := Context.node?_congr hk
  simp only [nodeOf, textOf_eq op eval hitem, bind, Except.bind, hnode]

theorem leafValueOf_eq (hk : a.response? key = b.response? key) (path : Expression) :
    op.leafValueOf eval a item path = op.leafValueOf eval b item path := by
  rw [leafValueOf, leafValueOf, nodeOf_eq op eval hitem hk]

theorem selects_eq (hk : a.response? key = b.response? key) (path : Expression)
    (keys : List Expression) (relation : List String → List String → Bool) :
    op.selects eval a item path keys relation = op.selects eval b item path keys relation := by
  have hnode := Context.node?_congr hk
  simp only [selects, textOf_eq op eval hitem, bind, Except.bind, hnode]

theorem responseValue_eq (hk : a.response? key = b.response? key) (path : Expression) :
    op.responseValue eval a item path = op.responseValue eval b item path := by
  simp only [responseValue, textOf_eq op eval hitem, bind, Except.bind, hk]

theorem responseDateDifference_eq (hab : a.AgreeOn among b)
    (hk : a.response? key = b.response? key) (path unit : Expression)
    (absolute : Option Expression) :
    op.responseDateDifference eval a item path unit absolute =
      op.responseDateDifference eval b item path unit absolute := by
  have hleaf := Context.leafValue?_congr hk
  have hdate (stored : Decimal) (unit : String) :
      op.dateDifference a stored unit = op.dateDifference b stored unit := by
    rw [dateDifference, dateDifference, hab.moment_eq]
  simp only [responseDateDifference, textOf_eq op eval hitem, bind, Except.bind, hleaf, hdate]

/-- An operator that reads a response gives the same where the named item has the same one. -/
theorem operate_eq_of_response?_eq (hab : a.AgreeOn among b)
    (hr : op.referencesItem) (hk : a.response? key = b.response? key) (rest : List Expression) :
    op.operate eval a (item :: rest) = op.operate eval b (item :: rest) := by
  rcases rest with _ | ⟨path, _ | ⟨unit, _ | ⟨absolute, _ | ⟨other, more⟩⟩⟩⟩ <;> cases op
  all_goals
    first
    | exact absurd hr (by decide)
    | simp only [operate, responseNumber, responseText, responseCount, nodeOf_eq _ eval hitem hk,
        leafValueOf_eq _ eval hitem hk, selects_eq _ eval hitem hk,
        responseValue_eq _ eval hitem hk, responseDateDifference_eq _ eval hitem hab hk]

end

end Operator

namespace Expression
variable {a b : Context} {items : List String}

/-- With one evaluator for the arguments, two contexts differ in the items alone that are named. -/
theorem operate_eq_of_namesOneOf (hab : a.AgreeOn (· ∈ items) b) {operator : Operator}
    {arguments : List Expression}
    (hnames : operator.referencesItem → NamesOneOf items arguments) :
    operator.operate (evaluate b) a arguments = operator.operate (evaluate b) b arguments := by
  cases hr : operator.referencesItem with
  | false => exact operator.operate_eq_of_not_referencesItem _ hab hr arguments
  | true =>
    cases arguments with
    | nil => cases operator <;> first | rfl | cases hr
    | cons first rest =>
      obtain ⟨key, hkey, rfl⟩ := hnames hr first rfl
      have hitem : (literal (.text key)).evaluate b = .ok (.text key) := rfl
      exact operator.operate_eq_of_response?_eq _ hitem hab hr (hab.response?_eq key hkey) rest

mutual

/-- Contexts that agree on all that an expression reads give it the same outcome. -/
theorem evaluate_congr_of_readsOnly (hab : a.AgreeOn (· ∈ items) b) {e : Expression}
    (hreads : e.ReadsOnly items) : e.evaluate a = e.evaluate b := by
  cases e with
  | literal v => rfl
  | call operator arguments =>
    obtain ⟨hnames, harguments⟩ := hreads
    have hsame := sameOutcomes_of_allReadOnly hab harguments
    rw [evaluate_call, evaluate_call, operator.apply_congr a hsame, Operator.apply, Operator.apply,
      operate_eq_of_namesOneOf hab hnames]

theorem sameOutcomes_of_allReadOnly (hab : a.AgreeOn (· ∈ items) b) {es : List Expression}
    (hreads : AllReadOnly items es) :
    Operator.SameOutcomes (evaluate a) (evaluate b) es es := by
  cases es with
  | nil => exact .nil
  | cons e rest =>
    exact .cons (evaluate_congr_of_readsOnly hab hreads.1)
      (sameOutcomes_of_allReadOnly hab hreads.2)

end

theorem evaluate_congr {e : Expression} (hd : e.references.dynamic = 0)
    (hab : a.AgreeOn (· ∈ e.references.items) b) : e.evaluate a = e.evaluate b :=
  evaluate_congr_of_readsOnly hab (readsOnly_visit hd)

/-- The collected items are all that an outcome depends on among the responses, be it a value or an
error, unless a key is computed. Calls may have any number of arguments. -/
theorem evaluate_eq_of_same_reads {e : Expression} {a b : Context}
    (hdynamic : e.references.dynamic = 0) (hattributes : a.attributes = b.attributes)
    (hid : a.participantId = b.participantId) (htime : a.evaluationTime = b.evaluationTime)
    (hresponses : ∀ key ∈ e.references.items, a.response? key = b.response? key) :
    e.evaluate a = e.evaluate b := by
  have hagree : a.AgreeOn (· ∈ e.references.items) b := ⟨hattributes, hid, htime, hresponses⟩
  exact evaluate_congr hdynamic hagree

/-- Reads of two items, one of them inside another call, and a call without any arguments. -/
def nestedReads : Expression :=
  and [hasResponse "s.a" "rg", isDefined (getResponseItem "s.b" "rg"), .call .countResponseItems []]

/-- The first item is answered, the second one is not. -/
def answeredContext : Context := (Context.empty 0).insertResponse "s.a" (.leaf "rg" none)

/-- An answer to a third item makes no difference. -/
theorem nested_reads_unchanged :
    nestedReads.references = ⟨["s.a", "s.b"], 0⟩ ∧
      nestedReads.evaluate (answeredContext.insertResponse "s.c" (.leaf "rg" none)) =
        nestedReads.evaluate answeredContext := by
  have hreferences : nestedReads.references = ⟨["s.a", "s.b"], 0⟩ := by decide
  refine ⟨hreferences, ?_⟩
  have hresponses : ∀ key ∈ nestedReads.references.items,
      (answeredContext.insertResponse "s.c" (.leaf "rg" none)).response? key =
        answeredContext.response? key := by
    intro key hkey
    rw [hreferences] at hkey
    have hne : "s.c" ≠ key := by
      rintro rfl
      simp at hkey
    exact Fields.get?_insert_of_ne _ _ hne
  have hdynamic : nestedReads.references.dynamic = 0 := by rw [hreferences]
  exact evaluate_eq_of_same_reads hdynamic rfl rfl rfl hresponses

end Expression

end Questionnaire
