import Questionnaire.Proofs.Answered
import Questionnaire.Proofs.Faults
import Questionnaire.Proofs.WireForm

/-! Where records come from: the context, its attributes, and leaves that are answered with an
object. -/
namespace Questionnaire

theorem Value.ofJson_eq_record_iff {j : Json} :
    (∃ fields, ofJson j = .ok (.record fields)) ↔
      ∃ members fields, j = .object members ∧ ofMembers members = .ok fields := by
  constructor
  · rintro ⟨fields, h⟩
    cases j with
    | object members =>
      rw [ofJson] at h
      obtain ⟨read, hread, hfields⟩ := exists_of_map_eq_ok h
      exact ⟨members, read, rfl, hread⟩
    | number n =>
      obtain ⟨d, -, hd⟩ := exists_of_map_eq_ok h
      cases hd
    | _ => cases h
  · rintro ⟨members, fields, rfl, h⟩
    refine ⟨fields, ?_⟩
    rw [ofJson, h]
    rfl

/-- The answer to an item has an object for the value of the leaf at a path. -/
def Written.HoldsObject (document : Json) (item path : String) : Prop :=
  ∃ leaf members, node? document item path = some leaf ∧ items? leaf = none ∧
    value? leaf = some (.object members)

namespace ResponseNode
open Written

/-- A leaf has a record for its value just if it is written with an object. -/
theorem WrittenAs.record_iff {node : ResponseNode} {j : Json} (h : node.WrittenAs j) :
    (∃ key fields, node = leaf key (some (.record fields))) ↔
      items? j = none ∧ ∃ members, value? j = some (.object members) := by
  cases node with
  | leaf key value =>
    cases value with
    | none =>
      obtain ⟨-, hi, hv⟩ := h
      refine iff_of_false nofun ?_
      rintro ⟨-, members, hmembers⟩
      rcases hv with hv | hv <;> simp [hv] at hmembers
    | some v =>
      obtain ⟨-, hi, w, hw, -, hread⟩ := h
      constructor
      · rintro ⟨_, fields, heq⟩
        obtain ⟨-, heq⟩ := leaf.inj heq
        obtain rfl := Option.some.inj heq
        obtain ⟨members, -, rfl, -⟩ := Value.ofJson_eq_record_iff.mp ⟨fields, hread⟩
        exact ⟨hi, members, hw⟩
      · rintro ⟨-, members, hmembers⟩
        obtain rfl := Option.some.inj (hw.symm.trans hmembers)
        rw [Value.ofJson] at hread
        obtain ⟨fields, -, rfl⟩ := exists_of_map_eq_ok hread
        exact ⟨key, fields, rfl⟩
  | group key children =>
    obtain ⟨-, items, hi, -⟩ := h
    refine iff_of_false nofun ?_
    rintro ⟨hnone, -⟩
    cases hi.symm.trans hnone

end ResponseNode

namespace Context
open Written

theorem record_leaf_iff {document : Json} {now : Int64} {ctx : Context}
    (h : ofJson document now = .ok ctx) (item path : String) :
    (∃ key fields, ctx.node? item path = some (.leaf key (some (.record fields)))) ↔
      HoldsObject document item path := by
  have hnode := node?_writtenAs h item path
  unfold HoldsObject
  generalize ctx.node? item path = node, Written.node? document item path = target at hnode ⊢
  cases hnode with
  | none => simp
  | some hwritten => simpa using hwritten.record_iff

end Context

namespace Operator

variable {eval : Expression → Outcome}

theorem eq_text_of_textOf {op : Operator} {e : Expression} {s : String}
    (h : op.textOf eval e = .ok s) : eval e = .ok (.text s) := by
  obtain ⟨v, hv, h⟩ := exists_of_bind_eq_ok h
  cases v with
  | text t =>
    obtain rfl := Except.ok.inj h
    exact hv
  | _ => cases h

/-- The two arguments name the leaf whose value is given. -/
theorem exists_leaf_of_responseValue {op : Operator} {ctx : Context} {a b : Expression} {v : Value}
    (h : op.responseValue eval ctx a b = .ok v) :
    ∃ item path key value, eval a = .ok (.text item) ∧ eval b = .ok (.text path) ∧
      ctx.node? item path = some (.leaf key value) ∧ v = value.getD .null := by
  obtain ⟨item, hitem, h⟩ := exists_of_bind_eq_ok h
  obtain ⟨path, hpath, h⟩ := exists_of_bind_eq_ok h
  split at h
  · cases h
  · next root hroot =>
    split at h
    · cases h
    · next key value hleaf =>
      obtain rfl := Except.ok.inj h
      refine ⟨item, path, key, value, eq_text_of_textOf hitem, eq_text_of_textOf hpath, ?_, rfl⟩
      rw [Context.node?, hroot]
      exact hleaf
    · cases h

/-- Three operators may give a record. -/
theorem record_mem_resultKinds_iff {op : Operator} :
    Kind.record ∈ op.resultKinds ↔
      op = .getContext ∨ op = .getAttribute ∨ op = .getResponseItem := by
  cases op <;> decide

end Operator

namespace Expression
open Written

/-- The outermost operator; a literal has none. -/
def operator? : Expression → Option Operator
  | .literal _ => none
  | .call op _ => some op

/-- A call of `getResponseItem` whose arguments come to a key and a path at which the document holds
an object. -/
def ReadsObject (document : Json) (ctx : Context) (e : Expression) : Prop :=
  ∃ a b item path, e = .call .getResponseItem [a, b] ∧ a.evaluate ctx = .ok (.text item) ∧
    b.evaluate ctx = .ok (.text path) ∧ HoldsObject document item path

section
variable {document : Json} {now : Int64} {ctx : Context} (h : Context.ofJson document now = .ok ctx)
include h

theorem evaluate_getResponseItem_of_holdsObject {item path : String}
    (hobject : HoldsObject document item path) :
    ∃ fields, (getResponseItem item path).evaluate ctx = .ok (.record fields) := by
  obtain ⟨key, fields, hleaf⟩ := (Context.record_leaf_iff h item path).mpr hobject
  obtain ⟨root, hroot, hresolve⟩ := Option.bind_eq_some_iff.mp hleaf
  refine ⟨fields, ?_⟩
  rw [getResponseItem, onResponse, evaluate_call_of_accepts rfl]
  change Operator.getResponseItem.responseValue _ ctx (text item) (text path) = _
  simp only [Operator.responseValue, text, textOf_literal, bind, Except.bind, pure, Except.pure,
    hroot, hresolve]
  rfl

theorem Checked.source_of_record {e : Expression} (he : e.Checked) {fields : Fields Value}
    (hv : e.evaluate ctx = .ok (.record fields)) :
    e.operator? = some .getContext ∨ e.operator? = some .getAttribute ∨
      e.ReadsObject document ctx := by
  cases e with
  | literal v =>
    obtain rfl := Except.ok.inj hv
    exact absurd rfl he.literals
  | call op arguments =>
    have hkind := he.kind_mem_resultKinds .self hv
    rcases Operator.record_mem_resultKinds_iff.mp hkind with rfl | rfl | rfl
    · exact .inl rfl
    · exact .inr (.inl rfl)
    · refine .inr (.inr ?_)
      have haccepts := (Bool.and_eq_true_iff.mp he.wellFormed).1
      obtain ⟨a, b, rfl⟩ := List.length_eq_two.mp (Arity.accepts_exactly.mp haccepts)
      rw [evaluate_call_of_accepts rfl] at hv
      obtain ⟨item, path, key, value, ha, hb, hleaf, hvalue⟩ :=
        Operator.exists_leaf_of_responseValue hv
      refine ⟨a, b, item, path, rfl, ha, hb, (Context.record_leaf_iff h item path).mp ⟨key, ?_⟩⟩
      cases value with
      | none => cases hvalue
      | some v =>
        obtain rfl : Value.record fields = v := hvalue
        exact ⟨fields, hleaf⟩

end

theorem ofJson_getResponseItem (item path : String) :
    ofJson (.object [("args", .array [.string item, .string path]),
      ("name", .string "getResponseItem")]) = .ok (getResponseItem item path) :=
  ofJson_written .getResponseItem [.string item, .string path]

/-- An expression that was read has a record for its value only if its outermost operator is one of
those of the context and its attributes, or it reads an object from a leaf; every such object can be
read. So it is the absence of objects from the leaves that leaves records to those two operators. -/
theorem records_of_document {document : Json} {now : Int64} {ctx : Context}
    (h : Context.ofJson document now = .ok ctx) :
    (∀ j e fields, ofJson j = .ok e → e.evaluate ctx = .ok (.record fields) →
      e.operator? = some .getContext ∨ e.operator? = some .getAttribute ∨
        e.ReadsObject document ctx) ∧
    (∀ item path, HoldsObject document item path →
      ∃ fields, (getResponseItem item path).evaluate ctx = .ok (.record fields)) ∧
    ((∀ j e fields, ofJson j = .ok e → e.evaluate ctx = .ok (.record fields) →
      e.operator? = some .getContext ∨ e.operator? = some .getAttribute) ↔
        ∀ item path, ¬ HoldsObject document item path) := by
  refine ⟨fun j e fields he => (checked_of_ofJson he).source_of_record h,
    fun item path => evaluate_getResponseItem_of_holdsObject h, ?_⟩
  constructor
  · intro honly item path hobject
    obtain ⟨fields, hv⟩ := evaluate_getResponseItem_of_holdsObject h hobject
    have hoperator := honly _ _ fields (ofJson_getResponseItem item path) hv
    simp [getResponseItem, onResponse, operator?] at hoperator
  · intro hnone j e fields he hv
    rcases (checked_of_ofJson he).source_of_record h hv with hcontext | hattribute | hreads
    · exact .inl hcontext
    · exact .inr hattribute
    · obtain ⟨_, _, item, path, -, -, -, hobject⟩ := hreads
      exact absurd hobject (hnone item path)

/-- An answer with an object for the value of its leaf. -/
def placeAnswer : Json := answerOf (.object [("code", .string "NL")])

def placeContext : Context :=
  ⟨[("q", .group "rg" [.leaf "text" (some (.record [("code", .text "NL")]))])], [], none, 0⟩

theorem place_answer_read :
    Context.ofJson placeAnswer 0 = .ok placeContext ∧ HoldsObject placeAnswer "q" "rg.text" ∧
      ∃ fields, (getResponseItem "q" "rg.text").evaluate placeContext = .ok (.record fields) := by
  have h : Context.ofJson placeAnswer 0 = .ok placeContext := rfl
  have hobject : HoldsObject placeAnswer "q" "rg.text" := ⟨_, _, rfl, rfl, rfl⟩
  obtain ⟨-, hread, -⟩ := records_of_document h
  exact ⟨h, hobject, hread "q" "rg.text" hobject⟩

/-- What is read from such a leaf is a record, though neither the context nor an attribute was asked
for. -/
theorem leaf_gives_record :
    ∃ ctx j e, Context.ofJson placeAnswer 0 = .ok ctx ∧ ofJson j = .ok e ∧
      e.evaluate ctx = .ok (.record [("code", .text "NL")]) ∧
      e.operator? ≠ some .getContext ∧ e.operator? ≠ some .getAttribute :=
  ⟨placeContext, _, _, rfl, ofJson_getResponseItem "q" "rg.text", rfl, by decide, by decide⟩

end Expression

end Questionnaire
