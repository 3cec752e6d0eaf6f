import Questionnaire.Context.Assembly
import Questionnaire.Proofs.Records

/-! Answers as they are written in a response document. What a context holds for an item is what the
document says. -/
namespace Questionnaire

namespace Written
open Document (ResponseEntry Response)

def key? (j : Json) : Option String := (Document.ResponseNode.form.field? "key" j).bind (·.string?)

def value? (j : Json) : Option Json := Document.ResponseNode.form.field? "value" j

/-- Null stands for no value. -/
def nonNull : Json → Option Json
  | .null => none
  | j => some j

/-- The items beneath a node; with null in their place there are none. -/
def items? (j : Json) : Option (List Json) :=
  match Document.ResponseNode.form.field? "items" j with
  | some (.array items) => some items
  | _ => none

def child? (j : Json) (key : String) : Option Json :=
  ((items? j).getD []).find? (key? · = some key)

def descend (j : Json) : List String → Option Json
  | [] => some j
  | segment :: path => (child? j segment).bind (descend · path)

/-- The node at a dotted path whose first segment names the node to start from. -/
def resolve (j : Json) (path : String) : Option Json :=
  match Text.segments path with
  | [] => none
  | segment :: path => if key? j = some segment then descend j path else none

/-- The key of an item with the node that answers it. -/
def answer? (entry : Json) : Option (String × Json) := do
  let key ← (ResponseEntry.form.field? "key" entry).bind (·.string?)
  return (key, ← ResponseEntry.form.field? "response" entry)

def answers (document : Json) : List (String × Json) :=
  match Response.form.field? "responses" document with
  | some (.array entries) => entries.filterMap answer?
  | _ => []

/-- The node at a path in the answer to an item, of several answers the last. -/
def node? (document : Json) (item path : String) : Option Json :=
  (last? item (answers document)).bind (resolve · path)

end Written

namespace ResponseNode
open Written

mutual

/-- What a node is written as. A leaf without a value may also be written with null. -/
def WrittenAs : ResponseNode → Json → Prop
  | leaf key none, j => key? j = some key ∧ items? j = none ∧
    (value? j = none ∨ value? j = some .null)
  | leaf key (some v), j => key? j = some key ∧ items? j = none ∧
    ∃ w, value? j = some w ∧ w ≠ .null ∧ Value.ofJson w = .ok v
  | group key children, j => key? j = some key ∧
    ∃ items, items? j = some items ∧ AreWrittenAs children items

def AreWrittenAs : List ResponseNode → List Json → Prop
  | [], [] => True
  | node :: nodes, j :: items => WrittenAs node j ∧ AreWrittenAs nodes items
  | _, _ => False

end

theorem WrittenAs.key_eq {node : ResponseNode} {j : Json} (h : node.WrittenAs j) :
    key? j = some node.key := by
  cases node with
  | leaf key value => cases value <;> exact h.1
  | group key children => exact h.1

theorem AreWrittenAs.find? {nodes : List ResponseNode} {items : List Json}
    (h : AreWrittenAs nodes items) (key : String) :
    Option.Rel WrittenAs (nodes.find? (·.key = key)) (items.find? (key? · = some key)) := by
  induction nodes generalizing items with
  | nil =>
    cases items with
    | nil => exact .none
    | cons j items => exact h.elim
  | cons node nodes ih =>
    cases items with
    | nil => exact h.elim
    | cons j items =>
      obtain ⟨hnode, hnodes⟩ := h
      rw [List.find?_cons, List.find?_cons, hnode.key_eq]
      by_cases hk : node.key = key
      · simpa [hk] using Option.Rel.some hnode
      · simpa [hk] using ih hnodes

theorem WrittenAs.child? {node : ResponseNode} {j : Json} (h : node.WrittenAs j) (key : String) :
    Option.Rel WrittenAs (node.child? key) (Written.child? j key) := by
  unfold ResponseNode.child? Written.child?
  cases node with
  | leaf _ value =>
    have hi : items? j = none := by cases value <;> exact h.2.1
    rw [hi]
    exact .none
  | group _ nodes =>
    obtain ⟨-, items, hi, hitems⟩ := h
    rw [hi]
    exact hitems.find? key

theorem WrittenAs.descend {node : ResponseNode} {j : Json} (h : node.WrittenAs j)
    (path : List String) : Option.Rel WrittenAs (node.descend path) (Written.descend j path) := by
  induction path generalizing node j with
  | nil => exact .some h
  | cons segment path ih =>
    rw [ResponseNode.descend, Written.descend]
    have hchild := h.child? segment
    generalize node.child? segment = c, Written.child? j segment = d at hchild ⊢
    cases hchild with
    | none => exact .none
    | some hcd => exact ih hcd

theorem WrittenAs.resolve {node : ResponseNode} {j : Json} (h : node.WrittenAs j) (path : String) :
    Option.Rel WrittenAs (node.resolve path) (Written.resolve j path) := by
  unfold ResponseNode.resolve Written.resolve
  cases Text.segments path with
  | nil => exact .none
  | cons segment rest =>
    simp only [h.key_eq]
    by_cases hk : node.key = segment
    · rw [if_pos hk.symm, if_pos (congrArg some hk)]
      exact h.descend rest
    · rw [if_neg fun he => hk he.symm, if_neg fun he => hk (Option.some.inj he)]
      exact .none

end ResponseNode

namespace Document.ResponseNode
open Written

theorem memberParts_eq (members : List (String × Json)) :
    memberParts members = members.map fun (name, j) => (name, part j) :=
  eq_map_of_recursion rfl (fun _ _ => rfl) members

theorem itemParts_eq (items : List Json) : itemParts items = items.map part :=
  eq_map_of_recursion rfl (fun _ _ => rfl) items

theorem part_fst (j : Json) : (part j).1 = j := by
  cases j <;> rfl

theorem exists_draft {j : Json} {node : ResponseNode} (h : ofJson j = .ok node) :
    ∃ draft, ((form.written j).map fun (name, j) => (name, part j)).foldlM
        (fun d (name, p) => Draft.put d name p) ⟨none, none, none⟩ = .ok draft ∧
      draft.finish = .ok node := by
  cases j with
  | object members =>
    rw [ofJson, memberParts_eq] at h
    exact RecordForm.exists_draft h
  | array items =>
    rw [ofJson, itemParts_eq] at h
    have hdraft := RecordForm.exists_draft h
    rw [RecordForm.namedParts, List.zip_map_right] at hdraft
    exact hdraft
  | _ => cases h

/-- All that a part can do to a draft. -/
theorem Draft.put_cases {d d' : Draft} {name : String} {p : Part} (h : d.put name p = .ok d') :
    (name = "key" ∧ ∃ s, readText p.1 = .ok s ∧ d' = { d with key := some s }) ∨
    (name = "value" ∧ ∃ v, readOptional readAny p.1 = .ok v ∧ d' = { d with value := v }) ∨
    (name = "items" ∧ ∃ items, p.2 = .ok items ∧ d' = { d with items := items }) ∨
    (name ∉ form.fields ∧ d' = d) := by
  unfold Draft.put at h
  split at h
  · obtain ⟨s, hs, h⟩ := exists_of_bind_eq_ok h
    exact .inl ⟨rfl, s, hs, (Except.ok.inj h).symm⟩
  · obtain ⟨v, hv, h⟩ := exists_of_bind_eq_ok h
    exact .inr (.inl ⟨rfl, v, hv, (Except.ok.inj h).symm⟩)
  · obtain ⟨items, hi, h⟩ := exists_of_bind_eq_ok h
    exact .inr (.inr (.inl ⟨rfl, items, hi, (Except.ok.inj h).symm⟩))
  · next hkey hvalue hitems =>
    refine .inr (.inr (.inr ⟨?_, (Except.ok.inj h).symm⟩))
    simpa [form] using ⟨hkey, hvalue, hitems⟩

theorem Draft.of_foldlM {parts : List (String × Part)} {draft : Draft}
    (h : parts.foldlM (fun d (name, p) => Draft.put d name p) ⟨none, none, none⟩ = .ok draft) :
    (last? "key" parts).elim (.ok none) (fun p => (readText p.1).map some) = .ok draft.key ∧
    (last? "value" parts).elim (.ok none) (fun p => readOptional readAny p.1) = .ok draft.value ∧
    (last? "items" parts).elim (.ok none) (·.2) = .ok draft.items := by
  refine ⟨?key, ?value, ?items⟩
  case key =>
    refine component_of_foldlM put Draft.key "key" (fun p => (readText p.1).map some) ?_ h
    intro d name p d' hput
    rcases put_cases hput with
      ⟨rfl, s, hs, rfl⟩ | ⟨rfl, v, -, rfl⟩ | ⟨rfl, items, -, rfl⟩ | ⟨hn, rfl⟩
    · refine .inl ⟨rfl, ?_⟩
      rw [hs]
      rfl
    · exact .inr ⟨by decide, rfl⟩
    · exact .inr ⟨by decide, rfl⟩
    · exact .inr ⟨(ne_of_mem_of_not_mem (by decide) hn).symm, rfl⟩
  case value =>
    refine component_of_foldlM put Draft.value "value" (fun p => readOptional readAny p.1) ?_ h
    intro d name p d' hput
    rcases put_cases hput with
      ⟨rfl, s, -, rfl⟩ | ⟨rfl, v, hv, rfl⟩ | ⟨rfl, items, -, rfl⟩ | ⟨hn, rfl⟩
    · exact .inr ⟨by decide, rfl⟩
    · exact .inl ⟨rfl, hv⟩
    · exact .inr ⟨by decide, rfl⟩
    · exact .inr ⟨(ne_of_mem_of_not_mem (by decide) hn).symm, rfl⟩
  case items =>
    refine component_of_foldlM put Draft.items "items" (·.2) ?_ h
    intro d name p d' hput
    rcases put_cases hput with
      ⟨rfl, s, -, rfl⟩ | ⟨rfl, v, -, rfl⟩ | ⟨rfl, items, hi, rfl⟩ | ⟨hn, rfl⟩
    · exact .inr ⟨by decide, rfl⟩
    · exact .inr ⟨by decide, rfl⟩
    · exact .inl ⟨rfl, hi⟩
    · exact .inr ⟨(ne_of_mem_of_not_mem (by decide) hn).symm, rfl⟩

/-- How a node that was read is written. -/
theorem written_of_ofJson {j : Json} {key : String} {value : Option Json}
    {items : Option (List ResponseNode)} (h : ofJson j = .ok (.mk key value items)) :
    key? j = some key ∧ value = (value? j).bind nonNull ∧
    Option.Rel (fun js nodes => listOfJson js = .ok nodes) (items? j) items := by
  obtain ⟨draft, hdraft, hfinish⟩ := exists_draft h
  obtain ⟨hkey, hvalue, hitems⟩ := Draft.of_foldlM hdraft
  rw [last?_map, ← RecordForm.field?, Option.elim_map] at hkey hvalue hitems
  unfold Draft.finish at hfinish
  split at hfinish
  · next k hk =>
    obtain ⟨rfl, rfl, rfl⟩ := ResponseNode.mk.inj (Except.ok.inj hfinish)
    refine ⟨?_, ?_, ?_⟩
    · rw [hk] at hkey
      obtain ⟨w, hw, hs⟩ := exists_of_elim_eq_ok_some hkey
      rw [part_fst] at hs
      rw [key?, hw, eq_string_of_readText hs]
      rfl
    · rw [value?]
      cases hf : form.field? "value" j with
      | none => rw [hf] at hvalue; exact (Except.ok.inj hvalue).symm
      | some w =>
        rw [hf] at hvalue
        replace hvalue : readOptional readAny (part w).1 = .ok draft.value := hvalue
        rw [part_fst] at hvalue
        cases w <;> exact (Except.ok.inj hvalue).symm
    · rw [items?]
      cases hf : form.field? "items" j with
      | none =>
        rw [hf] at hitems
        obtain hi : none = draft.items := Except.ok.inj hitems
        rw [← hi]
        exact .none
      | some w =>
        rw [hf] at hitems
        replace hitems : (part w).2 = .ok draft.items := hitems
        cases w with
        | null =>
          obtain hi : none = draft.items := Except.ok.inj hitems
          rw [← hi]
          exact .none
        | array js =>
          obtain ⟨nodes, hnodes, hi⟩ := exists_of_map_eq_ok hitems
          rw [← hi]
          exact .some hnodes
        | _ => cases hitems
  · cases hfinish

theorem eq_nil_of_listOfJson {js : List Json} (h : listOfJson js = .ok []) : js = [] := by
  cases js with
  | nil => rfl
  | cons j js =>
    obtain ⟨d, -, h⟩ := exists_of_bind_eq_ok h
    obtain ⟨rest, -, h⟩ := exists_of_bind_eq_ok h
    cases h

theorem exists_cons_of_listOfJson {js : List Json} {d : ResponseNode} {ds : List ResponseNode}
    (h : listOfJson js = .ok (d :: ds)) :
    ∃ first rest, js = first :: rest ∧ ofJson first = .ok d ∧ listOfJson rest = .ok ds := by
  cases js with
  | nil => cases h
  | cons j js =>
    obtain ⟨first, hfirst, h⟩ := exists_of_bind_eq_ok h
    obtain ⟨rest, hrest, h⟩ := exists_of_bind_eq_ok h
    obtain ⟨rfl, rfl⟩ := List.cons.inj (Except.ok.inj h)
    exact ⟨j, js, rfl, hfirst, hrest⟩

end Document.ResponseNode

namespace ResponseNode

mutual

theorem writtenAs_of_ofDocument (d : Document.ResponseNode) {j : Json} {node : ResponseNode}
    (hread : Document.ResponseNode.ofJson j = .ok d) (h : ofDocument d = .ok node) :
    node.WrittenAs j := by
  obtain ⟨key, value, items⟩ := d
  obtain ⟨hkey, hvalue, hitems⟩ := Document.ResponseNode.written_of_ofJson hread
  generalize hi : Written.items? j = written at hitems
  cases items with
  | some nodes =>
    obtain @⟨js, _, hnodes⟩ := hitems
    rw [ofDocument] at h
    obtain ⟨children, hchildren, h⟩ := exists_of_bind_eq_ok h
    obtain rfl := Except.ok.inj h
    exact ⟨hkey, js, hi, areWrittenAs_of_ofDocuments nodes hnodes hchildren⟩
  | none =>
    obtain _ | _ := hitems
    cases value with
    | none =>
      rw [ofDocument] at h
      obtain rfl := Except.ok.inj h
      refine ⟨hkey, hi, ?_⟩
      cases hv : Written.value? j with
      | none => exact .inl rfl
      | some w =>
        rw [hv] at hvalue
        cases w with
        | null => exact .inr rfl
        | _ => cases hvalue
    | some w =>
      rw [ofDocument] at h
      obtain ⟨v, hv, h⟩ := exists_of_bind_eq_ok h
      obtain rfl := Except.ok.inj h
      obtain ⟨u, hu, hw⟩ := Option.bind_eq_some_iff.mp hvalue.symm
      refine ⟨hkey, hi, ?_⟩
      cases u with
      | null => cases hw
      | _ =>
        obtain rfl := Option.some.inj hw
        exact ⟨_, hu, nofun, hv⟩

theorem areWrittenAs_of_ofDocuments (ds : List Document.ResponseNode) {js : List Json}
    {nodes : List ResponseNode} (hread : Document.ResponseNode.listOfJson js = .ok ds)
    (h : ofDocuments ds = .ok nodes) : AreWrittenAs nodes js := by
  cases ds with
  | nil =>
    obtain rfl := Document.ResponseNode.eq_nil_of_listOfJson hread
    obtain rfl := Except.ok.inj h
    exact trivial
  | cons d rest =>
    obtain ⟨j, js, rfl, hd, hrest⟩ := Document.ResponseNode.exists_cons_of_listOfJson hread
    rw [ofDocuments] at h
    obtain ⟨node, hnode, h⟩ := exists_of_bind_eq_ok h
    obtain ⟨others, hothers, h⟩ := exists_of_bind_eq_ok h
    obtain rfl := Except.ok.inj h
    exact ⟨writtenAs_of_ofDocument d hd hnode, areWrittenAs_of_ofDocuments rest hrest hothers⟩

end

end ResponseNode

namespace Document.ResponseEntry

theorem Draft.put_cases {d d' : Draft} {name : String} {j : Json} (h : d.put name j = .ok d') :
    (name = "key" ∧ ∃ s, readText j = .ok s ∧ d' = { d with key := some s }) ∨
    (name = "response" ∧
      ∃ node, ResponseNode.ofJson j = .ok node ∧ d' = { d with response := some node }) ∨
    (name ∉ form.fields ∧ d' = d) := by
  unfold Draft.put at h
  split at h
  · obtain ⟨s, hs, h⟩ := exists_of_bind_eq_ok h
    exact .inl ⟨rfl, s, hs, (Except.ok.inj h).symm⟩
  · obtain ⟨node, hnode, h⟩ := exists_of_bind_eq_ok h
    exact .inr (.inl ⟨rfl, node, hnode, (Except.ok.inj h).symm⟩)
  · next hkey hresponse =>
    refine .inr (.inr ⟨?_, (Except.ok.inj h).symm⟩)
    simpa [form] using ⟨hkey, hresponse⟩

theorem Draft.of_foldlM {parts : List (String × Json)} {draft : Draft}
    (h : parts.foldlM (fun d (name, j) => Draft.put d name j) ⟨none, none⟩ = .ok draft) :
    (last? "key" parts).elim (.ok none) (fun j => (readText j).map some) = .ok draft.key ∧
    (last? "response" parts).elim (.ok none) (fun j => (ResponseNode.ofJson j).map some) =
      .ok draft.response := by
  constructor
  · refine component_of_foldlM put Draft.key "key" (fun j => (readText j).map some) ?_ h
    intro d name j d' hput
    rcases put_cases hput with ⟨rfl, s, hs, rfl⟩ | ⟨rfl, node, -, rfl⟩ | ⟨hn, rfl⟩
    · refine .inl ⟨rfl, ?_⟩
      rw [hs]
      rfl
    · exact .inr ⟨by decide, rfl⟩
    · exact .inr ⟨(ne_of_mem_of_not_mem (by decide) hn).symm, rfl⟩
  · refine component_of_foldlM put Draft.response "response"
      (fun j => (ResponseNode.ofJson j).map some) ?_ h
    intro d name j d' hput
    rcases put_cases hput with ⟨rfl, s, -, rfl⟩ | ⟨rfl, node, hnode, rfl⟩ | ⟨hn, rfl⟩
    · exact .inr ⟨by decide, rfl⟩
    · refine .inl ⟨rfl, ?_⟩
      rw [hnode]
      rfl
    · exact .inr ⟨(ne_of_mem_of_not_mem (by decide) hn).symm, rfl⟩

theorem written_of_ofJson {j : Json} {entry : ResponseEntry} (h : ofJson j = .ok entry) :
    form.field? "key" j = some (.string entry.key) ∧
    ∃ written, form.field? "response" j = some written ∧
      ResponseNode.ofJson written = .ok entry.response := by
  obtain ⟨draft, hdraft, hfinish⟩ := RecordForm.exists_draft_of_readJson h
  obtain ⟨hkey, hresponse⟩ := Draft.of_foldlM hdraft
  rw [← RecordForm.field?] at hkey hresponse
  unfold Draft.finish at hfinish
  split at hfinish
  · cases hfinish
  · cases hfinish
  · next key node hk hr =>
    obtain rfl := Except.ok.inj hfinish
    rw [hk] at hkey
    rw [hr] at hresponse
    obtain ⟨w, hw, hs⟩ := exists_of_elim_eq_ok_some hkey
    rw [eq_string_of_readText hs] at hw
    exact ⟨hw, exists_of_elim_eq_ok_some hresponse⟩

end Document.ResponseEntry

namespace Document.Response
open Written

/-- What a component of a document is: what the field with its name reads as, or what it is without
one. -/
theorem component_of_ofJson {γ : Type} (component : Response → γ) (name : String)
    (read : Json → Except ShapeFault γ)
    (hput : ∀ {d n j d'}, put d n j = .ok d' →
      (n = name ∧ read j = .ok (component d')) ∨ (n ≠ name ∧ component d' = component d))
    {j : Json} {document : Response} (h : ofJson j = .ok document) :
    (form.field? name j).elim (.ok (component empty)) read = .ok (component document) := by
  have hread : form.readJson empty put (fun draft => .ok draft) j = .ok document := by
    unfold ofJson at h
    split at h
    · split at h
      · next draft hread => rw [hread, Except.ok.inj h]
      · cases h
    · cases h
  obtain ⟨draft, hdraft, hfinish⟩ := RecordForm.exists_draft_of_readJson hread
  obtain rfl := Except.ok.inj hfinish
  exact component_of_foldlM put component name read hput hdraft

theorem responses_of_put {d d' : Response} {name : String} {j : Json}
    (h : put d name j = .ok d') :
    (name = "responses" ∧ readList ResponseEntry.ofJson j = .ok d'.responses) ∨
    (name ≠ "responses" ∧ d'.responses = d.responses) := by
  unfold put at h
  split at h
  case h_4 =>
    obtain ⟨responses, hr, h⟩ := exists_of_bind_eq_ok h
    obtain rfl := Except.ok.inj h
    exact .inl ⟨rfl, hr⟩
  case h_5 =>
    obtain rfl := Except.ok.inj h
    exact .inr ⟨by assumption, rfl⟩
  all_goals
    obtain ⟨_, -, h⟩ := exists_of_bind_eq_ok h
    obtain rfl := Except.ok.inj h
    exact .inr ⟨by decide, rfl⟩

theorem responses_of_ofJson {j : Json} {document : Response} (h : ofJson j = .ok document) :
    (form.field? "responses" j).elim (.ok []) (readList ResponseEntry.ofJson) =
      .ok document.responses :=
  component_of_ofJson Response.responses "responses" (readList ResponseEntry.ofJson)
    responses_of_put h

theorem answers_of_forall₂ {entries : List Json} {responses : List ResponseEntry}
    (h : List.Forall₂ (fun j e => ResponseEntry.ofJson j = .ok e) entries responses) :
    List.Forall₂ (fun a e => a.1 = e.key ∧ ResponseNode.ofJson a.2 = .ok e.response)
      (entries.filterMap answer?) responses := by
  induction h with
  | nil => exact .nil
  | @cons j e _ _ he _ ih =>
    obtain ⟨hkey, written, hwritten, hread⟩ := ResponseEntry.written_of_ofJson he
    have ha : answer? j = some (e.key, written) := by
      rw [answer?, hkey, hwritten]
      rfl
    rw [List.filterMap_cons_some ha]
    exact .cons ⟨rfl, hread⟩ ih

theorem answers_of_ofJson {j : Json} {document : Response} (h : ofJson j = .ok document) :
    List.Forall₂ (fun a e => a.1 = e.key ∧ ResponseNode.ofJson a.2 = .ok e.response)
      (answers j) document.responses := by
  have hresponses := responses_of_ofJson h
  unfold answers
  cases hf : form.field? "responses" j with
  | none =>
    rw [hf] at hresponses
    obtain hr : [] = document.responses := Except.ok.inj hresponses
    rw [← hr]
    exact .nil
  | some w =>
    rw [hf] at hresponses
    cases w with
    | array entries =>
      exact answers_of_forall₂ (forall₂_of_mapM_eq_ok hresponses)
    | _ => cases hresponses

end Document.Response

namespace Context

theorem responses_of_addAttribute {ctx ctx' : Context} {attributes : List (String × Json)}
    (h : attributes.foldlM addAttribute ctx = .ok ctx') : ctx'.responses = ctx.responses := by
  refine kept_of_foldlM Context.responses (fun named _ d d' hadd => ?_) h
  obtain ⟨v, -, hadd⟩ := exists_of_bind_eq_ok hadd
  obtain rfl := Except.ok.inj hadd
  rfl

/-- The node of an item is that of its last answer. -/
theorem response?_of_ofDocument {document : Document.Response} {now : Int64} {ctx : Context}
    (h : ofDocument document now = .ok ctx) (item : String) :
    (last? item (document.responses.map fun e => (e.key, e.response))).elim (.ok none)
      (fun d => (ResponseNode.ofDocument d).map some) = .ok (ctx.response? item) := by
  obtain ⟨time, -, h⟩ := exists_of_bind_eq_ok h
  obtain ⟨attributed, hattributed, h⟩ := exists_of_bind_eq_ok h
  have hnone : attributed.response? item = none := by
    rw [response?, responses_of_addAttribute hattributed]
    rfl
  have hfold : (document.responses.map fun e => (e.key, e.response)).foldlM
      (fun ctx (key, d) => addResponse ctx ⟨key, d⟩) attributed = .ok ctx := by
    rw [List.foldlM_map]
    exact h
  rw [← hnone]
  refine component_of_foldlM (fun ctx key d => addResponse ctx ⟨key, d⟩)
    (fun ctx => ctx.response? item) item (fun d => (ResponseNode.ofDocument d).map some) ?_ hfold
  intro ctx key d ctx' hadd
  obtain ⟨node, hnode, hadd⟩ := exists_of_bind_eq_ok hadd
  obtain rfl := Except.ok.inj hadd
  by_cases hkey : key = item
  · subst hkey
    refine .inl ⟨rfl, ?_⟩
    rw [hnode]
    exact congrArg Except.ok (Fields.get?_insert_self key node ctx.responses).symm
  · exact .inr ⟨hkey, Fields.get?_insert_of_ne node ctx.responses hkey⟩

/-- What a context has for an item is what the document says. -/
theorem writtenAs_of_ofJson {j : Json} {now : Int64} {ctx : Context} (h : ofJson j now = .ok ctx)
    (item : String) :
    Option.Rel ResponseNode.WrittenAs (ctx.response? item) (last? item (Written.answers j)) := by
  unfold ofJson at h
  split at h
  · next document hdocument =>
    have hresponse := response?_of_ofDocument h item
    have hanswers := Document.Response.answers_of_ofJson hdocument
    have hlast : Option.Rel (fun j d => Document.ResponseNode.ofJson j = .ok d)
        (last? item (Written.answers j))
        (last? item (document.responses.map fun e => (e.key, e.response))) :=
      last?_rel item (List.forall₂_map_right_iff.mpr hanswers)
    generalize last? item (Written.answers j) = written at hlast ⊢
    generalize last? item (document.responses.map fun e => (e.key, e.response)) = read
      at hlast hresponse
    generalize ctx.response? item = response at hresponse ⊢
    cases hlast with
    | none =>
      obtain rfl := Except.ok.inj hresponse
      exact .none
    | some hread =>
      obtain ⟨node, hnode, rfl⟩ := exists_of_map_eq_ok hresponse
      exact .some (ResponseNode.writtenAs_of_ofDocument _ hread hnode)
  · cases h

theorem node?_writtenAs {j : Json} {now : Int64} {ctx : Context} (h : ofJson j now = .ok ctx)
    (item path : String) :
    Option.Rel ResponseNode.WrittenAs (ctx.node? item path) (Written.node? j item path) := by
  have hresponse := writtenAs_of_ofJson h item
  unfold node? Written.node?
  generalize ctx.response? item = response, last? item (Written.answers j) = written
    at hresponse ⊢
  cases hresponse with
  | none => exact .none
  | some hwritten => exact hwritten.resolve path

end Context

end Questionnaire
