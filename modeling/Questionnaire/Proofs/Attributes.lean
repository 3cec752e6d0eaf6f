import Questionnaire.Proofs.NestedUpdate
import Questionnaire.Proofs.Ordered
import Questionnaire.Proofs.Segments
import Questionnaire.Proofs.Written

/-! The attributes of a response document by dotted paths: at a path there is what the longest of
the keys that lead to it says. -/
namespace Questionnaire

open Text

/-- The attributes as they are written in a response document. -/
def Written.attributes (document : Json) : List (String × Json) :=
  match Document.Response.form.field? "attributes" document with
  | some (.object members) => members
  | _ => []

namespace Document

theorem RecordForm.ordered_of_field? {form : RecordForm} {name : String} {j field : Json}
    (hj : j.Ordered) (h : form.field? name j = some field) : field.Ordered := by
  have hmem := mem_of_last?_eq_some h
  cases j with
  | object members => exact Json.membersOrdered_iff.mp hj.2 _ hmem
  | array items => exact Json.allOrdered_iff.mp hj _ (List.of_mem_zip hmem).2
  | _ => cases hmem

namespace Response

theorem ascending_attributes {j : Json} (hj : j.Ordered) :
    Fields.Ascending (Written.attributes j) := by
  unfold Written.attributes
  split
  · next members h => exact (RecordForm.ordered_of_field? hj h).1
  · exact List.Pairwise.nil

theorem ordered_of_mem_attributes {j : Json} (hj : j.Ordered) {a : String × Json}
    (ha : a ∈ Written.attributes j) : a.2.Ordered := by
  unfold Written.attributes at ha
  split at ha
  · next members h =>
    exact Json.membersOrdered_iff.mp (RecordForm.ordered_of_field? hj h).2 a ha
  · cases ha

theorem attributes_of_put {d d' : Response} {name : String} {j : Json}
    (h : put d name j = .ok d') :
    (name = "attributes" ∧ readAttributes j = .ok d'.attributes) ∨
    (name ≠ "attributes" ∧ d'.attributes = d.attributes) := by
  unfold put at h
  split at h
  case h_3 =>
    obtain ⟨attributes, ha, h⟩ := exists_of_bind_eq_ok h
    obtain rfl := Except.ok.inj h
    exact .inl ⟨rfl, ha⟩
  case h_5 =>
    obtain rfl := Except.ok.inj h
    exact .inr ⟨by assumption, rfl⟩
  all_goals
    obtain ⟨_, -, h⟩ := exists_of_bind_eq_ok h
    obtain rfl := Except.ok.inj h
    exact .inr ⟨by decide, rfl⟩

theorem attributes_of_ofJson {j : Json} {document : Response} (h : ofJson j = .ok document) :
    document.attributes = Written.attributes j := by
  have hread := component_of_ofJson Response.attributes "attributes" readAttributes
    attributes_of_put h
  unfold Written.attributes
  cases hf : form.field? "attributes" j with
  | none =>
    rw [hf] at hread
    exact (Except.ok.inj hread).symm
  | some written =>
    rw [hf] at hread
    cases written with
    | object members => exact (Except.ok.inj hread).symm
    | _ => cases hread

end Response

end Document

namespace Context

theorem attributes_of_addResponse {responses : List Document.ResponseEntry} {ctx ctx' : Context}
    (h : responses.foldlM addResponse ctx = .ok ctx') : ctx'.attributes = ctx.attributes := by
  refine kept_of_foldlM Context.attributes (fun entry _ d d' hadd => ?_) h
  obtain ⟨node, -, hadd⟩ := exists_of_bind_eq_ok hadd
  obtain rfl := Except.ok.inj hadd
  rfl

/-- The attributes of a context are those that are written, added one after another. -/
theorem exists_attributed {j : Json} {now : Int64} {ctx : Context} (h : ofJson j now = .ok ctx) :
    ∃ start attributed, (Written.attributes j).foldlM addAttribute start = .ok attributed ∧
      start.attributes = [] ∧ ctx.attributes = attributed.attributes := by
  unfold ofJson at h
  split at h
  · next document hdocument =>
    obtain ⟨time, -, h⟩ := exists_of_bind_eq_ok h
    obtain ⟨attributed, hattributed, h⟩ := exists_of_bind_eq_ok h
    rw [Document.Response.attributes_of_ofJson hdocument] at hattributed
    exact ⟨_, attributed, hattributed, rfl, attributes_of_addResponse h⟩
  · cases h

theorem attribute?_addAttribute_of_leadsTo {ctx ctx' : Context} {key path : String} {raw : Json}
    (h : addAttribute ctx (key, raw) = .ok ctx') (hkey : LeadsTo key path) :
    ∃ v, Value.ofJson raw = .ok v ∧
      ctx'.attribute? path = Value.walk ((segments path).drop (segments key).length) v := by
  obtain ⟨v, hv, h⟩ := exists_of_bind_eq_ok h
  obtain rfl := Except.ok.inj h
  refine ⟨v, hv, ?_⟩
  obtain ⟨rest, hrest⟩ := hkey
  rw [attribute?, ← hrest, List.drop_left]
  exact walk_insertAt_append v (segments_ne_nil key) rest ctx.attributes

theorem attribute?_addAttribute_of_apart {ctx ctx' : Context} {key path : String} {raw : Json}
    (h : addAttribute ctx (key, raw) = .ok ctx') (hkey : ¬ LeadsTo key path)
    (hpath : ¬ LeadsTo path key) : ctx'.attribute? path = ctx.attribute? path := by
  obtain ⟨v, -, h⟩ := exists_of_bind_eq_ok h
  obtain rfl := Except.ok.inj h
  exact walk_insertAt_of_apart v hkey hpath ctx.attributes

theorem attribute?_addAttributes_of_apart {attributes : List (String × Json)} {path : String}
    (hapart : ∀ a ∈ attributes, ¬ LeadsTo a.1 path ∧ ¬ LeadsTo path a.1) {ctx ctx' : Context}
    (h : attributes.foldlM addAttribute ctx = .ok ctx') :
    ctx'.attribute? path = ctx.attribute? path :=
  kept_of_foldlM (·.attribute? path)
    (fun a ha _ _ hadd => attribute?_addAttribute_of_apart hadd (hapart a ha).1 (hapart a ha).2) h

/-- The last key that leads to a path decides what is there. -/
theorem attribute?_addAttributes_of_last {before after : List (String × Json)}
    {key path : String} {raw : Json} (hkey : LeadsTo key path)
    (hafter : ∀ a ∈ after, ¬ LeadsTo a.1 path ∧ ¬ LeadsTo path a.1) {ctx ctx' : Context}
    (h : (before ++ (key, raw) :: after).foldlM addAttribute ctx = .ok ctx') :
    ∃ v, Value.ofJson raw = .ok v ∧
      ctx'.attribute? path = Value.walk ((segments path).drop (segments key).length) v := by
  obtain ⟨earlier, next, hnext, h⟩ := exists_of_foldlM_append_cons h
  obtain ⟨v, hv, hwalk⟩ := attribute?_addAttribute_of_leadsTo hnext hkey
  exact ⟨v, hv, (attribute?_addAttributes_of_apart hafter h).trans hwalk⟩

/-- Of the keys in ascending order that lead to a path, the longest is the last. -/
theorem not_leadsTo_of_after {before after : List (String × Json)} {key path : String} {raw : Json}
    (hascending : Fields.Ascending (before ++ (key, raw) :: after)) (hkey : LeadsTo key path)
    (hlongest : ∀ a ∈ after, LeadsTo a.1 path →
      (segments a.1).length ≤ (segments key).length) :
    ∀ a ∈ after, ¬ LeadsTo a.1 path := by
  intro a ha hleads
  have hlt : key < a.1 :=
    (List.pairwise_cons.mp (List.pairwise_append.mp hascending).2.1).1 a ha
  have hback : LeadsTo a.1 key := List.prefix_of_prefix_length_le hleads hkey (hlongest a ha hleads)
  have hne : a.1 ≠ key := fun heq => String.lt_irrefl key (heq ▸ hlt)
  exact String.lt_asymm hlt (lt_of_leadsTo hback hne)

section
variable {j : Json} {now : Int64} {ctx : Context} (hj : j.Ordered) (h : ofJson j now = .ok ctx)
  {path : String} (hpath : ∀ a ∈ Written.attributes j, ¬ GoesOnFrom a.1 path)
include h hpath

/-- Without a key that leads to a path there is nothing. -/
theorem attribute?_eq_none (hnone : ∀ a ∈ Written.attributes j, ¬ LeadsTo a.1 path) :
    ctx.attribute? path = none := by
  obtain ⟨start, attributed, hadd, hstart, hattributes⟩ := exists_attributed h
  have hapart : ∀ a ∈ Written.attributes j, ¬ LeadsTo a.1 path ∧ ¬ LeadsTo path a.1 :=
    fun a ha => ⟨hnone a ha, fun hback => hnone a ha (hback.of_back (hpath a ha))⟩
  have hsame := attribute?_addAttributes_of_apart hapart hadd
  obtain ⟨segment, rest, hsegments⟩ := List.exists_cons_of_ne_nil (segments_ne_nil path)
  rw [attribute?, attribute?, hstart, hsegments] at hsame
  rw [attribute?, hattributes, hsegments, hsame]
  rfl

include hj

/-- The longest key that leads to a path decides what is there. -/
theorem exists_attribute?_of_longest {key : String} {raw : Json}
    (hmem : (key, raw) ∈ Written.attributes j) (hkey : LeadsTo key path)
    (hlongest : ∀ a ∈ Written.attributes j, LeadsTo a.1 path →
      (segments a.1).length ≤ (segments key).length) :
    ∃ v, Value.ofJson raw = .ok v ∧
      ctx.attribute? path = Value.walk ((segments path).drop (segments key).length) v := by
  obtain ⟨start, attributed, hadd, -, hattributes⟩ := exists_attributed h
  have hascending := Document.Response.ascending_attributes hj
  obtain ⟨before, after, hsplit⟩ := List.append_of_mem hmem
  rw [hsplit] at hascending hadd hlongest hpath
  have hsub : ∀ a ∈ after, a ∈ before ++ (key, raw) :: after :=
    fun a ha => List.mem_append_right before (List.mem_cons_of_mem _ ha)
  have hnot := not_leadsTo_of_after hascending hkey fun a ha => hlongest a (hsub a ha)
  have hafter : ∀ a ∈ after, ¬ LeadsTo a.1 path ∧ ¬ LeadsTo path a.1 :=
    fun a ha => ⟨hnot a ha, fun hback => hnot a ha (hback.of_back (hpath a (hsub a ha)))⟩
  obtain ⟨v, hv, hwalk⟩ := attribute?_addAttributes_of_last hkey hafter hadd
  refine ⟨v, hv, ?_⟩
  rw [← hwalk, attribute?, attribute?, hattributes]

end

/-- A path that no key goes on from has what the longest key that leads to it says: what is in that
value at the rest of the path, and nothing without such a key. So a key that no other goes on from
has its own value. The order of the members is that of every text that is read
(`Json.ordered_of_ofText`); it puts a key before those that go on from it. -/
theorem attribute?_of_document {j : Json} {now : Int64} {ctx : Context} (hj : j.Ordered)
    (h : ofJson j now = .ok ctx) :
    (∀ path, (∀ a ∈ Written.attributes j, ¬ GoesOnFrom a.1 path) →
      (∀ key raw, (key, raw) ∈ Written.attributes j → LeadsTo key path →
        (∀ a ∈ Written.attributes j, LeadsTo a.1 path →
          (segments a.1).length ≤ (segments key).length) →
        ∃ v, Value.ofJson raw = .ok v ∧
          ctx.attribute? path = Value.walk ((segments path).drop (segments key).length) v) ∧
      ((∀ a ∈ Written.attributes j, ¬ LeadsTo a.1 path) → ctx.attribute? path = none)) ∧
    ∀ key raw, (key, raw) ∈ Written.attributes j →
      (∀ a ∈ Written.attributes j, ¬ GoesOnFrom a.1 key) →
      ∃ v, Value.ofJson raw = .ok v ∧ ctx.attribute? key = some v := by
  refine ⟨fun path hpath => ⟨fun key raw hmem hkey hlongest => ?_, fun hnone => ?_⟩,
    fun key raw hmem hpath => ?_⟩
  · exact exists_attribute?_of_longest hj h hpath hmem hkey hlongest
  · exact attribute?_eq_none h hpath hnone
  · obtain ⟨v, hv, hwalk⟩ := exists_attribute?_of_longest hj h hpath hmem List.prefix_rfl
      fun a _ hleads => hleads.length_le
    rw [List.drop_length] at hwalk
    exact ⟨v, hv, hwalk⟩

/-- A record with one of its fields given once more by a dotted key. -/
def overlappingText : String :=
  "\x7b\"attributes\": \x7b\"mode.kind\": \"b\", " ++
    "\"mode\": \x7b\"kind\": \"a\", \"level\": 3\x7d\x7d\x7d"

def overlapping : Json :=
  .object [("attributes", .object [
    ("mode", .object [("kind", .string "a"), ("level", .int 3)]), ("mode.kind", .string "b")])]

/-- The dotted key has its own value, and the other field is that of the record. -/
theorem overlapping_attributes :
    Json.ofText overlappingText = .ok overlapping ∧
      ∃ ctx, ofJson overlapping 0 = .ok ctx ∧
        ctx.attribute? "mode.kind" = some (.text "b") ∧
        ctx.attribute? "mode.level" = some (.int 3) := by
  have htext : Json.ofText overlappingText = .ok overlapping := by rfl
  have hread : ofJson overlapping 0 =
      .ok ⟨[], [("mode", .record [("kind", .text "b"), ("level", .int 3)])], none, 0⟩ := by rfl
  obtain ⟨hpaths, hkeys⟩ := attribute?_of_document (Json.ordered_of_ofText htext) hread
  refine ⟨htext, _, hread, ?_, ?_⟩
  · obtain ⟨v, hv, hkind⟩ := hkeys "mode.kind" (.string "b")
      (List.mem_cons_of_mem _ List.mem_cons_self) (by decide +kernel)
    obtain rfl := Except.ok.inj hv
    exact hkind
  · obtain ⟨v, hv, hlevel⟩ := (hpaths "mode.level" (by decide +kernel)).1 "mode"
      (.object [("kind", .string "a"), ("level", .int 3)]) List.mem_cons_self (by decide +kernel)
      (by decide +kernel)
    obtain rfl := Except.ok.inj hv
    rw [hlevel]
    rfl

end Context

end Questionnaire
