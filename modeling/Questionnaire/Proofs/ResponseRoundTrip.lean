import Questionnaire.Item.Assembly
import Questionnaire.Proofs.RoundTrip
import Questionnaire.Proofs.Written

/-! A response document is read again from what it is written as, and with it all documents are. -/
namespace Questionnaire

namespace Document

namespace ResponseNode
open Written

/-- What a node is written with, in the order of the names. -/
def members : ResponseNode → List (String × Json)
  | mk key value items =>
    optionalMember "items" (items.map fun nodes => .array (listToJson nodes)) ++
    ([("key", .string key)] ++ optionalMember "value" value)

theorem toJson_eq_object (d : ResponseNode) : d.toJson = .object d.members := by
  obtain ⟨key, value, items⟩ := d
  cases value <;> cases items <;> rfl

theorem readOptional_of_nonNull {o : Option Json} {j : Json} (h : o.bind nonNull = some j) :
    readOptional readAny j = .ok (some j) := by
  obtain ⟨k, -, hk⟩ := Option.bind_eq_some_iff.mp h
  cases k with
  | null => cases hk
  | _ =>
    obtain rfl := Option.some.inj hk
    rfl

theorem fills {key : String} {value : Option Json} {items : Option (List ResponseNode)}
    (hvalue : ∀ j ∈ value, readOptional readAny j = .ok value)
    (hitems : ∀ nodes ∈ items, listOfJson (listToJson nodes) = .ok nodes) :
    Fills (fun d name j => Draft.put d name (part j)) (mk key value items).members
      ⟨none, none, none⟩ ⟨some key, value, items⟩ := by
  apply Fills.append ⟨none, none, items⟩
  · apply Fills.optionalMember
    · intro hnone
      rw [Option.map_eq_none_iff.mp hnone]
    · intro j hj
      obtain ⟨nodes, hnodes, rfl⟩ := Option.map_eq_some_iff.mp hj
      simp only [Draft.put, part, hitems nodes hnodes, Except.map, hnodes]
      rfl
  apply Fills.append ⟨some key, none, items⟩
  · exact .cons rfl .nil
  exact .optionalJson (Draft.mk (some key) · items) (fun j => by cases j <;> rfl) hvalue

mutual

theorem ofJson_toJson (d : ResponseNode) {j : Json} (h : ofJson j = .ok d) :
    ofJson d.toJson = .ok d := by
  obtain ⟨key, value, items⟩ := d
  obtain ⟨-, hvalue, hitems⟩ := written_of_ofJson h
  generalize items? j = written at hitems
  have hagain : ∀ nodes ∈ items, listOfJson (listToJson nodes) = .ok nodes := by
    intro nodes hnodes
    cases items with
    | none => cases hnodes
    | some read =>
      obtain rfl := Option.some.inj hnodes
      obtain @⟨js, _, hjs⟩ := hitems
      exact listOfJson_listToJson read hjs
  have hnonnull : ∀ j ∈ value, readOptional readAny j = .ok value := by
    intro j hj
    rw [readOptional_of_nonNull (hvalue.symm.trans hj), Option.mem_def.mp hj]
  rw [toJson_eq_object, ofJson, memberParts_eq]
  exact RecordForm.read_eq_ok form (fills hnonnull hagain).map rfl

theorem listOfJson_listToJson (ds : List ResponseNode) {js : List Json}
    (h : listOfJson js = .ok ds) : listOfJson (listToJson ds) = .ok ds := by
  cases ds with
  | nil => rfl
  | cons d rest =>
    obtain ⟨j, js, rfl, hd, hrest⟩ := exists_cons_of_listOfJson h
    rw [listToJson, listOfJson, ofJson_toJson d hd, listOfJson_listToJson rest hrest]
    rfl

end

end ResponseNode

theorem ResponseEntry.rereads : Rereads ofJson toJson := by
  intro j entry h
  obtain ⟨-, written, -, hresponse⟩ := written_of_ofJson h
  have hfills : Fills Draft.put [("key", .string entry.key), ("response", entry.response.toJson)]
      ⟨none, none⟩ ⟨some entry.key, some entry.response⟩ := by
    apply Fills.cons rfl
    apply Fills.cons _ .nil
    simp only [Draft.put, ResponseNode.ofJson_toJson entry.response hresponse]
    rfl
  exact RecordForm.read_eq_ok form hfills rfl

theorem EvaluationTime.ofJson_toJson (time : EvaluationTime) : ofJson time.toJson = .ok time := by
  cases time with
  | unix seconds =>
    have hrange := And.intro (Int64.minValue_le_toInt seconds) (Int64.toInt_le seconds)
    rw [toJson, Json.int, ofJson, if_pos hrange, Int64.ofInt_toInt]
  | text s => rfl

theorem EvaluationTime.readOptional_toJson (time : EvaluationTime) :
    readOptional ofJson time.toJson = .ok (some time) := by
  have h := ofJson_toJson time
  cases time <;> simp only [toJson, Json.int, readOptional] at h ⊢ <;> rw [h] <;> rfl

namespace Response

/-- What a document is written with, in the order of the names. -/
def members (document : Response) : List (String × Json) :=
  [("attributes", .object document.attributes)] ++
  (optionalMember "evaluationTime" (document.evaluationTime.map EvaluationTime.toJson) ++
  (optionalMember "participantId" (document.participantId.map .string) ++
  [("responses", .array (document.responses.map ResponseEntry.toJson))]))

theorem toJson_eq_object (document : Response) : document.toJson = .object document.members := by
  obtain ⟨participantId, time, attributes, responses⟩ := document
  cases participantId <;> cases time <;> rfl

theorem fills {document : Response}
    (hresponses : readList ResponseEntry.ofJson
      (.array (document.responses.map ResponseEntry.toJson)) = .ok document.responses) :
    Fills put document.members empty document := by
  obtain ⟨participantId, time, attributes, responses⟩ := document
  apply Fills.append ⟨none, none, attributes, []⟩
  · exact .cons rfl .nil
  apply Fills.append ⟨none, time, attributes, []⟩
  · cases time with
    | none => exact .nil
    | some time =>
      apply Fills.cons _ .nil
      simp only [put, time.readOptional_toJson]
      rfl
  apply Fills.append ⟨participantId, time, attributes, []⟩
  · cases participantId with
    | none => exact .nil
    | some id => exact .cons rfl .nil
  apply Fills.cons _ .nil
  simp only [put, hresponses]
  rfl

theorem ofJson_toJson {j : Json} {document : Response} (h : ofJson j = .ok document) :
    ofJson document.toJson = .ok document := by
  have hresponses := ResponseEntry.rereads.list.of_elim rfl (responses_of_ofJson h)
  have hread : form.read empty put (fun draft => .ok draft) (.named document.members) =
      .ok document := RecordForm.read_eq_ok form (fills hresponses) rfl
  rw [toJson_eq_object]
  simp only [ofJson, RecordForm.readJson, parts?, hread]

end Response

/-- Every document that is read is read again, as the same document, from what it is written as:
whichever of its members were not given, null or of no meaning, and whichever records were given by
position. So writing once more changes nothing, and what is written makes the same questionnaire or
context as what was read. The members of an object stand in ascending order, as in every text that
is read (`Json.ordered_of_ofText`). -/
theorem documents_are_reread :
    (∀ (j : Json) (document : Survey), j.Ordered → Survey.ofJson j = .ok document →
      Survey.ofJson document.toJson = .ok document ∧
      (Survey.ofJson document.toJson).map Survey.toJson = .ok document.toJson ∧
      Questionnaire.Survey.ofJson document.toJson = Questionnaire.Survey.ofJson j) ∧
    ∀ (j : Json) (document : Response), Response.ofJson j = .ok document →
      Response.ofJson document.toJson = .ok document ∧
      (Response.ofJson document.toJson).map Response.toJson = .ok document.toJson ∧
      ∀ now, Context.ofJson document.toJson now = Context.ofJson j now := by
  constructor
  · intro j document hj h
    have hagain := Survey.ofJson_toJson hj h
    refine ⟨hagain, ?_, ?_⟩
    · rw [hagain]
      rfl
    · rw [Questionnaire.Survey.ofJson, Questionnaire.Survey.ofJson, hagain, h]
  · intro j document h
    have hagain := Response.ofJson_toJson h
    refine ⟨hagain, ?_, fun now => ?_⟩
    · rw [hagain]
      rfl
    · rw [Context.ofJson, Context.ofJson, hagain, h]

/-- A survey with a question, its rule and its option by position, a condition that is null, and a
member of no meaning. -/
def looseSurvey : Json :=
  .object [("id", .string "s"), ("note", .int 1), ("root", .object [
    ("items", .array [.array [.string "question", .string "q", .int 2, .null,
      .array [.array [.string "r", .string "soft", .null]], .string "text",
      .array [.array [.string "o"]]]]),
    ("key", .string "g"), ("kind", .string "group")])]

/-- Responses with a leaf by position, a value and items that are null, and a time before 1970. -/
def looseResponses : Json :=
  .object [("evaluationTime", .int (-1)), ("participantId", .null),
    ("responses", .array [.array [.string "q", .array [.string "q"]],
      .object [("key", .string "g"), ("response", .object [
        ("items", .null), ("key", .string "g"), ("value", .null)])]])]

theorem loose_documents_are_reread :
    looseSurvey.Ordered ∧
    (∃ document, Survey.ofJson looseSurvey = .ok document ∧
      Survey.ofJson document.toJson = .ok document) ∧
    ∃ document, Response.ofJson looseResponses = .ok document ∧
      Response.ofJson document.toJson = .ok document := by
  obtain ⟨hsurvey, hresponses⟩ := documents_are_reread
  have hordered : looseSurvey.Ordered := by decide
  have hread : Survey.ofJson looseSurvey = .ok ⟨"s", none, .group "g" 0 none [] .sequential
      [.question "q" 2 none [⟨"r", "soft", .null⟩] "text" [⟨"o", "option", none, none⟩]]⟩ := by rfl
  have hreads : Response.ofJson looseResponses = .ok ⟨none, some (.unix (-1)), [],
      [⟨"q", .mk "q" none none⟩, ⟨"g", .mk "g" none none⟩]⟩ := by rfl
  exact ⟨hordered, ⟨_, hread, (hsurvey _ _ hordered hread).1⟩,
    ⟨_, hreads, (hresponses _ _ hreads).1⟩⟩

end Document

end Questionnaire
