import Questionnaire.Proofs.Convertible
import Questionnaire.Proofs.Ordered
import Questionnaire.Proofs.Timestamps
import Questionnaire.Proofs.Written

/-! Contexts from response documents: when there is one, what it has for each item, and that answers
to different items may come in any order. -/
namespace Questionnaire

section
variable {ε α β δ : Type}

/-- Where the draft has no say in whether a step succeeds, all steps succeed just if each does. -/
theorem exists_foldlM_eq_ok_iff {step : δ → α → Except ε δ} {suits : α → Prop}
    (hstep : ∀ d a, (∃ d', step d a = .ok d') ↔ suits a) {xs : List α} {start : δ} :
    (∃ result, xs.foldlM step start = .ok result) ↔ ∀ x ∈ xs, suits x := by
  constructor
  · rintro ⟨result, h⟩
    induction xs generalizing start with
    | nil => exact nofun
    | cons x rest ih =>
      rw [List.foldlM_cons] at h
      obtain ⟨next, hnext, h⟩ := exists_of_bind_eq_ok h
      exact List.forall_mem_cons.mpr ⟨(hstep start x).mp ⟨next, hnext⟩, ih h⟩
  · intro h
    exact exists_foldlM_eq_ok (fun x hx d => (hstep d x).mpr (h x hx)) start

/-- The last field with a name is the last of those with that name. -/
theorem last?_filter (name : String) (fields : List (String × β)) :
    last? name (fields.filter (·.1 = name)) = last? name fields := by
  induction fields with
  | nil => rfl
  | cons field rest ih =>
    by_cases hname : field.1 = name
    · rw [List.filter_cons_of_pos (by simpa using hname), last?, last?, ih]
    · rw [List.filter_cons_of_neg (by simpa using hname), last?, ih, if_neg hname, Option.or_none]

theorem last?_eq_none_iff {name : String} {fields : List (String × β)} :
    last? name fields = none ↔ name ∉ fields.map (·.1) := by
  induction fields with
  | nil => simp [last?]
  | cons field rest ih =>
    rw [last?, Option.or_eq_none_iff, ih]
    simp [eq_comm, and_comm]

end

namespace Fields
variable {α : Type}

theorem get?_eq_none_iff {name : String} {fields : Fields α} :
    get? name fields = none ↔ name ∉ fields.names := by
  induction fields with
  | nil => simp [names]
  | cons field rest ih =>
    obtain ⟨n, v⟩ := field
    rw [get?]
    by_cases hn : n = name
    · simp [hn, names]
    · rw [if_neg hn, ih]
      simp [names, Ne.symm hn]

theorem get?_eq_none_of_before {name : String} {fields : Fields α} (h : ∀ f ∈ fields, name < f.1) :
    get? name fields = none := by
  rw [get?_eq_none_iff]
  intro hmem
  obtain ⟨field, hfield, rfl⟩ := List.mem_map.mp hmem
  exact String.lt_irrefl _ (h field hfield)

/-- Fields in ascending order are determined by what is found under each name. -/
theorem eq_of_get?_eq {a b : Fields α} (ha : a.Ascending) (hb : b.Ascending)
    (h : ∀ name, get? name a = get? name b) : a = b := by
  induction a generalizing b with
  | nil =>
    cases b with
    | nil => rfl
    | cons field rest =>
      have hname := h field.1
      rw [get?_nil, get?, if_pos rfl] at hname
      cases hname
  | cons first others ih =>
    obtain ⟨hfirst, hothers⟩ := List.pairwise_cons.mp ha
    obtain ⟨n, v⟩ := first
    cases b with
    | nil =>
      have hname := h n
      rw [get?_nil, get?, if_pos rfl] at hname
      cases hname
    | cons field rest =>
      obtain ⟨hfield, hrest⟩ := List.pairwise_cons.mp hb
      obtain ⟨m, w⟩ := field
      -- The first name of one list cannot be missing from the other, which has no smaller one.
      have hnm : n = m := by
        rcases Std.lt_trichotomy n m with hlt | heq | hlt
        · have hnone : get? n ((m, w) :: rest) = none := get?_eq_none_of_before
            (List.forall_mem_cons.mpr ⟨hlt, fun f hf => String.lt_trans hlt (hfield f hf)⟩)
          rw [← h n, get?, if_pos rfl] at hnone
          cases hnone
        · exact heq
        · have hnone : get? m ((n, v) :: others) = none := get?_eq_none_of_before
            (List.forall_mem_cons.mpr ⟨hlt, fun f hf => String.lt_trans hlt (hfirst f hf)⟩)
          rw [h m, get?, if_pos rfl] at hnone
          cases hnone
      subst hnm
      have hvalue := h n
      rw [get?, get?, if_pos rfl, if_pos rfl] at hvalue
      obtain rfl := Option.some.inj hvalue
      refine congrArg _ (ih hothers hrest fun name => ?_)
      by_cases hname : n = name
      · subst hname
        rw [get?_eq_none_of_before hfirst, get?_eq_none_of_before hfield]
      · have hlookup := h name
        rw [get?, get?, if_neg hname, if_neg hname] at hlookup
        exact hlookup

end Fields

namespace Document

/-- A number of seconds, or a text that is read as a timestamp. -/
def EvaluationTime.IsReadable : EvaluationTime → Prop
  | unix _ => True
  | text s => ∃ t : Rfc3339.Timestamp, t.IsReadable ∧ t.write = s.toList

theorem EvaluationTime.exists_seconds_iff (time : EvaluationTime) :
    (∃ seconds, time.seconds = .ok seconds) ↔ time.IsReadable := by
  cases time with
  | unix seconds => exact iff_of_true ⟨seconds, rfl⟩ trivial
  | text s =>
    rw [IsReadable, ← Rfc3339.Timestamp.exists_seconds?_iff, seconds]
    cases Rfc3339.seconds? s.toList <;> simp

namespace ResponseNode

mutual

/-- The values at the leaves of a node. At a node with items the value is not looked at. -/
def leafValues : ResponseNode → List Json
  | mk _ value none => value.toList
  | mk _ _ (some items) => leafValuesOf items

def leafValuesOf : List ResponseNode → List Json
  | [] => []
  | node :: rest => leafValues node ++ leafValuesOf rest

end

end ResponseNode

/-- The same entries, but for the order of those with different keys. -/
def Reordered (entries entries' : List ResponseEntry) : Prop :=
  ∀ key, entries.filter (·.key = key) = entries'.filter (·.key = key)

end Document

namespace ResponseNode

mutual

/-- A tree of the same shape with the same keys, and the values of the leaves converted. -/
def Mirrors : ResponseNode → Document.ResponseNode → Prop
  | leaf key value, .mk key' value' none =>
    key = key' ∧ Option.Rel (fun v j => Value.ofJson j = .ok v) value value'
  | group key children, .mk key' _ (some items) => key = key' ∧ AllMirror children items
  | _, _ => False

def AllMirror : List ResponseNode → List Document.ResponseNode → Prop
  | [], [] => True
  | node :: rest, d :: rest' => Mirrors node d ∧ AllMirror rest rest'
  | _, _ => False

end

mutual

theorem exists_ofDocument_iff (d : Document.ResponseNode) :
    (∃ node, ofDocument d = .ok node) ↔ ∀ j ∈ d.leafValues, j.Convertible := by
  obtain ⟨key, value, _ | items⟩ := d
  · cases value with
    | none => exact iff_of_true ⟨_, rfl⟩ nofun
    | some j =>
      rw [ofDocument, exists_bind_eq_ok_iff, Value.exists_ofJson_iff]
      simp [Document.ResponseNode.leafValues]
  · rw [ofDocument, exists_bind_eq_ok_iff]
    exact exists_ofDocuments_iff items

theorem exists_ofDocuments_iff (ds : List Document.ResponseNode) :
    (∃ nodes, ofDocuments ds = .ok nodes) ↔
      ∀ j ∈ Document.ResponseNode.leafValuesOf ds, j.Convertible := by
  cases ds with
  | nil => exact iff_of_true ⟨[], rfl⟩ nofun
  | cons d rest =>
    rw [ofDocuments, exists_bind₂_eq_ok_iff, Document.ResponseNode.leafValuesOf,
      List.forall_mem_append]
    exact and_congr (exists_ofDocument_iff d) (exists_ofDocuments_iff rest)

end

mutual

theorem mirrors_of_ofDocument (d : Document.ResponseNode) {node : ResponseNode}
    (h : ofDocument d = .ok node) : node.Mirrors d := by
  obtain ⟨key, value, _ | items⟩ := d
  · cases value with
    | none =>
      obtain rfl := Except.ok.inj h
      exact ⟨rfl, .none⟩
    | some j =>
      rw [ofDocument] at h
      obtain ⟨v, hv, h⟩ := exists_of_bind_eq_ok h
      obtain rfl := Except.ok.inj h
      exact ⟨rfl, .some hv⟩
  · rw [ofDocument] at h
    obtain ⟨children, hchildren, h⟩ := exists_of_bind_eq_ok h
    obtain rfl := Except.ok.inj h
    exact ⟨rfl, allMirror_of_ofDocuments items hchildren⟩

theorem allMirror_of_ofDocuments (ds : List Document.ResponseNode) {nodes : List ResponseNode}
    (h : ofDocuments ds = .ok nodes) : AllMirror nodes ds := by
  cases ds with
  | nil =>
    obtain rfl := Except.ok.inj h
    exact trivial
  | cons d rest =>
    obtain ⟨node, hnode, h⟩ := exists_of_bind_eq_ok h
    obtain ⟨others, hothers, h⟩ := exists_of_bind_eq_ok h
    obtain rfl := Except.ok.inj h
    exact ⟨mirrors_of_ofDocument d hnode, allMirror_of_ofDocuments rest hothers⟩

end

end ResponseNode

namespace Context
open Document (EvaluationTime ResponseEntry Reordered)

theorem exists_addAttributes_iff {attributes : List (String × Json)} {start : Context} :
    (∃ ctx, attributes.foldlM addAttribute start = .ok ctx) ↔
      ∀ a ∈ attributes, a.2.Convertible := by
  apply exists_foldlM_eq_ok_iff
  intro ctx a
  rw [addAttribute, exists_bind_eq_ok_iff]
  exact Value.exists_ofJson_iff a.2

theorem exists_addResponses_iff {responses : List ResponseEntry} {start : Context} :
    (∃ ctx, responses.foldlM addResponse start = .ok ctx) ↔
      ∀ entry ∈ responses, ∀ j ∈ entry.response.leafValues, j.Convertible := by
  apply exists_foldlM_eq_ok_iff
  intro ctx entry
  rw [addResponse, exists_bind_eq_ok_iff]
  exact ResponseNode.exists_ofDocument_iff entry.response

/-- A context from a document with a time of its own: of every part of the document it is asked
whether that can be converted, also of answers that do not stay. -/
theorem exists_ofDocument_iff {document : Document.Response} {time : EvaluationTime}
    (htime : document.evaluationTime = some time) (now : Int64) :
    (∃ ctx, ofDocument document now = .ok ctx) ↔
      time.IsReadable ∧ (∀ a ∈ document.attributes, a.2.Convertible) ∧
        ∀ entry ∈ document.responses, ∀ j ∈ entry.response.leafValues, j.Convertible := by
  rw [← EvaluationTime.exists_seconds_iff]
  unfold ofDocument
  rw [htime]
  constructor
  · rintro ⟨ctx, h⟩
    obtain ⟨seconds, hseconds, h⟩ := exists_of_bind_eq_ok h
    obtain ⟨attributed, hattributed, h⟩ := exists_of_bind_eq_ok h
    exact ⟨⟨seconds, hseconds⟩, exists_addAttributes_iff.mp ⟨attributed, hattributed⟩,
      exists_addResponses_iff.mp ⟨ctx, h⟩⟩
  · rintro ⟨⟨seconds, hseconds⟩, hattributes, hresponses⟩
    obtain ⟨attributed, hattributed⟩ := exists_addAttributes_iff.mpr hattributes
    obtain ⟨ctx, h⟩ := exists_addResponses_iff.mpr hresponses
    refine ⟨ctx, ?_⟩
    change (time.seconds >>= _) = _
    rw [hseconds]
    change (document.attributes.foldlM addAttribute _ >>= _) = _
    rw [hattributed]
    exact h

theorem ascending_of_addResponses {responses : List ResponseEntry} {start ctx : Context}
    (hstart : start.responses.Ascending) (h : responses.foldlM addResponse start = .ok ctx) :
    ctx.responses.Ascending := by
  refine holds_of_foldlM (p := fun ctx => ctx.responses.Ascending)
    (fun entry _ d d' hd hadd => ?_) hstart h
  obtain ⟨node, -, hadd⟩ := exists_of_bind_eq_ok hadd
  obtain rfl := Except.ok.inj hadd
  exact Fields.ascending_insert _ node hd

/-- Answers are all that is changed by answers. -/
theorem eq_of_addResponses {responses : List ResponseEntry} {start ctx : Context}
    (h : responses.foldlM addResponse start = .ok ctx) :
    ctx = { start with responses := ctx.responses } := by
  have hkept := kept_of_foldlM (fun ctx : Context => { ctx with responses := [] })
    (fun entry _ d d' hadd => ?_) h
  · exact congrArg (fun kept : Context => { kept with responses := ctx.responses }) hkept
  · obtain ⟨node, -, hadd⟩ := exists_of_bind_eq_ok hadd
    obtain rfl := Except.ok.inj hadd
    rfl

section
variable {document : Document.Response} {now : Int64} {ctx : Context}
  (h : ofDocument document now = .ok ctx)
include h

theorem exists_addResponses_of_ofDocument :
    ∃ attributed, attributed.responses = [] ∧
      document.responses.foldlM addResponse attributed = .ok ctx ∧
      ∀ responses, ofDocument { document with responses } now =
        responses.foldlM addResponse attributed := by
  obtain ⟨time, htime, h⟩ := exists_of_bind_eq_ok h
  obtain ⟨attributed, hattributed, h⟩ := exists_of_bind_eq_ok h
  refine ⟨attributed, responses_of_addAttribute hattributed, h, fun responses => ?_⟩
  unfold ofDocument
  rw [htime]
  change (document.attributes.foldlM addAttribute _ >>= _) = _
  rw [hattributed]
  rfl

theorem ascending_responses : ctx.responses.Ascending := by
  obtain ⟨attributed, hnone, hadd, -⟩ := exists_addResponses_of_ofDocument h
  refine ascending_of_addResponses ?_ hadd
  rw [hnone]
  exact List.Pairwise.nil

theorem mirrors_of_ofDocument (key : String) :
    Option.Rel ResponseNode.Mirrors (ctx.response? key)
      (last? key (document.responses.map fun e => (e.key, e.response))) := by
  have hresponse := response?_of_ofDocument h key
  generalize last? key (document.responses.map fun e => (e.key, e.response)) = written
    at hresponse ⊢
  generalize ctx.response? key = response at hresponse ⊢
  cases written with
  | none =>
    obtain rfl := Except.ok.inj hresponse
    exact .none
  | some d =>
    obtain ⟨node, hnode, rfl⟩ := exists_of_map_eq_ok hresponse
    exact .some (ResponseNode.mirrors_of_ofDocument d hnode)

theorem mem_names_responses_iff (key : String) :
    key ∈ ctx.responses.names ↔ ∃ entry ∈ document.responses, entry.key = key := by
  have hnone : ctx.response? key = none ↔
      last? key (document.responses.map fun e => (e.key, e.response)) = none := by
    have hmirrors := mirrors_of_ofDocument h key
    generalize ctx.response? key = response, last? key (document.responses.map _) = written
      at hmirrors ⊢
    cases hmirrors <;> simp
  rw [response?, Fields.get?_eq_none_iff, last?_eq_none_iff, not_iff_not] at hnone
  rw [hnone]
  simp

/-- Entries in another order make the same context. -/
theorem ofDocument_reordered {entries : List ResponseEntry}
    (hsame : Reordered entries document.responses) :
    ofDocument { document with responses := entries } now = .ok ctx := by
  obtain ⟨attributed, hnone, hadd, hother⟩ := exists_addResponses_of_ofDocument h
  have hmem : ∀ entry ∈ entries, entry ∈ document.responses := by
    intro entry hentry
    have hfiltered : entry ∈ entries.filter (·.key = entry.key) :=
      List.mem_filter.mpr ⟨hentry, decide_eq_true rfl⟩
    rw [hsame entry.key] at hfiltered
    exact (List.mem_filter.mp hfiltered).1
  have hconvertible := exists_addResponses_iff.mp ⟨ctx, hadd⟩
  obtain ⟨ctx', hadd'⟩ : ∃ ctx', entries.foldlM addResponse attributed = .ok ctx' :=
    exists_addResponses_iff.mpr fun entry hentry => hconvertible entry (hmem entry hentry)
  have h' : ofDocument { document with responses := entries } now = .ok ctx' :=
    (hother entries).trans hadd'
  have hlast : ∀ key, last? key (entries.map fun e => (e.key, e.response)) =
      last? key (document.responses.map fun e => (e.key, e.response)) := by
    intro key
    rw [← last?_filter, List.filter_map, ← last?_filter key (document.responses.map _),
      List.filter_map]
    exact congrArg (fun kept => last? key (List.map _ kept)) (hsame key)
  have hresponses : ctx'.responses = ctx.responses := by
    refine Fields.eq_of_get?_eq (ascending_responses h') (ascending_responses h) fun key => ?_
    have hread := response?_of_ofDocument h key
    rw [← hlast key, response?_of_ofDocument h' key] at hread
    exact Except.ok.inj hread
  rw [h', eq_of_addResponses hadd', hresponses, ← eq_of_addResponses hadd]

end

/-- A document with a time of its own makes a context just if its time is an integer or a timestamp,
and no attribute and no leaf of an answer has a value with an array in it or with a number that
cannot be converted. That goes for the answers that do not stay, too; what stands at a node with
items does not count. The context has one answer for each key, in the order of the keys: the tree of
the last entry with that key. Entries with different keys may come in any order. -/
theorem context_of_document {document : Document.Response} {time : EvaluationTime}
    (htime : document.evaluationTime = some time) (now : Int64) :
    ((∃ ctx, ofDocument document now = .ok ctx) ↔
      time.IsReadable ∧ (∀ a ∈ document.attributes, a.2.Convertible) ∧
        ∀ entry ∈ document.responses, ∀ j ∈ entry.response.leafValues, j.Convertible) ∧
    ∀ ctx, ofDocument document now = .ok ctx →
      ctx.responses.Ascending ∧
      (∀ key, key ∈ ctx.responses.names ↔ ∃ entry ∈ document.responses, entry.key = key) ∧
      (∀ key, Option.Rel ResponseNode.Mirrors (ctx.response? key)
        (last? key (document.responses.map fun e => (e.key, e.response)))) ∧
      ∀ entries, Reordered entries document.responses →
        ofDocument { document with responses := entries } now = .ok ctx := by
  refine ⟨exists_ofDocument_iff htime now, fun ctx h => ?_⟩
  exact ⟨ascending_responses h, mem_names_responses_iff h, mirrors_of_ofDocument h,
    fun entries => ofDocument_reordered h⟩

/-- A group with an array for its value. -/
def groupEntry : ResponseEntry := ⟨"a", .mk "rg" (some (.array [])) (some [.mk "x" none none])⟩

/-- Two answers to an item with one to another item between them, at a leap second. -/
def twiceAnswered : Document.Response where
  participantId := none
  evaluationTime := some (.text "2024-02-29T23:59:60+00:00")
  attributes := [("mode", .object [("kind", .string "a")])]
  responses := [⟨"b", .mk "rg" none none⟩, groupEntry, ⟨"b", .mk "rg" (some (.int 2)) none⟩]

def leapSecond : Rfc3339.Timestamp :=
  ⟨2024, 2, 29, 'T', 23, 59, 60, [], .shifted false 0 0⟩

theorem twiceAnswered_assembled :
    twiceAnswered.evaluationTime = some (.text "2024-02-29T23:59:60+00:00") ∧
      ∃ ctx, ofDocument twiceAnswered 0 = .ok ctx ∧
        ofDocument { twiceAnswered with responses :=
          [groupEntry, ⟨"b", .mk "rg" none none⟩, ⟨"b", .mk "rg" (some (.int 2)) none⟩] } 0 =
            .ok ctx := by
  have htime : twiceAnswered.evaluationTime = some (.text "2024-02-29T23:59:60+00:00") := rfl
  obtain ⟨hexists, hall⟩ := context_of_document htime 0
  have hreadable : leapSecond.IsReadable := by
    constructor
    case fraction_digits => exact List.forall_mem_nil _
    all_goals decide +kernel
  have hwritten : leapSecond.write = "2024-02-29T23:59:60+00:00".toList := by rfl
  have hattributes : ∀ a ∈ twiceAnswered.attributes, a.2.Convertible :=
    List.forall_mem_singleton.mpr ⟨trivial, trivial⟩
  have htwo : (Json.int 2).Convertible := by
    change (2 : Int).natAbs < Decimal.coefficientBound
    decide
  have hresponses : ∀ entry ∈ twiceAnswered.responses, ∀ j ∈ entry.response.leafValues,
      j.Convertible := by
    simp [twiceAnswered, groupEntry, Document.ResponseNode.leafValues,
      Document.ResponseNode.leafValuesOf, htwo]
  obtain ⟨ctx, h⟩ := hexists.mpr ⟨⟨leapSecond, hreadable, hwritten⟩, hattributes, hresponses⟩
  obtain ⟨-, -, -, hreordered⟩ := hall ctx h
  refine ⟨htime, ctx, h, hreordered _ fun key => ?_⟩
  by_cases hb : "b" = key
  · subst hb
    rfl
  · simp [twiceAnswered, List.filter_cons, hb]

end Context

end Questionnaire
