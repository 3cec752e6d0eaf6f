import Questionnaire.CommandLine
import Questionnaire.Proofs.Outline

/-! The schema and the loader agree: what is valid and can be read is loaded, and has the shape that
it is written with. -/
namespace Questionnaire

theorem CommandLine.ordered_of_readJson {files : Files} {what path : String} {j : Json}
    (h : readJson files what path = .ok j) : j.Ordered := by
  unfold readJson at h
  split at h
  · cases h
  · next text _ =>
    cases htext : Json.ofText text with
    | error fault =>
      rw [htext] at h
      cases h
    | ok k =>
      rw [htext] at h
      obtain rfl := Except.ok.inj h
      exact Json.ordered_of_ofText htext

namespace Document.Schema
open Document.Item (GroupDraft QuestionDraft PageBreakDraft)

/-- An item is read as something that can be converted and has the entries that are written. -/
def ItemAgrees (j : Json) : Prop :=
  ∀ inner, ∃ d, Document.Item.ofJson inner j = .ok d ∧ (∀ x ∈ d.demands, x.IsMet) ∧
    d.outline = j.outline

def ItemsAgree (items : List Json) : Prop :=
  ∃ ds, Document.Item.listOfJson items = .ok ds ∧
    (∀ x ∈ Document.Item.allDemands ds, x.IsMet) ∧
    Document.Item.outlines ds = Json.outlines items ∧ ds.length = items.length

/-- What the schema asks of a member of a group. -/
def groupMember (name : String) (value : Json) : Bool :=
  match name with
  | "kind" => isOneOf ["group"] value
  | "key" => isKey value
  | "version" => isCount value
  | "condition" => isExpression value
  | "validations" => isListOf isRule value
  | "selection" => isSelection value
  | "items" => isItemList value
  | _ => false

theorem areGroupMembers_iff {members : List (String × Json)} :
    areGroupMembers members = true ↔ ∀ member ∈ members, groupMember member.1 member.2 = true :=
  iff_forall_of_recursion (q := (areGroupMembers · = true)) rfl
    (fun _ _ => iff_of_eq (Bool.and_eq_true _ _)) members

theorem forms_of_isItem {members : List (String × Json)} (h : isItem (.object members) = true) :
    (∃ kind, Fields.get? "kind" members = some kind) ∧
    (∃ key, Fields.get? "key" members = some key) ∧
    (areGroupMembers members = true ∨ isQuestion (.object members) = true ∨
      isPageBreak (.object members) = true) := by
  simp only [isItem, Bool.and_eq_true, requires, Option.isSome_iff_exists, formsBeside] at h
  obtain ⟨⟨⟨hkind, hkey⟩, -⟩, hforms⟩ := h
  refine ⟨hkind, hkey, ?_⟩
  cases hgroup : areGroupMembers members <;> cases hquestion : isQuestion (.object members) <;>
    cases hbreak : isPageBreak (.object members) <;> simp_all

theorem exists_optional (j : Json) : ∃ value, readOptional readAny j = .ok value := by
  cases j <;> exact ⟨_, rfl⟩

/-- The parts in a list are read, each with its demands met. -/
theorem exists_parts {α : Type} {rule : Json → Bool} {read : Json → Except ShapeFault α}
    {demands : α → List Demand}
    (hpart : ∀ j, rule j = true → j.Ordered → j.Readable →
      ∃ a, read j = .ok a ∧ ∀ d ∈ demands a, d.IsMet)
    {j : Json} (h : isListOf rule j = true) (hordered : j.Ordered) (hreadable : j.Readable) :
    ∃ items found, j = .array items ∧ readList read j = .ok found ∧
      found.length = items.length ∧ ∀ d ∈ found.flatMap demands, d.IsMet := by
  obtain ⟨items, rfl, hitems⟩ := exists_of_isListOf h
  have hordered := Json.allOrdered_iff.mp hordered
  have hreadable := Json.allReadable_iff.mp hreadable
  obtain ⟨found, hfound, hlength, hall⟩ := exists_list fun j hj =>
    hpart j (hitems j hj) (hordered j hj) (hreadable j hj)
  refine ⟨items, found, rfl, hfound, hlength, ?_⟩
  intro d hd
  obtain ⟨a, ha, hd⟩ := List.mem_flatMap.mp hd
  exact hall a ha d hd

theorem exists_put_group {name : String} {j : Json} (h : groupMember name j = true)
    (hordered : j.Ordered) (hreadable : Json.MemberReadable name j)
    (hitems : name = "items" → ∃ ds, (Document.Item.part j).2 = .ok ds) (d : GroupDraft) :
    ∃ d', d.put name (Document.Item.part j) = .ok d' := by
  unfold groupMember at h
  split at h
  case h_1 => exact ⟨d, rfl⟩
  case h_2 =>
    obtain ⟨s, rfl⟩ := exists_of_isKey h
    exact ⟨_, rfl⟩
  case h_8 => cases h
  all_goals
    simp only [GroupDraft.put, Document.Item.part_fst]
    apply exists_bind_eq_ok
  case h_3 => exact readNat_of_isBelow (Json.isBelow_of_version hreadable) .word32
  case h_4 => exact exists_optional j
  case h_5 =>
    obtain ⟨_, found, -, hfound, -⟩ := exists_parts (fun _ => exists_rule) h hordered hreadable
    exact ⟨found, hfound⟩
  case h_6 => exact exists_selection h hordered hreadable
  case h_7 => exact hitems rfl

theorem exists_put_question {name : String} {j : Json} (h : questionMember name j = true)
    (hordered : j.Ordered) (hreadable : Json.MemberReadable name j) (d : QuestionDraft) :
    ∃ d', d.put name (Document.Item.part j) = .ok d' := by
  unfold questionMember at h
  split at h
  case h_1 => exact ⟨d, rfl⟩
  case h_2 =>
    obtain ⟨s, rfl⟩ := exists_of_isKey h
    exact ⟨_, rfl⟩
  case h_6 =>
    obtain ⟨s, -, rfl⟩ := exists_of_isOneOf h
    exact ⟨_, rfl⟩
  case h_8 => cases h
  all_goals
    simp only [QuestionDraft.put, Document.Item.part_fst]
    apply exists_bind_eq_ok
  case h_3 => exact readNat_of_isBelow (Json.isBelow_of_version hreadable) .word32
  case h_4 => exact exists_optional j
  case h_5 =>
    obtain ⟨_, found, -, hfound, -⟩ := exists_parts (fun _ => exists_rule) h hordered hreadable
    exact ⟨found, hfound⟩
  case h_7 =>
    obtain ⟨_, found, -, hfound, -⟩ := exists_parts (fun _ => exists_choice) h hordered hreadable
    exact ⟨found, hfound⟩

theorem exists_put_pageBreak {name : String} {j : Json} (h : pageBreakMember name j = true)
    (d : PageBreakDraft) : ∃ d', d.put name (Document.Item.part j) = .ok d' := by
  unfold pageBreakMember at h
  split at h
  · exact ⟨d, rfl⟩
  · obtain ⟨s, rfl⟩ := exists_of_isKey h
    exact ⟨_, rfl⟩
  · simp only [PageBreakDraft.put, Document.Item.part_fst]
    exact exists_bind_eq_ok (exists_optional j)
  · cases h

theorem get?_eq_none_of_rule {rule : String → Json → Bool} {members : List (String × Json)}
    (hmembers : ∀ member ∈ members, rule member.1 member.2 = true) (name : String)
    (hname : ∀ j, rule name j = false) : Fields.get? name members = none := by
  cases hget : Fields.get? name members with
  | none => rfl
  | some j =>
    have hmember := hmembers _ (Fields.mem_of_get?_eq_some hget)
    rw [hname] at hmember
    cases hmember

/-- Members that can each be put into any draft fill one. -/
theorem exists_draft {δ : Type} {put : δ → String → Document.Item.Part → Except ShapeFault δ}
    {members : List (String × Json)}
    (h : ∀ member ∈ members, ∀ d, ∃ d', put d member.1 (Document.Item.part member.2) = .ok d')
    (empty : δ) :
    ∃ draft, (Document.Item.memberParts members).foldlM (fun d (name, p) => put d name p) empty =
      .ok draft := by
  apply exists_foldlM_eq_ok
  rw [Document.Item.memberParts_eq]
  intro p hp d
  obtain ⟨member, hmem, rfl⟩ := List.mem_map.mp hp
  exact h member hmem d

section
variable {members : List (String × Json)}

theorem elim_memberParts (hordered : (Json.object members).Ordered) {α : Type} (name : String)
    (absent : Except ShapeFault α) (read : Json → Except ShapeFault α) :
    (last? name (Document.Item.memberParts members)).elim absent (fun p => read p.1) =
      (Fields.get? name members).elim absent read := by
  rw [Document.Item.memberParts_eq, last?_map, Fields.last?_eq_get? hordered.1, Option.elim_map]
  cases Fields.get? name members with
  | none => rfl
  | some j => exact congrArg read (Document.Item.part_fst j)

theorem ordered_of_get? (hordered : (Json.object members).Ordered) {name : String} {j : Json}
    (h : Fields.get? name members = some j) : j.Ordered :=
  Json.membersOrdered_iff.mp hordered.2 _ (Fields.mem_of_get?_eq_some h)

/-- The children in the list that is a member are loaded, as many as there are. -/
theorem children_agree (hordered : (Json.object members).Ordered) {found : List Document.Item}
    (hread : (last? "items" (Document.Item.memberParts members)).elim (.ok []) (·.2) = .ok found)
    (hvalid : ∀ j, Fields.get? "items" members = some j →
      ∃ items, j = .array items ∧ ItemsAgree items) :
    found.length = Json.countAt "items" members ∧
      (∀ x ∈ Document.Item.allDemands found, x.IsMet) ∧
      Document.Item.outlines found = Json.outlineBelow members := by
  rw [Document.Item.memberParts_eq, last?_map, Fields.last?_eq_get? hordered.1] at hread
  cases hget : Fields.get? "items" members with
  | none =>
    rw [hget] at hread
    obtain rfl := Except.ok.inj hread
    rw [Json.countAt_eq_zero hget, Json.outlineBelow_of_get?_eq_none hget]
    exact ⟨rfl, List.forall_mem_nil _, rfl⟩
  | some j =>
    rw [hget] at hread
    obtain ⟨items, rfl, ds, hds, hmet, houtline, hlength⟩ := hvalid j hget
    obtain rfl : ds = found := Except.ok.inj (hds.symm.trans hread)
    rw [Json.countAt, hget, Json.outlineBelow_of_get? hget]
    exact ⟨hlength, hmet, houtline⟩

variable (hordered : (Json.object members).Ordered) (hreadable : (Json.object members).Readable)

include hordered in
theorem text_agrees {name s : String} {found : Option String}
    (hread : (last? name (Document.Item.memberParts members)).elim (.ok none)
      (fun p => (readText p.1).map some) = .ok found)
    (hget : Fields.get? name members = some (.string s)) : found = some s := by
  rw [elim_memberParts hordered name _ fun j => (readText j).map some, hget] at hread
  exact (Except.ok.inj hread).symm

include hordered hreadable

theorem condition_agrees {found : Option Json}
    (hread : (last? "condition" (Document.Item.memberParts members)).elim (.ok none)
      (fun p => readOptional readAny p.1) = .ok found)
    (hvalid : ∀ j, Fields.get? "condition" members = some j → isExpression j = true) :
    ∀ d ∈ Demand.optional found, d.IsMet := by
  rw [elim_memberParts hordered] at hread
  apply isMet_of_optional hread
  intro j hj
  exact ⟨hvalid j hj, readable_of_get? hreadable.2 (by decide) (by decide) hj⟩

/-- The parts in the list that is a member are read, as many as there are. -/
theorem parts_agree {α : Type} {rule : Json → Bool} {read : Json → Except ShapeFault α}
    {demands : α → List Demand}
    (hpart : ∀ j, rule j = true → j.Ordered → j.Readable →
      ∃ a, read j = .ok a ∧ ∀ d ∈ demands a, d.IsMet)
    {name : String} (hversion : name ≠ "version") (hcount : name ≠ "n") {found : List α}
    (hread : (last? name (Document.Item.memberParts members)).elim (.ok [])
      (fun p => readList read p.1) = .ok found)
    (hvalid : ∀ j, Fields.get? name members = some j → isListOf rule j = true) :
    found.length = Json.countAt name members ∧ ∀ d ∈ found.flatMap demands, d.IsMet := by
  rw [elim_memberParts hordered name _ (readList read)] at hread
  unfold Json.countAt
  cases hget : Fields.get? name members with
  | none =>
    rw [hget] at hread
    obtain rfl := Except.ok.inj hread
    exact ⟨rfl, List.forall_mem_nil _⟩
  | some j =>
    rw [hget] at hread
    obtain ⟨items, again, rfl, hagain, hlength, hall⟩ := exists_parts hpart (hvalid j hget)
      (ordered_of_get? hordered hget) (readable_of_get? hreadable.2 hversion hcount hget)
    obtain rfl : again = found := Except.ok.inj (hagain.symm.trans hread)
    exact ⟨hlength, hall⟩

variable {kind key : Json} (hkind : Fields.get? "kind" members = some kind)
  (hkey : Fields.get? "key" members = some key)
include hkind hkey

theorem pageBreak_agrees (h : isPageBreak (.object members) = true) :
    ItemAgrees (.object members) := by
  intro inner
  have hmembers := membersAll_iff.mp h
  have hmember : ∀ {name j}, Fields.get? name members = some j → pageBreakMember name j = true :=
    fun hget => hmembers _ (Fields.mem_of_get?_eq_some hget)
  obtain ⟨s, rfl⟩ := exists_of_isKey (hmember hkey)
  obtain ⟨k, hk, rfl⟩ := exists_of_isOneOf (hmember hkind)
  obtain rfl := List.mem_singleton.mp hk
  obtain ⟨draft, hdraft⟩ := exists_draft (fun member hmem =>
    exists_put_pageBreak (hmembers member hmem)) ⟨none, none⟩
  have hread := PageBreakDraft.isReadFrom_of_foldlM hdraft
  have hfinish : draft.finish = .ok (.pageBreak s draft.condition) := by
    rw [PageBreakDraft.finish, text_agrees hordered hread.key_eq hkey]
  refine ⟨.pageBreak s draft.condition, ?loaded, ?met, ?shape⟩
  case loaded =>
    rw [Document.Item.ofJson, Document.Item.ofParts, Document.Item.split_named hkind rfl]
    exact RecordForm.read_eq_ok Document.Item.pageBreakForm hdraft hfinish
  case met =>
    exact condition_agrees hordered hreadable hread.condition_eq fun j hj => hmember hj
  case shape =>
    have hitems := get?_eq_none_of_rule hmembers "items" fun _ => rfl
    have hrules := get?_eq_none_of_rule hmembers "validations" fun _ => rfl
    have hoptions := get?_eq_none_of_rule hmembers "options" fun _ => rfl
    rw [Json.outline_object hkey hkind, Json.outlineBelow_of_get?_eq_none hitems,
      Json.countAt_eq_zero hitems, Json.countAt_eq_zero hrules, Json.countAt_eq_zero hoptions]
    rfl

theorem question_agrees (h : isQuestion (.object members) = true) :
    ItemAgrees (.object members) := by
  intro inner
  simp only [isQuestion, Bool.and_eq_true, requires, Option.isSome_iff_exists, membersAll_iff] at h
  obtain ⟨⟨role, hrole⟩, hmembers⟩ := h
  have hmember : ∀ {name j}, Fields.get? name members = some j → questionMember name j = true :=
    fun hget => hmembers _ (Fields.mem_of_get?_eq_some hget)
  obtain ⟨s, rfl⟩ := exists_of_isKey (hmember hkey)
  obtain ⟨k, hk, rfl⟩ := exists_of_isOneOf (hmember hkind)
  obtain rfl := List.mem_singleton.mp hk
  obtain ⟨r, hknown, rfl⟩ := exists_of_isOneOf (hmember hrole)
  rw [roleNames_eq] at hknown
  obtain ⟨draft, hdraft⟩ := exists_draft (fun member hmem =>
    exists_put_question (hmembers member hmem) (Json.membersOrdered_iff.mp hordered.2 member hmem)
      (Json.membersReadable_iff.mp hreadable.2 member hmem)) .empty
  have hread := QuestionDraft.isReadFrom_of_foldlM hdraft
  have hcondition := condition_agrees hordered hreadable hread.condition_eq fun j hj => hmember hj
  obtain ⟨hruleCount, hrules⟩ := parts_agree hordered hreadable (fun _ => exists_rule) (by decide)
    (by decide) hread.rules_eq fun j hj => hmember hj
  obtain ⟨hoptionCount, hoptions⟩ := parts_agree hordered hreadable (fun _ => exists_choice)
    (by decide) (by decide) hread.options_eq fun j hj => hmember hj
  have hfinish : draft.finish = .ok (.question s draft.version draft.condition draft.rules r
      draft.options) := by
    rw [QuestionDraft.finish, text_agrees hordered hread.key_eq hkey,
      text_agrees hordered hread.role_eq hrole]
  refine ⟨.question s draft.version draft.condition draft.rules r draft.options, ?loaded, ?met,
    ?shape⟩
  case loaded =>
    rw [Document.Item.ofJson, Document.Item.ofParts, Document.Item.split_named hkind rfl]
    exact RecordForm.read_eq_ok Document.Item.questionForm hdraft hfinish
  case met =>
    simp only [Document.Item.demands, List.forall_mem_append, List.forall_mem_cons]
    exact ⟨⟨hcondition, hrules⟩, hknown, hoptions⟩
  case shape =>
    have hitems := get?_eq_none_of_rule hmembers "items" fun _ => rfl
    rw [Json.outline_object hkey hkind, Json.outlineBelow_of_get?_eq_none hitems,
      Json.countAt_eq_zero hitems, ← hruleCount, ← hoptionCount]
    rfl

theorem group_agrees (h : areGroupMembers members = true)
    (hchildren : ∀ j, ("items", j) ∈ members → ∃ items, j = .array items ∧ ItemsAgree items) :
    ItemAgrees (.object members) := by
  intro inner
  have hmembers := areGroupMembers_iff.mp h
  have hmember : ∀ {name j}, Fields.get? name members = some j → groupMember name j = true :=
    fun hget => hmembers _ (Fields.mem_of_get?_eq_some hget)
  obtain ⟨s, rfl⟩ := exists_of_isKey (hmember hkey)
  obtain ⟨k, hk, rfl⟩ := exists_of_isOneOf (hmember hkind)
  obtain rfl := List.mem_singleton.mp hk
  have hputs : ∀ member ∈ members, ∀ d : GroupDraft,
      ∃ d', d.put member.1 (Document.Item.part member.2) = .ok d' := by
    rintro ⟨name, j⟩ hmem
    apply exists_put_group (hmembers _ hmem) (Json.membersOrdered_iff.mp hordered.2 _ hmem)
      (Json.membersReadable_iff.mp hreadable.2 _ hmem)
    rintro rfl
    obtain ⟨items, rfl, ds, hds, -⟩ := hchildren j hmem
    exact ⟨ds, hds⟩
  obtain ⟨draft, hdraft⟩ := exists_draft hputs .empty
  have hread := GroupDraft.isReadFrom_of_foldlM hdraft
  have hcondition := condition_agrees hordered hreadable hread.condition_eq fun j hj => hmember hj
  obtain ⟨hruleCount, hrules⟩ := parts_agree hordered hreadable (fun _ => exists_rule) (by decide)
    (by decide) hread.rules_eq fun j hj => hmember hj
  obtain ⟨hitemCount, hitems, houtlines⟩ := children_agree hordered hread.items_eq fun j hj =>
    hchildren j (Fields.mem_of_get?_eq_some hj)
  have hfinish : draft.finish = .ok (.group s draft.version draft.condition draft.rules
      draft.selection draft.items) := by
    rw [GroupDraft.finish, text_agrees hordered hread.key_eq hkey]
  refine ⟨.group s draft.version draft.condition draft.rules draft.selection draft.items, ?loaded,
    ?met, ?shape⟩
  case loaded =>
    rw [Document.Item.ofJson, Document.Item.ofParts, Document.Item.split_named hkind rfl]
    exact RecordForm.read_eq_ok Document.Item.groupForm hdraft hfinish
  case met =>
    simp only [Document.Item.demands, List.forall_mem_append]
    exact ⟨⟨hcondition, hrules⟩, hitems⟩
  case shape =>
    have hoptions := get?_eq_none_of_rule hmembers "options" fun _ => rfl
    rw [Json.outline_object hkey hkind, ← houtlines, ← hitemCount, ← hruleCount,
      Json.countAt_eq_zero hoptions]
    rfl

end

mutual

theorem item_agrees {j : Json} (h : isItem j = true) (hordered : j.Ordered)
    (hreadable : j.Readable) : ItemAgrees j := by
  cases j with
  | object members =>
    obtain ⟨⟨kind, hkind⟩, ⟨key, hkey⟩, hgroup | hquestion | hbreak⟩ := forms_of_isItem h
    · apply group_agrees hordered hreadable hkind hkey hgroup
      intro j hmem
      exact exists_items_of_mem hgroup hordered.2 hreadable.2 hmem
    · exact question_agrees hordered hreadable hkind hkey hquestion
    · exact pageBreak_agrees hordered hreadable hkind hkey hbreak
  | _ => cases h

/-- The induction is on the JSON value, and reaches the children of a group through its members. -/
theorem exists_items_of_mem {members : List (String × Json)} (h : areGroupMembers members = true)
    (hordered : Json.MembersOrdered members) (hreadable : Json.MembersReadable members) {j : Json}
    (hmem : ("items", j) ∈ members) : ∃ items, j = .array items ∧ ItemsAgree items := by
  cases members with
  | nil => cases hmem
  | cons member rest =>
    obtain ⟨name, k⟩ := member
    obtain ⟨hmember, hrest⟩ := Bool.and_eq_true_iff.mp h
    by_cases heq : ("items", j) = (name, k)
    · obtain ⟨rfl, hk⟩ := Prod.mk.inj heq
      rw [hk]
      cases k with
      | array items =>
        exact ⟨items, rfl, items_agree hmember hordered.1 hreadable.1⟩
      | _ => cases hmember
    · exact exists_items_of_mem hrest hordered.2 hreadable.2
        ((List.mem_cons.mp hmem).resolve_left heq)

theorem items_agree {items : List Json} (h : areItems items = true)
    (hordered : Json.AllOrdered items) (hreadable : Json.AllReadable items) :
    ItemsAgree items := by
  cases items with
  | nil => exact ⟨[], rfl, List.forall_mem_nil _, rfl, rfl⟩
  | cons j rest =>
    obtain ⟨hfirst, hrest⟩ := Bool.and_eq_true_iff.mp h
    obtain ⟨d, hd, hmet, houtline⟩ := item_agrees hfirst hordered.1 hreadable.1 true
    obtain ⟨ds, hds, hallMet, houtlines, hlength⟩ := items_agree hrest hordered.2 hreadable.2
    refine ⟨d :: ds, ?_, ?_, ?_, ?_⟩
    · rw [Document.Item.listOfJson, hd, hds]
      rfl
    · exact List.forall_mem_append.mpr ⟨hmet, hallMet⟩
    · rw [Document.Item.outlines, Json.outlines, houtline, houtlines]
    · rw [List.length_cons, List.length_cons, hlength]

end

theorem isSupported_of_isVersion {s : String} (h : isVersion s = true) :
    Survey.isSupported s = true := by
  unfold isVersion at h
  unfold Survey.isSupported
  obtain ⟨rest, hrest⟩ := List.isPrefixOf_iff_prefix.mp h
  rw [← hrest]
  rfl

/-- A member of a document that breaks no rule is put into any draft. -/
theorem exists_put_survey {name : String} {j : Json} (h : memberViolations name j = [])
    (hname : name ∈ memberNames) (hordered : j.Ordered) (hreadable : j.Readable)
    (d : Survey.Draft) : ∃ d', d.put name j = .ok d' := by
  simp only [memberNames, List.mem_cons, List.not_mem_nil, or_false] at hname
  rcases hname with rfl | rfl | rfl
  · cases j with
    | string s => exact ⟨_, rfl⟩
    | _ => cases h
  · cases j with
    | string s => exact ⟨_, rfl⟩
    | _ => cases h
  · obtain ⟨item, hitem, -⟩ := item_agrees ((isItem_iff j).mpr h) hordered hreadable false
    refine ⟨{ d with root := some item }, ?_⟩
    simp only [Survey.Draft.put, hitem]
    rfl

theorem survey_agrees {members : List (String × Json)} (hordered : (Json.object members).Ordered)
    (hreadable : (Json.object members).Readable) (h : violations (.object members) = []) :
    ∃ document root, Survey.ofJson (.object members) = .ok document ∧
      Fields.get? "root" members = some root ∧ (∀ x ∈ document.root.demands, x.IsMet) ∧
      document.root.outline = root.outline := by
  simp only [violations, List.append_eq_nil_iff, demand_eq_nil_iff, requires,
    Option.isSome_iff_exists, List.flatMap_eq_nil_iff] at h
  obtain ⟨⟨⟨⟨id, hid⟩, root, hroot⟩, hmembers⟩, hknown⟩ := h
  have hmember : ∀ {name j}, Fields.get? name members = some j → memberViolations name j = [] :=
    fun hget => hmembers _ (Fields.mem_of_get?_eq_some hget)
  have hnames : ∀ member ∈ members, member.1 ∈ memberNames := by
    simpa [Fields.names] using hknown
  obtain ⟨s, rfl⟩ : ∃ s, id = .string s := by
    cases id with
    | string s => exact ⟨s, rfl⟩
    | _ => cases hmember hid
  have hcheck : Survey.check members = .ok () := by
    apply Survey.check_eq_ok_iff.mpr
    refine ⟨Option.isSome_iff_exists.mpr ⟨_, hid⟩, Option.isSome_iff_exists.mpr ⟨_, hroot⟩, ?_⟩
    intro version hversion
    exact isSupported_of_isVersion ((demand_eq_nil_iff _ _).mp (hmember hversion))
  have hputs : ∀ member ∈ members, ∀ d : Survey.Draft,
      ∃ d', d.put member.1 member.2 = .ok d' := by
    intro member hmem
    have hname := hnames member hmem
    have hj := Json.membersReadable_iff.mp hreadable.2 member hmem
    unfold Json.MemberReadable at hj
    rw [if_neg (ne_of_mem_of_not_mem hname (by decide)),
      if_neg (ne_of_mem_of_not_mem hname (by decide))] at hj
    exact exists_put_survey (hmembers member hmem) hname
      (Json.membersOrdered_iff.mp hordered.2 member hmem) hj
  obtain ⟨draft, hdraft⟩ := exists_foldlM_eq_ok hputs ⟨none, none, none⟩
  obtain ⟨hi, -, hr⟩ := Survey.Draft.isReadFrom_of_foldlM hdraft
  obtain ⟨item, hitem, hmet, houtline⟩ := item_agrees ((isItem_iff root).mpr (hmember hroot))
    (ordered_of_get? hordered hroot)
    (readable_of_get? hreadable.2 (by decide) (by decide) hroot) false
  rw [Fields.last?_eq_get? hordered.1, hid] at hi
  rw [Fields.last?_eq_get? hordered.1, hroot, Option.elim_some, hitem] at hr
  have hfinish : draft.finish = .ok ⟨s, draft.format, item⟩ := by
    rw [Survey.Draft.finish, ← Except.ok.inj hi, ← Except.ok.inj hr]
  have hread := RecordForm.read_eq_ok Survey.form hdraft hfinish
  refine ⟨⟨s, draft.format, item⟩, root, ?_, hroot, hmet, houtline⟩
  simp only [Survey.ofJson, hcheck, RecordForm.readJson, parts?, hread, bind, Except.bind, pure,
    Except.pure]

theorem exists_survey {j : Json} (hordered : j.Ordered) (hreadable : j.Readable)
    (h : violations j = []) :
    ∃ survey root, Questionnaire.Survey.ofJson j = .ok survey ∧ j.member? "root" = some root ∧
      survey.root.descendants.map Questionnaire.Item.entry = root.outline := by
  cases j with
  | object members =>
    obtain ⟨document, root, hdocument, hroot, hmet, houtline⟩ :=
      survey_agrees hordered hreadable h
    have hmeets := Questionnaire.Survey.ofJson_meets hdocument
    obtain ⟨survey, hsurvey⟩ := hmeets.ok_iff.mpr hmet
    obtain ⟨-, hmirrors⟩ := hmeets.of_ok hsurvey
    refine ⟨survey, root, hsurvey, hroot, ?_⟩
    rw [Questionnaire.Item.descendants_eq, Questionnaire.Item.map_entry_of_mirrors _ hmirrors,
      houtline]
  | _ => cases h

/-- A document that breaks no rule of the schema, whose versions, counts and other numbers can be
read and whose calls have as many arguments as their operators accept, is loaded as a survey with
the items that it is written with. So a check of a survey file that finds nothing wrong with the
schema goes on to what it finds in the survey. The members of an object stand in ascending order, as
in every text that is read (`Json.ordered_of_ofText`). -/
theorem valid_documents_load :
    (∀ j : Json, j.Ordered → j.Readable → violations j = [] →
      ∃ survey root, Questionnaire.Survey.ofJson j = .ok survey ∧ j.member? "root" = some root ∧
        survey.root.descendants.map Questionnaire.Item.entry = root.outline) ∧
    ∀ (files : CommandLine.Files) (path : String) (j : Json),
      CommandLine.readJson files "survey" path = .ok j → j.Readable → violations j = [] →
      (∃ survey, Questionnaire.Survey.ofJson j = .ok survey ∧
        CommandLine.lint files path = .ok (CommandLine.linted [] survey.root.lint)) ∧
      ∀ err, CommandLine.lint files path ≠ .error (.invalid "survey" path err) := by
  refine ⟨fun j hordered hreadable h => exists_survey hordered hreadable h, ?_⟩
  intro files path j hj hreadable h
  have hordered := CommandLine.ordered_of_readJson hj
  obtain ⟨survey, -, hsurvey, -⟩ := exists_survey hordered hreadable h
  have hlint : CommandLine.lint files path = .ok (CommandLine.linted [] survey.root.lint) := by
    simp only [CommandLine.lint, hj, h, hsurvey, Except.mapError, bind, Except.bind, pure,
      Except.pure]
  refine ⟨⟨survey, hsurvey, hlint⟩, fun err herr => ?_⟩
  rw [hlint] at herr
  cases herr

/-- A question with a version, a rule and an option, and a condition that is null. -/
def plainQuestion : Json :=
  .object [("condition", .null), ("key", .string "q"), ("kind", .string "question"),
    ("options", .array [.object [("key", .string "o")]]), ("role", .string "text"),
    ("validations", .array [.object [("key", .string "v"),
      ("rule", .object [("args", .array [.int 1, .int 2]), ("name", .string "lt")]),
      ("severity", .string "soft")]]),
    ("version", .nat 3)]

def plainSurvey : Json :=
  .object [("id", .string "s"), ("root", .object [
    ("items", .array [plainQuestion,
      .object [("key", .string "p"), ("kind", .string "pageBreak")]]),
    ("key", .string "g"), ("kind", .string "group")])]

theorem plainQuestion_readable : plainQuestion.Readable := by
  have hcall : ∀ operator,
      Expression.operatorOf [("args", .array [.int 1, .int 2]), ("name", .string "lt")] =
        .ok operator → operator.arity.accepts 2 = true := by
    intro operator h
    obtain rfl := Except.ok.inj h
    rfl
  have hrule :
      (Json.object [("args", .array [.int 1, .int 2]), ("name", .string "lt")]).Readable :=
    ⟨hcall, ⟨⟨_, rfl⟩, ⟨_, rfl⟩, trivial⟩, trivial, trivial⟩
  have hversion : (Json.nat 3).IsBelow UInt32.size := ⟨3, by decide, rfl⟩
  exact ⟨nofun, trivial, trivial, trivial, ⟨⟨nofun, trivial, trivial⟩, trivial⟩, trivial,
    ⟨⟨nofun, trivial, hrule, trivial, trivial⟩, trivial⟩, hversion, trivial⟩

def plainFile : CommandLine.Files := fun _ =>
  .text "\x7b\"id\": \"s\", \"root\": \x7b\"key\": \"p\", \"kind\": \"pageBreak\"\x7d\x7d"

theorem plainSurvey_loads :
    (plainSurvey.Ordered ∧ plainSurvey.Readable ∧ violations plainSurvey = [] ∧
      ∃ survey, Questionnaire.Survey.ofJson plainSurvey = .ok survey ∧
        survey.root.descendants.map Questionnaire.Item.entry =
          [⟨"g", "group", 2, 0, 0⟩, ⟨"q", "question", 0, 1, 1⟩, ⟨"p", "pageBreak", 0, 0, 0⟩]) ∧
    ∃ survey : Questionnaire.Survey,
      CommandLine.lint plainFile "s.json" = .ok (CommandLine.linted [] survey.root.lint) := by
  obtain ⟨hloads, hlints⟩ := valid_documents_load
  constructor
  · have hordered : plainSurvey.Ordered := by decide
    have hreadable : plainSurvey.Readable :=
      ⟨nofun, trivial, ⟨nofun, ⟨plainQuestion_readable, ⟨nofun, trivial, trivial, trivial⟩,
        trivial⟩, trivial, trivial, trivial⟩, trivial⟩
    have hvalid : violations plainSurvey = [] := by rfl
    obtain ⟨survey, root, hsurvey, hroot, hentries⟩ :=
      hloads plainSurvey hordered hreadable hvalid
    refine ⟨hordered, hreadable, hvalid, survey, hsurvey, ?_⟩
    obtain rfl := Option.some.inj hroot
    rw [hentries]
    rfl
  · have hread : CommandLine.readJson plainFile "survey" "s.json" = .ok (.object [
        ("id", .string "s"),
        ("root", .object [("key", .string "p"), ("kind", .string "pageBreak")])]) := by rfl
    obtain ⟨⟨survey, -, hlint⟩, -⟩ := hlints plainFile "s.json" _ hread
      ⟨nofun, trivial, ⟨nofun, trivial, trivial, trivial⟩, trivial⟩ (by rfl)
    exact ⟨survey, hlint⟩

end Document.Schema

end Questionnaire
