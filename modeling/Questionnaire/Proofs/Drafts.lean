import Questionnaire.Document.Survey
import Questionnaire.Proofs.Records

/-! What the records of a survey document have from their fields. For each kind of record: all that
one part can do to its draft, and from it what all the parts come to. -/
namespace Questionnaire.Document

namespace Rule

inductive Draft.Step (d : Draft) : String → Json → Draft → Prop
  | key {j : Json} {s : String} (h : readText j = .ok s) : Step d "key" j { d with key := some s }
  | severity {j : Json} {s : String} (h : readText j = .ok s) :
    Step d "severity" j { d with severity := some s }
  | rule {j : Json} : Step d "rule" j { d with rule := some j }
  | other {name : String} {j : Json} (h : name ∉ form.fields) : Step d name j d

theorem Draft.step_of_put {d d' : Draft} {name : String} {j : Json} (h : d.put name j = .ok d') :
    d.Step name j d' := by
  unfold put at h
  split at h
  · obtain ⟨s, hs, h⟩ := exists_of_bind_eq_ok h
    obtain rfl := Except.ok.inj h
    exact .key hs
  · obtain ⟨s, hs, h⟩ := exists_of_bind_eq_ok h
    obtain rfl := Except.ok.inj h
    exact .severity hs
  · obtain rfl := Except.ok.inj h
    exact .rule
  · obtain rfl := Except.ok.inj h
    apply Step.other
    simp_all [form]

/-- A draft has what the parts say, of several parts with one name the last. -/
structure Draft.IsReadFrom (parts : List (String × Json)) (d : Draft) : Prop where
  key_eq : (last? "key" parts).elim (.ok none) (fun j => (readText j).map some) = .ok d.key
  severity_eq : (last? "severity" parts).elim (.ok none) (fun j => (readText j).map some) =
    .ok d.severity
  rule_eq : (last? "rule" parts).elim (.ok none) (fun j => (readAny j).map some) = .ok d.rule

theorem Draft.isReadFrom_of_foldlM {parts : List (String × Json)} {draft : Draft}
    (h : parts.foldlM (fun d (name, j) => Draft.put d name j) ⟨none, none, none⟩ = .ok draft) :
    draft.IsReadFrom parts where
  key_eq := component_of_foldlM put Draft.key "key" (fun j => (readText j).map some)
    (fun hput => by cases step_of_put hput <;> simp_all [form, Except.map]) h
  severity_eq := component_of_foldlM put Draft.severity "severity"
    (fun j => (readText j).map some)
    (fun hput => by cases step_of_put hput <;> simp_all [form, Except.map]) h
  rule_eq := component_of_foldlM put Draft.rule "rule" (fun j => (readAny j).map some)
    (fun hput => by cases step_of_put hput <;> simp_all [form, readAny, Except.map]) h

theorem isReadFrom_of_ofJson {j : Json} {r : Rule} (h : ofJson j = .ok r) :
    (⟨some r.key, some r.severity, some r.rule⟩ : Draft).IsReadFrom (form.written j) := by
  obtain ⟨draft, hdraft, hfinish⟩ := RecordForm.exists_draft_of_readJson h
  have hread := Draft.isReadFrom_of_foldlM hdraft
  obtain ⟨key, severity, rule⟩ := draft
  unfold Draft.finish at hfinish
  split at hfinish
  case h_4 hkey hseverity hrule =>
    obtain rfl := Except.ok.inj hfinish
    obtain rfl := hkey
    obtain rfl := hseverity
    obtain rfl := hrule
    exact hread
  all_goals cases hfinish

end Rule

namespace Choice

inductive Draft.Step (d : Draft) : String → Json → Draft → Prop
  | key {j : Json} {s : String} (h : readText j = .ok s) : Step d "key" j { d with key := some s }
  | role {j : Json} {s : String} (h : readText j = .ok s) : Step d "role" j { d with role := s }
  | displayCondition {j : Json} {c : Option Json} (h : readOptional readAny j = .ok c) :
    Step d "displayCondition" j { d with displayCondition := c }
  | disabled {j : Json} {c : Option Json} (h : readOptional readAny j = .ok c) :
    Step d "disabled" j { d with disabled := c }
  | other {name : String} {j : Json} (h : name ∉ form.fields) : Step d name j d

theorem Draft.step_of_put {d d' : Draft} {name : String} {j : Json} (h : d.put name j = .ok d') :
    d.Step name j d' := by
  unfold put at h
  split at h
  case h_5 =>
    obtain rfl := Except.ok.inj h
    apply Step.other
    simp_all [form]
  all_goals
    obtain ⟨x, hx, h⟩ := exists_of_bind_eq_ok h
    obtain rfl := Except.ok.inj h
    constructor
    exact hx

/-- A draft has what the parts say, of several parts with one name the last. -/
structure Draft.IsReadFrom (parts : List (String × Json)) (d : Draft) : Prop where
  key_eq : (last? "key" parts).elim (.ok none) (fun j => (readText j).map some) = .ok d.key
  role_eq : (last? "role" parts).elim (.ok OptionRole.option.name) readText = .ok d.role
  displayCondition_eq : (last? "displayCondition" parts).elim (.ok none) (readOptional readAny) =
    .ok d.displayCondition
  disabled_eq : (last? "disabled" parts).elim (.ok none) (readOptional readAny) = .ok d.disabled

theorem Draft.isReadFrom_of_foldlM {parts : List (String × Json)} {draft : Draft}
    (h : parts.foldlM (fun d (name, j) => Draft.put d name j)
      ⟨none, OptionRole.option.name, none, none⟩ = .ok draft) : draft.IsReadFrom parts where
  key_eq := component_of_foldlM put Draft.key "key" (fun j => (readText j).map some)
    (fun hput => by cases step_of_put hput <;> simp_all [form, Except.map]) h
  role_eq := component_of_foldlM put Draft.role "role" readText
    (fun hput => by cases step_of_put hput <;> simp_all [form]) h
  displayCondition_eq := component_of_foldlM put Draft.displayCondition "displayCondition"
    (readOptional readAny) (fun hput => by cases step_of_put hput <;> simp_all [form]) h
  disabled_eq := component_of_foldlM put Draft.disabled "disabled" (readOptional readAny)
    (fun hput => by cases step_of_put hput <;> simp_all [form]) h

theorem isReadFrom_of_ofJson {j : Json} {c : Choice} (h : ofJson j = .ok c) :
    (⟨some c.key, c.role, c.displayCondition, c.disabled⟩ : Draft).IsReadFrom (form.written j) := by
  obtain ⟨draft, hdraft, hfinish⟩ := RecordForm.exists_draft_of_readJson h
  have hread := Draft.isReadFrom_of_foldlM hdraft
  obtain ⟨key, role, display, disabled⟩ := draft
  unfold Draft.finish at hfinish
  split at hfinish
  · next hkey =>
    obtain rfl := Except.ok.inj hfinish
    obtain rfl := hkey
    exact hread
  · cases hfinish

end Choice

/-- The number of items that a group draws. -/
theorem count_of_foldlM {parts : List (String × Json)} {draft : Option Nat}
    (h : parts.foldlM (fun d (name, j) => putCount d name j) none = .ok draft) :
    (last? "n" parts).elim (.ok none) (fun j => (readSize j).map some) = .ok draft := by
  refine component_of_foldlM putCount id "n" (fun j => (readSize j).map some) ?_ h
  intro d name j d' hput
  unfold putCount at hput
  split at hput
  · obtain ⟨n, hn, hput⟩ := exists_of_bind_eq_ok hput
    obtain rfl := Except.ok.inj hput
    refine .inl ⟨rfl, ?_⟩
    rw [hn]
    rfl
  · next hname =>
    obtain rfl := Except.ok.inj hput
    exact .inr ⟨hname, rfl⟩

namespace Item

theorem memberParts_eq (members : List (String × Json)) :
    memberParts members = members.map fun (name, j) => (name, part j) :=
  eq_map_of_recursion rfl (fun _ _ => rfl) members

theorem itemParts_eq (items : List Json) : itemParts items = items.map part :=
  eq_map_of_recursion rfl (fun _ _ => rfl) items

theorem part_fst (j : Json) : (part j).1 = j := by
  cases j <;> rfl

theorem exists_of_part_snd {j : Json} {items : List Item} (h : (part j).2 = .ok items) :
    ∃ js, j = .array js ∧ listOfJson js = .ok items := by
  cases j with
  | array js => exact ⟨js, rfl, h⟩
  | _ => cases h

theorem get?_memberParts (name : String) (members : List (String × Json)) :
    Fields.get? name (memberParts members) = (Fields.get? name members).map part := by
  induction members with
  | nil => rfl
  | cons member rest ih =>
    obtain ⟨n, j⟩ := member
    rw [memberParts, Fields.get?, Fields.get?, ih]
    split <;> rfl

theorem split_named {inner : Bool} {members : List (String × Json)} {kind : String} {index : Nat}
    (hkind : Fields.get? "kind" members = some (.string kind))
    (hindex : form.readTag inner (.string kind) = .ok index) :
    form.split inner Prod.fst (.named (memberParts members)) =
      .ok (index, .named (memberParts members)) := by
  have htag : Fields.get? form.tag (memberParts members) = some (part (.string kind)) := by
    rw [get?_memberParts]
    show (Fields.get? "kind" members).map part = _
    rw [hkind]
    rfl
  exact form.split_eq_ok htag (by rw [part_fst, hindex])

inductive GroupDraft.Step (d : GroupDraft) : String → Part → GroupDraft → Prop
  | key {p : Part} {s : String} (h : readText p.1 = .ok s) : Step d "key" p { d with key := some s }
  | version {p : Part} {n : Nat} (h : readWord32 p.1 = .ok n) :
    Step d "version" p { d with version := n }
  | condition {p : Part} {c : Option Json} (h : readOptional readAny p.1 = .ok c) :
    Step d "condition" p { d with condition := c }
  | rules {p : Part} {rules : List Rule} (h : readList Rule.ofJson p.1 = .ok rules) :
    Step d "validations" p { d with rules := rules }
  | selection {p : Part} {s : Selection} (h : readSelection p.1 = .ok s) :
    Step d "selection" p { d with selection := s }
  | items {p : Part} {items : List Item} (h : p.2 = .ok items) :
    Step d "items" p { d with items := items }
  | other {name : String} {p : Part} (h : name ∉ groupForm.fields) : Step d name p d

theorem GroupDraft.step_of_put {d d' : GroupDraft} {name : String} {p : Part}
    (h : d.put name p = .ok d') : d.Step name p d' := by
  unfold put at h
  split at h
  case h_7 =>
    obtain rfl := Except.ok.inj h
    apply Step.other
    simp_all [groupForm]
  all_goals
    obtain ⟨x, hx, h⟩ := exists_of_bind_eq_ok h
    obtain rfl := Except.ok.inj h
    constructor
    exact hx

/-- A draft has what the parts say, of several parts with one name the last. -/
structure GroupDraft.IsReadFrom (parts : List (String × Part)) (d : GroupDraft) : Prop where
  key_eq : (last? "key" parts).elim (.ok none) (fun p => (readText p.1).map some) = .ok d.key
  version_eq : (last? "version" parts).elim (.ok 0) (fun p => readWord32 p.1) = .ok d.version
  condition_eq : (last? "condition" parts).elim (.ok none) (fun p => readOptional readAny p.1) =
    .ok d.condition
  rules_eq : (last? "validations" parts).elim (.ok []) (fun p => readList Rule.ofJson p.1) =
    .ok d.rules
  selection_eq : (last? "selection" parts).elim (.ok .sequential) (fun p => readSelection p.1) =
    .ok d.selection
  items_eq : (last? "items" parts).elim (.ok []) (·.2) = .ok d.items

theorem GroupDraft.isReadFrom_of_foldlM {parts : List (String × Part)} {draft : GroupDraft}
    (h : parts.foldlM (fun d (name, p) => GroupDraft.put d name p) .empty = .ok draft) :
    draft.IsReadFrom parts where
  key_eq := component_of_foldlM put GroupDraft.key "key" (fun p => (readText p.1).map some)
    (fun hput => by cases step_of_put hput <;> simp_all [groupForm, Except.map]) h
  version_eq := component_of_foldlM put GroupDraft.version "version" (fun p => readWord32 p.1)
    (fun hput => by cases step_of_put hput <;> simp_all [groupForm]) h
  condition_eq := component_of_foldlM put GroupDraft.condition "condition"
    (fun p => readOptional readAny p.1)
    (fun hput => by cases step_of_put hput <;> simp_all [groupForm]) h
  rules_eq := component_of_foldlM put GroupDraft.rules "validations"
    (fun p => readList Rule.ofJson p.1)
    (fun hput => by cases step_of_put hput <;> simp_all [groupForm]) h
  selection_eq := component_of_foldlM put GroupDraft.selection "selection"
    (fun p => readSelection p.1)
    (fun hput => by cases step_of_put hput <;> simp_all [groupForm]) h
  items_eq := component_of_foldlM put GroupDraft.items "items" (·.2)
    (fun hput => by cases step_of_put hput <;> simp_all [groupForm]) h

theorem exists_of_groupForm_read {parts : Parts Part} {d : Item}
    (h : groupForm.read .empty GroupDraft.put GroupDraft.finish parts = .ok d) :
    ∃ key version condition rules selection items,
      d = group key version condition rules selection items ∧
      (⟨some key, version, condition, rules, selection, items⟩ : GroupDraft).IsReadFrom
        (groupForm.namedParts parts) := by
  obtain ⟨draft, hdraft, hfinish⟩ := RecordForm.exists_draft h
  have hread := GroupDraft.isReadFrom_of_foldlM hdraft
  obtain ⟨key, version, condition, rules, selection, items⟩ := draft
  unfold GroupDraft.finish at hfinish
  split at hfinish
  · next hkey =>
    obtain rfl := Except.ok.inj hfinish
    obtain rfl := hkey
    exact ⟨_, _, _, _, _, _, rfl, hread⟩
  · cases hfinish

inductive QuestionDraft.Step (d : QuestionDraft) : String → Part → QuestionDraft → Prop
  | key {p : Part} {s : String} (h : readText p.1 = .ok s) : Step d "key" p { d with key := some s }
  | version {p : Part} {n : Nat} (h : readWord32 p.1 = .ok n) :
    Step d "version" p { d with version := n }
  | condition {p : Part} {c : Option Json} (h : readOptional readAny p.1 = .ok c) :
    Step d "condition" p { d with condition := c }
  | rules {p : Part} {rules : List Rule} (h : readList Rule.ofJson p.1 = .ok rules) :
    Step d "validations" p { d with rules := rules }
  | role {p : Part} {s : String} (h : readText p.1 = .ok s) :
    Step d "role" p { d with role := some s }
  | options {p : Part} {options : List Choice} (h : readList Choice.ofJson p.1 = .ok options) :
    Step d "options" p { d with options := options }
  | other {name : String} {p : Part} (h : name ∉ questionForm.fields) : Step d name p d

theorem QuestionDraft.step_of_put {d d' : QuestionDraft} {name : String} {p : Part}
    (h : d.put name p = .ok d') : d.Step name p d' := by
  unfold put at h
  split at h
  case h_7 =>
    obtain rfl := Except.ok.inj h
    apply Step.other
    simp_all [questionForm]
  all_goals
    obtain ⟨x, hx, h⟩ := exists_of_bind_eq_ok h
    obtain rfl := Except.ok.inj h
    constructor
    exact hx

/-- A draft has what the parts say, of several parts with one name the last. -/
structure QuestionDraft.IsReadFrom (parts : List (String × Part)) (d : QuestionDraft) : Prop where
  key_eq : (last? "key" parts).elim (.ok none) (fun p => (readText p.1).map some) = .ok d.key
  version_eq : (last? "version" parts).elim (.ok 0) (fun p => readWord32 p.1) = .ok d.version
  condition_eq : (last? "condition" parts).elim (.ok none) (fun p => readOptional readAny p.1) =
    .ok d.condition
  rules_eq : (last? "validations" parts).elim (.ok []) (fun p => readList Rule.ofJson p.1) =
    .ok d.rules
  role_eq : (last? "role" parts).elim (.ok none) (fun p => (readText p.1).map some) = .ok d.role
  options_eq : (last? "options" parts).elim (.ok []) (fun p => readList Choice.ofJson p.1) =
    .ok d.options

theorem QuestionDraft.isReadFrom_of_foldlM {parts : List (String × Part)} {draft : QuestionDraft}
    (h : parts.foldlM (fun d (name, p) => QuestionDraft.put d name p) .empty = .ok draft) :
    draft.IsReadFrom parts where
  key_eq := component_of_foldlM put QuestionDraft.key "key" (fun p => (readText p.1).map some)
    (fun hput => by cases step_of_put hput <;> simp_all [questionForm, Except.map]) h
  version_eq := component_of_foldlM put QuestionDraft.version "version" (fun p => readWord32 p.1)
    (fun hput => by cases step_of_put hput <;> simp_all [questionForm]) h
  condition_eq := component_of_foldlM put QuestionDraft.condition "condition"
    (fun p => readOptional readAny p.1)
    (fun hput => by cases step_of_put hput <;> simp_all [questionForm]) h
  rules_eq := component_of_foldlM put QuestionDraft.rules "validations"
    (fun p => readList Rule.ofJson p.1)
    (fun hput => by cases step_of_put hput <;> simp_all [questionForm]) h
  role_eq := component_of_foldlM put QuestionDraft.role "role" (fun p => (readText p.1).map some)
    (fun hput => by cases step_of_put hput <;> simp_all [questionForm, Except.map]) h
  options_eq := component_of_foldlM put QuestionDraft.options "options"
    (fun p => readList Choice.ofJson p.1)
    (fun hput => by cases step_of_put hput <;> simp_all [questionForm]) h

theorem exists_of_questionForm_read {parts : Parts Part} {d : Item}
    (h : questionForm.read .empty QuestionDraft.put QuestionDraft.finish parts = .ok d) :
    ∃ key version condition rules role options,
      d = question key version condition rules role options ∧
      (⟨some key, version, condition, rules, some role, options⟩ : QuestionDraft).IsReadFrom
        (questionForm.namedParts parts) := by
  obtain ⟨draft, hdraft, hfinish⟩ := RecordForm.exists_draft h
  have hread := QuestionDraft.isReadFrom_of_foldlM hdraft
  obtain ⟨key, version, condition, rules, role, options⟩ := draft
  unfold QuestionDraft.finish at hfinish
  split at hfinish
  case h_3 hkey hrole =>
    obtain rfl := Except.ok.inj hfinish
    obtain rfl := hkey
    obtain rfl := hrole
    exact ⟨_, _, _, _, _, _, rfl, hread⟩
  all_goals cases hfinish

inductive PageBreakDraft.Step (d : PageBreakDraft) : String → Part → PageBreakDraft → Prop
  | key {p : Part} {s : String} (h : readText p.1 = .ok s) : Step d "key" p { d with key := some s }
  | condition {p : Part} {c : Option Json} (h : readOptional readAny p.1 = .ok c) :
    Step d "condition" p { d with condition := c }
  | other {name : String} {p : Part} (h : name ∉ pageBreakForm.fields) : Step d name p d

theorem PageBreakDraft.step_of_put {d d' : PageBreakDraft} {name : String} {p : Part}
    (h : d.put name p = .ok d') : d.Step name p d' := by
  unfold put at h
  split at h
  case h_3 =>
    obtain rfl := Except.ok.inj h
    apply Step.other
    simp_all [pageBreakForm]
  all_goals
    obtain ⟨x, hx, h⟩ := exists_of_bind_eq_ok h
    obtain rfl := Except.ok.inj h
    constructor
    exact hx

/-- A draft has what the parts say, of several parts with one name the last. -/
structure PageBreakDraft.IsReadFrom (parts : List (String × Part)) (d : PageBreakDraft) : Prop where
  key_eq : (last? "key" parts).elim (.ok none) (fun p => (readText p.1).map some) = .ok d.key
  condition_eq : (last? "condition" parts).elim (.ok none) (fun p => readOptional readAny p.1) =
    .ok d.condition

theorem PageBreakDraft.isReadFrom_of_foldlM {parts : List (String × Part)} {draft : PageBreakDraft}
    (h : parts.foldlM (fun d (name, p) => PageBreakDraft.put d name p) ⟨none, none⟩ = .ok draft) :
    draft.IsReadFrom parts where
  key_eq := component_of_foldlM put PageBreakDraft.key "key" (fun p => (readText p.1).map some)
    (fun hput => by cases step_of_put hput <;> simp_all [pageBreakForm, Except.map]) h
  condition_eq := component_of_foldlM put PageBreakDraft.condition "condition"
    (fun p => readOptional readAny p.1)
    (fun hput => by cases step_of_put hput <;> simp_all [pageBreakForm]) h

theorem exists_of_pageBreakForm_read {parts : Parts Part} {d : Item}
    (h : pageBreakForm.read ⟨none, none⟩ PageBreakDraft.put PageBreakDraft.finish parts = .ok d) :
    ∃ key condition, d = pageBreak key condition ∧
      (⟨some key, condition⟩ : PageBreakDraft).IsReadFrom (pageBreakForm.namedParts parts) := by
  obtain ⟨draft, hdraft, hfinish⟩ := RecordForm.exists_draft h
  have hread := PageBreakDraft.isReadFrom_of_foldlM hdraft
  obtain ⟨key, condition⟩ := draft
  unfold PageBreakDraft.finish at hfinish
  split at hfinish
  · next hkey =>
    obtain rfl := Except.ok.inj hfinish
    obtain rfl := hkey
    exact ⟨_, _, rfl, hread⟩
  · cases hfinish

end Item

namespace Survey

/-- What is looked at before the shapes of the members. -/
theorem check_eq_ok_iff {members : List (String × Json)} :
    check members = .ok () ↔
      (Fields.get? "id" members).isSome ∧ (Fields.get? "root" members).isSome ∧
      ∀ version, Fields.get? "canvass" members = some (.string version) →
        isSupported version = true := by
  unfold check
  cases hid : Fields.get? "id" members <;> cases hroot : Fields.get? "root" members <;>
    simp [hid, hroot, bind, Except.bind, pure, Except.pure]
  cases Fields.get? "canvass" members with
  | none => simp
  | some j =>
    cases j with
    | string version => cases hversion : isSupported version <;> simp [hversion]
    | _ => simp

inductive Draft.Step (d : Draft) : String → Json → Draft → Prop
  | id {j : Json} {s : String} (h : readText j = .ok s) : Step d "id" j { d with id := some s }
  | format {j : Json} {s : Option String} (h : readOptional readText j = .ok s) :
    Step d "canvass" j { d with format := s }
  | root {j : Json} {item : Item} (h : Item.ofJson false j = .ok item) :
    Step d "root" j { d with root := some item }
  | other {name : String} {j : Json} (h : name ∉ form.fields) : Step d name j d

theorem Draft.step_of_put {d d' : Draft} {name : String} {j : Json} (h : d.put name j = .ok d') :
    d.Step name j d' := by
  unfold put at h
  split at h
  case h_4 =>
    obtain rfl := Except.ok.inj h
    apply Step.other
    simp_all [form]
  all_goals
    obtain ⟨x, hx, h⟩ := exists_of_bind_eq_ok h
    obtain rfl := Except.ok.inj h
    constructor
    exact hx

/-- A draft has what the parts say, of several parts with one name the last. -/
structure Draft.IsReadFrom (parts : List (String × Json)) (d : Draft) : Prop where
  id_eq : (last? "id" parts).elim (.ok none) (fun j => (readText j).map some) = .ok d.id
  format_eq : (last? "canvass" parts).elim (.ok none) (readOptional readText) = .ok d.format
  root_eq : (last? "root" parts).elim (.ok none) (fun j => (Item.ofJson false j).map some) =
    .ok d.root

theorem Draft.isReadFrom_of_foldlM {parts : List (String × Json)} {draft : Draft}
    (h : parts.foldlM (fun d (name, j) => Draft.put d name j) ⟨none, none, none⟩ = .ok draft) :
    draft.IsReadFrom parts where
  id_eq := component_of_foldlM put Draft.id "id" (fun j => (readText j).map some)
    (fun hput => by cases step_of_put hput <;> simp_all [form, Except.map]) h
  format_eq := component_of_foldlM put Draft.format "canvass" (readOptional readText)
    (fun hput => by cases step_of_put hput <;> simp_all [form]) h
  root_eq := component_of_foldlM put Draft.root "root" (fun j => (Item.ofJson false j).map some)
    (fun hput => by cases step_of_put hput <;> simp_all [form, Except.map]) h

theorem isReadFrom_of_readJson {j : Json} {document : Survey}
    (h : form.readJson ⟨none, none, none⟩ Draft.put Draft.finish j = .ok document) :
    (⟨some document.id, document.format, some document.root⟩ : Draft).IsReadFrom
      (form.written j) := by
  obtain ⟨draft, hdraft, hfinish⟩ := RecordForm.exists_draft_of_readJson h
  have hread := Draft.isReadFrom_of_foldlM hdraft
  obtain ⟨id, format, root⟩ := draft
  unfold Draft.finish at hfinish
  split at hfinish
  case h_3 hid hroot =>
    obtain rfl := Except.ok.inj hfinish
    obtain rfl := hid
    obtain rfl := hroot
    exact hread
  all_goals cases hfinish

end Survey

end Questionnaire.Document
