import Mathlib.Data.List.Forall2
import Questionnaire.Item.Assembly

/-! Items from documents: what the conversion asks of a document, in which order it does, and what
it makes of a document that meets everything. -/
namespace Questionnaire

namespace Document

/-- What the conversion asks of a document at one place. -/
inductive Demand where
  | expression (j : Json)
  | oneOf (known : List String) (name : String) (fault : LoadFault)

namespace Demand

/-- The JSON reads as an expression, or the name is a known one. -/
def IsMet : Demand → Prop
  | expression j => ∃ e, Expression.ofJson j = .ok e
  | oneOf known name _ => name ∈ known

/-- The error of a demand that is not met. -/
def fault? : Demand → Option Error
  | expression j =>
    match Expression.ofJson j with
    | .ok _ => none
    | .error err => some err
  | oneOf known name fault => if name ∈ known then none else some (.malformed fault)

theorem fault?_eq_none_iff (d : Demand) : d.fault? = none ↔ d.IsMet := by
  cases d with
  | expression j =>
    unfold fault? IsMet
    cases h : Expression.ofJson j with
    | ok e => simp [h]
    | error err => simp [h]
  | oneOf known name fault => simp [fault?, IsMet]

/-- An expression that need not be there. -/
def optional (j : Option Json) : List Demand := (j.map expression).toList

def severity (name : String) : Demand :=
  oneOf (Severity.all.map Severity.name) name (.unknownSeverity name)

def role (name : String) : Demand := oneOf (Role.all.map Role.name) name (.unknownRole name)

def optionRole (name : String) : Demand :=
  oneOf (OptionRole.all.map OptionRole.name) name (.unknownOptionRole name)

end Demand

def Rule.demands (r : Rule) : List Demand := [.severity r.severity, .expression r.rule]

def Choice.demands (c : Choice) : List Demand :=
  .optionRole c.role :: (Demand.optional c.displayCondition ++ Demand.optional c.disabled)

namespace Item

mutual

/-- All demands of a tree, depth first. Those of an item are its condition, each rule with the
severity before the expression, and then its children, or its role and its options. -/
def demands : Item → List Demand
  | group _ _ condition rules _ items =>
    (Demand.optional condition ++ rules.flatMap Rule.demands) ++ allDemands items
  | question _ _ condition rules role options =>
    (Demand.optional condition ++ rules.flatMap Rule.demands) ++
      .role role :: options.flatMap Choice.demands
  | pageBreak _ condition => Demand.optional condition

def allDemands : List Item → List Demand
  | [] => []
  | item :: rest => demands item ++ allDemands rest

end

end Item

/-- The error of the first demand that is not met. -/
def firstFault? (demands : List Demand) : Option Error := demands.findSome? Demand.fault?

theorem firstFault?_append (ds es : List Demand) :
    firstFault? (ds ++ es) = (firstFault? ds).or (firstFault? es) := List.findSome?_append

theorem firstFault?_eq_none_iff (ds : List Demand) : firstFault? ds = none ↔ ∀ d ∈ ds, d.IsMet := by
  simp only [firstFault?, List.findSome?_eq_none_iff, Demand.fault?_eq_none_iff]

end Document

open Document (Demand firstFault? firstFault?_append firstFault?_eq_none_iff)

section
variable {α β : Type}

/-- A conversion gives something with a property just if all of some demands are met, and otherwise
the fault of the first that is not. -/
def Meets (demands : List Demand) (p : α → Prop) : Except Error α → Prop
  | .ok a => firstFault? demands = none ∧ p a
  | .error err => firstFault? demands = some err

variable {ds es : List Demand} {p : α → Prop} {q : β → Prop} {x : Except Error α}

theorem Meets.bind {f : α → Except Error β} (hx : Meets ds p x) (hf : ∀ a, p a → Meets es q (f a)) :
    Meets (ds ++ es) q (x >>= f) := by
  cases x with
  | error err =>
    have hfault : firstFault? ds = some err := hx
    change firstFault? (ds ++ es) = some err
    rw [firstFault?_append, hfault]
    rfl
  | ok a =>
    obtain ⟨hnone, ha⟩ := hx
    have hrest := hf a ha
    change Meets (ds ++ es) q (f a)
    unfold Meets at hrest ⊢
    rw [firstFault?_append, hnone]
    exact hrest

/-- A last step that asks nothing. -/
theorem Meets.bind_pure {g : α → β} (hx : Meets ds p x) (hg : ∀ a, p a → q (g a)) :
    Meets ds q (x >>= fun a => pure (g a)) := by
  cases x with
  | error err => exact hx
  | ok a => exact ⟨hx.1, hg a hx.2⟩

theorem Meets.mapM {f : β → Except Error α} {demandsOf : β → List Demand} {p : α → β → Prop}
    (h : ∀ b, Meets (demandsOf b) (p · b) (f b)) (bs : List β) :
    Meets (bs.flatMap demandsOf) (List.Forall₂ p · bs) (bs.mapM f) := by
  induction bs with
  | nil => exact ⟨rfl, .nil⟩
  | cons b rest ih =>
    rw [List.mapM_cons, List.flatMap_cons]
    apply (h b).bind
    intro a ha
    apply ih.bind_pure
    intro others hothers
    exact .cons ha hothers

theorem Meets.ok_iff (h : Meets ds p x) : (∃ a, x = .ok a) ↔ ∀ d ∈ ds, d.IsMet := by
  rw [← firstFault?_eq_none_iff]
  cases x with
  | error err =>
    have hfault : firstFault? ds = some err := h
    simp [hfault]
  | ok a => simp [h.1]

theorem Meets.error_iff (h : Meets ds p x) (err : Error) :
    x = .error err ↔ firstFault? ds = some err := by
  cases x with
  | error found =>
    have hfault : firstFault? ds = some found := h
    simp [hfault]
  | ok a => simp [h.1]

theorem Meets.of_ok {a : α} (h : Meets ds p x) (ha : x = .ok a) : p a := by
  subst ha
  exact h.2

end

/-- A name is looked up among those of all terms. -/
theorem named_meets {α : Type} (nameOf : α → String) (all : List α) (fault : String → LoadFault)
    (name : String) :
    Meets [.oneOf (all.map nameOf) name (fault name)] (nameOf · = name)
      (named (fun name => all.find? (nameOf · = name)) fault name) := by
  unfold named
  cases hterm : all.find? (nameOf · = name) with
  | some term =>
    have hname : nameOf term = name := by simpa using List.find?_some hterm
    have hknown : name ∈ all.map nameOf :=
      List.mem_map.mpr ⟨term, List.mem_of_find?_eq_some hterm, hname⟩
    simp only [hterm]
    exact ⟨by simp [firstFault?, Demand.fault?, hknown], hname⟩
  | none =>
    have hunknown : name ∉ all.map nameOf := by
      intro hmem
      obtain ⟨term, hin, hname⟩ := List.mem_map.mp hmem
      have hdiffers := List.find?_eq_none.mp hterm term hin
      exact hdiffers (decide_eq_true hname)
    simp only [hterm]
    change firstFault? _ = some _
    simp [firstFault?, Demand.fault?, hunknown]

namespace Expression

/-- An optional expression is the reading of optional JSON. -/
def IsReadingOf (e : Option Expression) (j : Option Json) : Prop :=
  Option.Rel (fun e j => ofJson j = .ok e) e j

theorem ofJson_meets (j : Json) : Meets [.expression j] (ofJson j = .ok ·) (ofJson j) := by
  cases h : ofJson j with
  | ok e => exact ⟨by simp [firstFault?, Demand.fault?, h], rfl⟩
  | error err =>
    change firstFault? _ = some err
    simp [firstFault?, Demand.fault?, h]

theorem ofOptional_meets (j : Option Json) :
    Meets (Demand.optional j) (IsReadingOf · j) (ofOptional j) := by
  cases j with
  | none => exact ⟨rfl, .none⟩
  | some j =>
    apply (ofJson_meets j).bind_pure
    intro e he
    exact .some he

end Expression

open Expression (ofJson_meets ofOptional_meets)

/-- A rule with the key and the named severity of a document, whose expression is the reading of the
document's. -/
structure Rule.Mirrors (r : Rule) (d : Document.Rule) : Prop where
  key_eq : r.key = d.key
  severity_eq : r.severity.name = d.severity
  rule_eq : Expression.ofJson d.rule = .ok r.rule

structure Choice.Mirrors (c : Choice) (d : Document.Choice) : Prop where
  key_eq : c.key = d.key
  role_eq : c.role.name = d.role
  displayCondition_eq : Expression.IsReadingOf c.displayCondition d.displayCondition
  disabled_eq : Expression.IsReadingOf c.disabled d.disabled

structure Header.Mirrors (header : Header) (key : String) (version : Nat) (condition : Option Json)
    (rules : List Document.Rule) : Prop where
  key_eq : header.key = key
  version_eq : header.version = version
  condition_eq : Expression.IsReadingOf header.condition condition
  rules_eq : List.Forall₂ Rule.Mirrors header.rules rules

namespace Item

mutual

/-- An item of the same kind with the same parts, and with children that mirror the document's one
by one. A page break has version 0. -/
def Mirrors : Item → Document.Item → Prop
  | group header selection items, .group key version condition rules selection' items' =>
    header.Mirrors key version condition rules ∧ selection = selection' ∧ AllMirror items items'
  | question header role options, .question key version condition rules role' options' =>
    header.Mirrors key version condition rules ∧ role.name = role' ∧
      List.Forall₂ Choice.Mirrors options options'
  | pageBreak key condition, .pageBreak key' condition' =>
    key = key' ∧ (pageBreak key condition).version = 0 ∧
      Expression.IsReadingOf condition condition'
  | _, _ => False

def AllMirror : List Item → List Document.Item → Prop
  | [], [] => True
  | item :: rest, d :: rest' => Mirrors item d ∧ AllMirror rest rest'
  | _, _ => False

end

end Item

theorem Rule.ofDocument_meets (d : Document.Rule) :
    Meets d.demands (Mirrors · d) (ofDocument d) := by
  have hseverity := named_meets Severity.name Severity.all .unknownSeverity d.severity
  apply hseverity.bind
  intro severity hname
  apply (ofJson_meets d.rule).bind_pure
  intro e he
  exact ⟨rfl, hname, he⟩

theorem Choice.ofDocument_meets (d : Document.Choice) :
    Meets d.demands (Mirrors · d) (ofDocument d) := by
  have hrole := named_meets OptionRole.name OptionRole.all .unknownOptionRole d.role
  apply hrole.bind
  intro role hname
  apply (ofOptional_meets d.displayCondition).bind
  intro display hdisplay
  apply (ofOptional_meets d.disabled).bind_pure
  intro disabled hdisabled
  exact ⟨rfl, hname, hdisplay, hdisabled⟩

theorem Header.ofDocument_meets (key : String) (version : Nat) (condition : Option Json)
    (rules : List Document.Rule) :
    Meets (Demand.optional condition ++ rules.flatMap Document.Rule.demands)
      (Mirrors · key version condition rules) (ofDocument key version condition rules) := by
  apply (ofOptional_meets condition).bind
  intro c hc
  apply (Meets.mapM Rule.ofDocument_meets rules).bind_pure
  intro rs hrs
  exact ⟨rfl, rfl, hc, hrs⟩

namespace Item

mutual

theorem ofDocument_meets (d : Document.Item) : Meets d.demands (Mirrors · d) (ofDocument d) := by
  cases d with
  | group key version condition rules selection items =>
    apply (Header.ofDocument_meets key version condition rules).bind
    intro header hheader
    apply (ofDocuments_meet items).bind_pure
    intro children hchildren
    exact ⟨hheader, rfl, hchildren⟩
  | question key version condition rules role options =>
    apply (Header.ofDocument_meets key version condition rules).bind
    intro header hheader
    have hrole := named_meets Role.name Role.all .unknownRole role
    apply hrole.bind
    intro r hr
    apply (Meets.mapM Choice.ofDocument_meets options).bind_pure
    intro choices hchoices
    exact ⟨hheader, hr, hchoices⟩
  | pageBreak key condition =>
    apply (ofOptional_meets condition).bind_pure
    intro c hc
    exact ⟨rfl, rfl, hc⟩

theorem ofDocuments_meet (ds : List Document.Item) :
    Meets (Document.Item.allDemands ds) (AllMirror · ds) (ofDocuments ds) := by
  cases ds with
  | nil => exact ⟨rfl, trivial⟩
  | cons d rest =>
    apply (ofDocument_meets d).bind
    intro item hitem
    apply (ofDocuments_meet rest).bind_pure
    intro others hothers
    exact ⟨hitem, hothers⟩

end

end Item

namespace Survey

theorem ofJson_meets {j : Json} {document : Document.Survey}
    (h : Document.Survey.ofJson j = .ok document) :
    Meets document.root.demands
      (fun survey => survey.id = document.id ∧ survey.root.Mirrors document.root) (ofJson j) := by
  unfold ofJson
  rw [h]
  apply (Item.ofDocument_meets document.root).bind_pure
  intro root hroot
  exact ⟨rfl, hroot⟩

/-- The conversion of a document succeeds just if every name in it is known and all that stands for
an expression reads as one; else it fails with the first fault, depth first. What it gives mirrors
the document place by place, and so does the tree of a survey that was read. -/
theorem conversion_is_faithful :
    (∀ d : Document.Item,
      ((∃ item, Item.ofDocument d = .ok item) ↔ ∀ x ∈ d.demands, x.IsMet) ∧
      (∀ err, Item.ofDocument d = .error err ↔ firstFault? d.demands = some err) ∧
      ∀ item, Item.ofDocument d = .ok item → item.Mirrors d) ∧
    ∀ (j : Json) (document : Document.Survey), Document.Survey.ofJson j = .ok document →
      ((∃ survey, ofJson j = .ok survey) ↔ ∀ x ∈ document.root.demands, x.IsMet) ∧
      (∀ err, ofJson j = .error err ↔ firstFault? document.root.demands = some err) ∧
      ∀ survey, ofJson j = .ok survey →
        survey.id = document.id ∧ survey.root.Mirrors document.root := by
  constructor
  · intro d
    have hmeets := Item.ofDocument_meets d
    exact ⟨hmeets.ok_iff, hmeets.error_iff, fun item => hmeets.of_ok⟩
  · intro j document h
    have hmeets := ofJson_meets h
    exact ⟨hmeets.ok_iff, hmeets.error_iff, fun survey => hmeets.of_ok⟩

/-- A survey with one question, which has an unknown role and a rule of an unknown severity. -/
def firmJson : Json :=
  .object [("id", .string "s"), ("root", .object [
    ("key", .string "q"), ("kind", .string "question"), ("role", .string "slider"),
    ("validations", .array [.object [
      ("key", .string "v"), ("rule", .bool true), ("severity", .string "firm")]])])]

def firmDocument : Document.Survey :=
  ⟨"s", none, .question "q" 0 none [⟨"v", "firm", .bool true⟩] "slider" []⟩

/-- The severity comes before the role. -/
theorem firm_is_reported :
    Document.Survey.ofJson firmJson = .ok firmDocument ∧
      firmDocument.root.demands =
        [.severity "firm", .expression (.bool true), .role "slider"] ∧
      ofJson firmJson = .error (.malformed (.unknownSeverity "firm")) := by
  have hread : Document.Survey.ofJson firmJson = .ok firmDocument := by rfl
  obtain ⟨-, hfault, -⟩ := conversion_is_faithful.2 _ _ hread
  refine ⟨hread, rfl, ?_⟩
  apply (hfault _).mpr
  rfl

end Survey

end Questionnaire
