import Questionnaire.Item.Assembly
import Questionnaire.Lint
import Questionnaire.Proofs.Occurrence
import Questionnaire.Proofs.Records

/-! What is known of expressions that were loaded, wherever in a questionnaire they stand: every
call has a number of arguments that its operator accepts, and no literal is a record. -/
namespace Questionnaire

def Json.isScalar : Json → Bool
  | .array _ => false
  | .object _ => false
  | _ => true

theorem Value.kind_ne_record_of_ofJson {j : Json} {v : Value} (hj : j.isScalar = true)
    (h : ofJson j = .ok v) : v.kind ≠ .record := by
  cases j with
  | null => obtain rfl := Except.ok.inj h; exact nofun
  | bool b => obtain rfl := Except.ok.inj h; exact nofun
  | string s => obtain rfl := Except.ok.inj h; exact nofun
  | number n => obtain ⟨d, -, rfl⟩ := exists_of_map_eq_ok h; exact nofun
  | array items => cases hj
  | object members => cases hj

namespace Expression

mutual

/-- All literals of an expression have a property. -/
def Literals (p : Value → Prop) : Expression → Prop
  | .literal v => p v
  | .call _ arguments => AllLiterals p arguments

def AllLiterals (p : Value → Prop) : List Expression → Prop
  | [] => True
  | e :: rest => Literals p e ∧ AllLiterals p rest

end

theorem ofJson_of_isScalar {j : Json} (hj : j.isScalar = true) :
    ofJson j = (Value.ofJson j).map .literal := by
  cases j with
  | array items => cases hj
  | object members => cases hj
  | _ => rfl

theorem call?_eq_ok_iff {operator : Operator} {arguments : List Expression} {e : Expression} :
    call? operator arguments = .ok e ↔
      operator.arity.accepts arguments.length = true ∧ .call operator arguments = e := by
  unfold call?
  split
  · next h => simp [h]
  · next h => simp [h]

/-- An expression that was loaded. -/
structure Checked (e : Expression) : Prop where
  wellFormed : e.wellFormed = true
  literals : e.Literals (·.kind ≠ .record)

def AllChecked (es : List Expression) : Prop :=
  allWellFormed es = true ∧ AllLiterals (·.kind ≠ .record) es

mutual

theorem checked_of_ofJson {j : Json} {e : Expression} (h : ofJson j = .ok e) : e.Checked := by
  cases j with
  | object members =>
    obtain ⟨operator, -, h⟩ := exists_of_bind_eq_ok h
    obtain ⟨arguments, harguments, h⟩ := exists_of_bind_eq_ok h
    obtain ⟨haccepts, rfl⟩ := call?_eq_ok_iff.mp h
    obtain ⟨hwell, hliterals⟩ := checked_of_argumentsOf harguments
    exact ⟨Bool.and_eq_true_iff.mpr ⟨haccepts, hwell⟩, hliterals⟩
  | array items => cases h
  | _ =>
    rw [ofJson_of_isScalar rfl] at h
    obtain ⟨v, hv, rfl⟩ := exists_of_map_eq_ok h
    exact ⟨rfl, Value.kind_ne_record_of_ofJson rfl hv⟩

theorem checked_of_argumentsOf {operator : Operator} {members : List (String × Json)}
    {arguments : List Expression} (h : argumentsOf operator members = .ok arguments) :
    AllChecked arguments := by
  cases members with
  | nil => obtain rfl := Except.ok.inj h; exact ⟨rfl, trivial⟩
  | cons member rest =>
    obtain ⟨name, j⟩ := member
    cases j with
    | array items =>
      rw [argumentsOf] at h
      split at h
      · exact checked_of_ofJsonAll h
      · exact checked_of_argumentsOf h
    | _ =>
      rw [argumentsOf] at h
      split at h
      · cases h
      · exact checked_of_argumentsOf h
      · exact nofun

theorem checked_of_ofJsonAll {items : List Json} {es : List Expression}
    (h : ofJsonAll items = .ok es) : AllChecked es := by
  cases items with
  | nil => obtain rfl := Except.ok.inj h; exact ⟨rfl, trivial⟩
  | cons j rest =>
    obtain ⟨e, he, h⟩ := exists_of_bind_eq_ok h
    obtain ⟨es, hes, h⟩ := exists_of_bind_eq_ok h
    obtain rfl := Except.ok.inj h
    have hfirst := checked_of_ofJson he
    obtain ⟨hwell, hliterals⟩ := checked_of_ofJsonAll hes
    exact ⟨Bool.and_eq_true_iff.mpr ⟨hfirst.wellFormed, hwell⟩, hfirst.literals, hliterals⟩

end

theorem checked_of_ofOptional {j : Option Json} {condition : Option Expression}
    (h : ofOptional j = .ok condition) : ∀ e ∈ condition, e.Checked := by
  intro e he
  obtain rfl := Option.mem_def.mp he
  cases j with
  | none => cases h
  | some j =>
    obtain ⟨c, hc, heq⟩ := exists_of_map_eq_ok h
    obtain rfl := Option.some.inj heq
    exact checked_of_ofJson hc

end Expression

theorem Rule.checked_of_ofDocument {d : Document.Rule} {r : Rule} (h : ofDocument d = .ok r) :
    r.rule.Checked := by
  obtain ⟨severity, -, h⟩ := exists_of_bind_eq_ok h
  obtain ⟨e, he, h⟩ := exists_of_bind_eq_ok h
  obtain rfl := Except.ok.inj h
  exact Expression.checked_of_ofJson he

theorem Choice.checked_of_ofDocument {d : Document.Choice} {c : Choice} (h : ofDocument d = .ok c) :
    (∀ e ∈ c.displayCondition, e.Checked) ∧ ∀ e ∈ c.disabled, e.Checked := by
  obtain ⟨role, -, h⟩ := exists_of_bind_eq_ok h
  obtain ⟨display, hdisplay, h⟩ := exists_of_bind_eq_ok h
  obtain ⟨disabled, hdisabled, h⟩ := exists_of_bind_eq_ok h
  obtain rfl := Except.ok.inj h
  exact ⟨Expression.checked_of_ofOptional hdisplay, Expression.checked_of_ofOptional hdisabled⟩

theorem Header.checked_of_ofDocument {key : String} {version : Nat} {condition : Option Json}
    {rules : List Document.Rule} {header : Header}
    (h : ofDocument key version condition rules = .ok header) :
    (∀ e ∈ header.condition, e.Checked) ∧ ∀ r ∈ header.rules, r.rule.Checked := by
  obtain ⟨condition, hcondition, h⟩ := exists_of_bind_eq_ok h
  obtain ⟨rules, hrules, h⟩ := exists_of_bind_eq_ok h
  obtain rfl := Except.ok.inj h
  exact ⟨Expression.checked_of_ofOptional hcondition,
    forall_of_mapM_eq_ok Rule.checked_of_ofDocument hrules⟩

namespace Item

/-- All expressions of an item were loaded. -/
def Checked (item : Item) : Prop := ∀ e ∈ item.expressions, e.2.Checked

theorem checked_of_parts {item : Item} (hcondition : ∀ e ∈ item.condition, e.Checked)
    (hrules : ∀ r ∈ item.rules, r.rule.Checked)
    (hoptions : ∀ c ∈ item.options,
      (∀ e ∈ c.displayCondition, e.Checked) ∧ ∀ e ∈ c.disabled, e.Checked) : item.Checked := by
  rintro ⟨site, e⟩ he
  simp only [expressions, List.mem_append, List.mem_map, List.mem_flatMap, Option.mem_toList,
    Option.map_eq_some_iff, Prod.mk.injEq] at he
  rcases he with (⟨_, h, -, rfl⟩ | ⟨r, hr, -, rfl⟩) | ⟨c, hc, ⟨_, h, -, rfl⟩ | ⟨_, h, -, rfl⟩⟩
  · exact hcondition _ h
  · exact hrules r hr
  · exact (hoptions c hc).1 _ h
  · exact (hoptions c hc).2 _ h

mutual

theorem checked_of_ofDocument {d : Document.Item} {item : Item} (h : ofDocument d = .ok item) :
    ∀ x ∈ item.preorder, x.Checked := by
  cases d with
  | group key version condition rules selection items =>
    obtain ⟨header, hheader, h⟩ := exists_of_bind_eq_ok h
    obtain ⟨children, hchildren, h⟩ := exists_of_bind_eq_ok h
    obtain rfl := Except.ok.inj h
    obtain ⟨hcondition, hrules⟩ := Header.checked_of_ofDocument hheader
    intro x hx
    rcases List.mem_cons.mp hx with rfl | hx
    · exact checked_of_parts hcondition hrules nofun
    · exact checked_of_ofDocuments hchildren x hx
  | question key version condition rules role options =>
    obtain ⟨header, hheader, h⟩ := exists_of_bind_eq_ok h
    obtain ⟨role, -, h⟩ := exists_of_bind_eq_ok h
    obtain ⟨options, hoptions, h⟩ := exists_of_bind_eq_ok h
    obtain rfl := Except.ok.inj h
    obtain ⟨hcondition, hrules⟩ := Header.checked_of_ofDocument hheader
    intro x hx
    obtain rfl := List.mem_singleton.mp hx
    exact checked_of_parts hcondition hrules
      (forall_of_mapM_eq_ok Choice.checked_of_ofDocument hoptions)
  | pageBreak key condition =>
    obtain ⟨condition, hcondition, h⟩ := exists_of_bind_eq_ok h
    obtain rfl := Except.ok.inj h
    intro x hx
    obtain rfl := List.mem_singleton.mp hx
    exact checked_of_parts (Expression.checked_of_ofOptional hcondition) nofun nofun

theorem checked_of_ofDocuments {ds : List Document.Item} {items : List Item}
    (h : ofDocuments ds = .ok items) : ∀ x ∈ preorders items, x.Checked := by
  cases ds with
  | nil => obtain rfl := Except.ok.inj h; exact nofun
  | cons d rest =>
    obtain ⟨first, hfirst, h⟩ := exists_of_bind_eq_ok h
    obtain ⟨others, hothers, h⟩ := exists_of_bind_eq_ok h
    obtain rfl := Except.ok.inj h
    intro x hx
    rcases List.mem_append.mp hx with hx | hx
    · exact checked_of_ofDocument hfirst x hx
    · exact checked_of_ofDocuments hothers x hx

end

end Item

theorem Survey.checked_of_ofJson {j : Json} {survey : Survey} (h : ofJson j = .ok survey) :
    ∀ item ∈ survey.root.descendants, item.Checked := by
  unfold ofJson at h
  split at h
  · obtain ⟨root, hroot, h⟩ := exists_of_bind_eq_ok h
    obtain rfl := Except.ok.inj h
    rw [Item.descendants_eq]
    exact Item.checked_of_ofDocument hroot
  · cases h

end Questionnaire
