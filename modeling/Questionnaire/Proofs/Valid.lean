import Questionnaire.Document.Schema
import Questionnaire.Proofs.Conversion
import Questionnaire.Proofs.Drafts
import Questionnaire.Proofs.Ordered

/-! What the schema lets stand for an expression, a rule, an option or a selection is read as one,
if its numbers can be read and its calls have as many arguments as their operators accept. -/
namespace Questionnaire

namespace Json

/-- An integer from zero up to a bound. -/
def IsBelow (bound : Nat) (j : Json) : Prop := ∃ n < bound, j = .nat n

/-- How many items are in the list that is the member with a name. -/
def countAt (name : String) (members : List (String × Json)) : Nat :=
  match Fields.get? name members with
  | some (.array items) => items.length
  | _ => 0

mutual

/-- Versions are integers of 32 bits and counts of 64, every other number has a decimal, and every
call has a number of arguments that its operator accepts. -/
def Readable : Json → Prop
  | .number n => ∃ d, Value.decimalOfNumber n = .ok d
  | .array items => AllReadable items
  | .object members =>
    (∀ operator, Expression.operatorOf members = .ok operator →
      operator.arity.accepts (countAt "args" members) = true) ∧ MembersReadable members
  | _ => True

def AllReadable : List Json → Prop
  | [] => True
  | j :: rest => Readable j ∧ AllReadable rest

def MembersReadable : List (String × Json) → Prop
  | [] => True
  | (name, j) :: rest =>
    (if name = "version" then IsBelow UInt32.size j
      else if name = "n" then IsBelow UInt64.size j
      else Readable j) ∧ MembersReadable rest

end

/-- What `Readable` asks of a member. -/
def MemberReadable (name : String) (j : Json) : Prop :=
  if name = "version" then IsBelow UInt32.size j
  else if name = "n" then IsBelow UInt64.size j
  else Readable j

theorem isBelow_of_version {j : Json} (h : MemberReadable "version" j) : j.IsBelow UInt32.size := by
  rwa [MemberReadable, if_pos rfl] at h

theorem isBelow_of_count {j : Json} (h : MemberReadable "n" j) : j.IsBelow UInt64.size := by
  rwa [MemberReadable, if_neg (by decide), if_pos rfl] at h

theorem allReadable_iff {items : List Json} : AllReadable items ↔ ∀ j ∈ items, j.Readable :=
  iff_forall_of_recursion trivial (fun _ _ => Iff.rfl) items

theorem membersReadable_iff {members : List (String × Json)} :
    MembersReadable members ↔ ∀ member ∈ members, MemberReadable member.1 member.2 :=
  iff_forall_of_recursion trivial (fun _ _ => Iff.rfl) members

end Json

namespace Document.Schema

theorem operatorNames_eq : operatorNames = Operator.all.map Operator.name := rfl

theorem severityNames_eq : severityNames = Severity.all.map Severity.name := rfl

theorem optionRoleNames_eq : optionRoleNames = OptionRole.all.map OptionRole.name := rfl

theorem roleNames_eq : roleNames = Role.all.map Role.name := rfl

theorem exists_of_isOneOf {names : List String} {j : Json} (h : isOneOf names j = true) :
    ∃ s ∈ names, j = .string s := by
  cases j with
  | string s => exact ⟨s, List.contains_iff_mem.mp h, rfl⟩
  | _ => cases h

theorem exists_of_isKey {j : Json} (h : isKey j = true) : ∃ s, j = .string s := by
  cases j with
  | string s => exact ⟨s, rfl⟩
  | _ => cases h

theorem exists_of_isListOf {rule : Json → Bool} {j : Json} (h : isListOf rule j = true) :
    ∃ items, j = .array items ∧ ∀ item ∈ items, rule item = true := by
  cases j with
  | array items => exact ⟨items, rfl, List.all_eq_true.mp h⟩
  | _ => cases h

/-- What the schema asks of a member of a call. -/
def callMember (name : String) (value : Json) : Bool :=
  match name with
  | "name" => isOneOf operatorNames value
  | "args" => isArguments value
  | _ => false

theorem areCallMembers_iff {members : List (String × Json)} :
    areCallMembers members = true ↔ ∀ member ∈ members, callMember member.1 member.2 = true :=
  iff_forall_of_recursion (q := (areCallMembers · = true)) rfl
    (fun _ _ => iff_of_eq (Bool.and_eq_true _ _)) members

theorem exists_operator {members : List (String × Json)}
    (hname : (Fields.get? "name" members).isSome = true) (h : areCallMembers members = true) :
    ∃ operator, Expression.operatorOf members = .ok operator := by
  obtain ⟨j, hj⟩ := Option.isSome_iff_exists.mp hname
  have hmember := areCallMembers_iff.mp h _ (Fields.mem_of_get?_eq_some hj)
  obtain ⟨s, hs, rfl⟩ := exists_of_isOneOf hmember
  rw [operatorNames_eq] at hs
  obtain ⟨operator, -, rfl⟩ := List.mem_map.mp hs
  refine ⟨operator, ?_⟩
  unfold Expression.operatorOf
  rw [hj]
  simp [Json.string?]

mutual

theorem exists_expression {j : Json} (h : isExpression j = true) (hj : j.Readable) :
    ∃ e, Expression.ofJson j = .ok e := by
  cases j with
  | object members =>
    obtain ⟨hname, hmembers⟩ := Bool.and_eq_true_iff.mp h
    obtain ⟨haccepts, hreadable⟩ := hj
    obtain ⟨operator, hoperator⟩ := exists_operator hname hmembers
    obtain ⟨arguments, harguments, hcount⟩ := exists_arguments operator hmembers hreadable
    have hcall : operator.arity.accepts arguments.length = true := by
      rw [hcount]
      exact haccepts operator hoperator
    refine ⟨.call operator arguments, ?_⟩
    simp only [Expression.ofJson, hoperator, harguments, Expression.call?, hcall, bind, Except.bind,
      if_true]
  | array items => cases h
  | number n =>
    obtain ⟨d, hd⟩ := hj
    refine ⟨.literal (.number d), ?_⟩
    simp [Expression.ofJson, Value.ofJson, hd, Except.map]
  | _ => exact ⟨_, rfl⟩

/-- The arguments are those of the first member that gives any. -/
theorem exists_arguments (operator : Operator) {members : List (String × Json)}
    (h : areCallMembers members = true) (hmembers : Json.MembersReadable members) :
    ∃ arguments, Expression.argumentsOf operator members = .ok arguments ∧
      arguments.length = Json.countAt "args" members := by
  cases members with
  | nil => exact ⟨[], rfl, rfl⟩
  | cons member rest =>
    obtain ⟨name, j⟩ := member
    obtain ⟨hj, hrest⟩ := hmembers
    have hmember : callMember name j = true ∧ areCallMembers rest = true :=
      Bool.and_eq_true_iff.mp h
    by_cases hname : name = "args"
    · subst hname
      cases j with
      | array items =>
        obtain ⟨es, hes, hcount⟩ := exists_expressions hmember.1 hj
        refine ⟨es, ?_, ?_⟩
        · rw [Expression.argumentsOf, if_pos rfl, hes]
        · exact hcount
      | _ => cases hmember.1
    · obtain ⟨arguments, harguments, hcount⟩ := exists_arguments operator hmember.2 hrest
      refine ⟨arguments, ?_, ?_⟩
      · rw [← harguments]
        cases j <;> exact if_neg hname
      · rw [hcount, Json.countAt, Json.countAt, Fields.get?, if_neg hname]

theorem exists_expressions {items : List Json} (h : areExpressions items = true)
    (hitems : Json.AllReadable items) :
    ∃ es, Expression.ofJsonAll items = .ok es ∧ es.length = items.length := by
  cases items with
  | nil => exact ⟨[], rfl, rfl⟩
  | cons j rest =>
    obtain ⟨hfirst, hrest⟩ := Bool.and_eq_true_iff.mp h
    obtain ⟨e, he⟩ := exists_expression hfirst hitems.1
    obtain ⟨es, hes, hcount⟩ := exists_expressions hrest hitems.2
    refine ⟨e :: es, ?_, ?_⟩
    · rw [Expression.ofJsonAll, he, hes]
      rfl
    · rw [List.length_cons, List.length_cons, hcount]

end

theorem membersAll_iff {rule : String → Json → Bool} {members : List (String × Json)} :
    membersAll rule (.object members) = true ↔
      ∀ member ∈ members, rule member.1 member.2 = true := List.all_eq_true

/-- What stands for an optional expression is met. -/
theorem isMet_of_optional {part : Option Json} {value : Option Json}
    (hread : part.elim (.ok none) (readOptional readAny) = .ok value)
    (hpart : ∀ j ∈ part, isExpression j = true ∧ j.Readable) :
    ∀ d ∈ Demand.optional value, d.IsMet := by
  cases part with
  | none =>
    obtain rfl := Except.ok.inj hread
    exact List.forall_mem_nil _
  | some j =>
    obtain ⟨hexpression, hreadable⟩ := hpart j rfl
    cases j with
    | null =>
      obtain rfl := Except.ok.inj hread
      exact List.forall_mem_nil _
    | _ =>
      obtain rfl := Except.ok.inj hread
      intro d hd
      obtain rfl := List.mem_singleton.mp hd
      exact exists_expression hexpression hreadable

section
variable {members : List (String × Json)}

theorem readable_of_get? (hreadable : Json.MembersReadable members) {name : String} {j : Json}
    (hversion : name ≠ "version") (hcount : name ≠ "n") (h : Fields.get? name members = some j) :
    j.Readable := by
  have hmember := Json.membersReadable_iff.mp hreadable _ (Fields.mem_of_get?_eq_some h)
  unfold Json.MemberReadable at hmember
  rw [if_neg hversion, if_neg hcount] at hmember
  exact hmember

theorem exists_put_rule {name : String} {j : Json} (h : ruleMember name j = true)
    (d : Rule.Draft) : ∃ d', d.put name j = .ok d' := by
  unfold ruleMember at h
  split at h
  · obtain ⟨s, rfl⟩ := exists_of_isKey h
    exact ⟨_, rfl⟩
  · obtain ⟨s, -, rfl⟩ := exists_of_isOneOf h
    exact ⟨_, rfl⟩
  · exact ⟨_, rfl⟩
  · cases h

theorem exists_rule {j : Json} (h : isRule j = true) (hordered : j.Ordered)
    (hreadable : j.Readable) : ∃ r, Rule.ofJson j = .ok r ∧ ∀ d ∈ r.demands, d.IsMet := by
  cases j with
  | object members =>
    simp only [isRule, Bool.and_eq_true, requires, Option.isSome_iff_exists, membersAll_iff] at h
    obtain ⟨⟨⟨⟨-, keyJson, hkey⟩, severityJson, hseverity⟩, rule, hrule⟩, hmembers⟩ := h
    have hmember : ∀ {name j}, Fields.get? name members = some j → ruleMember name j = true :=
      fun hget => hmembers _ (Fields.mem_of_get?_eq_some hget)
    obtain ⟨key, rfl⟩ := exists_of_isKey (hmember hkey)
    obtain ⟨severity, hknown, rfl⟩ := exists_of_isOneOf (hmember hseverity)
    obtain ⟨draft, hdraft⟩ := exists_foldlM_eq_ok (fun member hmem =>
      exists_put_rule (hmembers member hmem)) ⟨none, none, none⟩
    obtain ⟨hk, hs, hr⟩ := Rule.Draft.isReadFrom_of_foldlM hdraft
    rw [Fields.last?_eq_get? hordered.1, hkey] at hk
    rw [Fields.last?_eq_get? hordered.1, hseverity] at hs
    rw [Fields.last?_eq_get? hordered.1, hrule] at hr
    have hfinish : draft.finish = .ok ⟨key, severity, rule⟩ := by
      unfold Rule.Draft.finish
      rw [← Except.ok.inj hk, ← Except.ok.inj hs, ← Except.ok.inj hr]
    refine ⟨_, RecordForm.read_eq_ok Rule.form hdraft hfinish, ?_⟩
    intro d hd
    rcases List.mem_pair.mp hd with rfl | rfl
    · rw [severityNames_eq] at hknown
      exact hknown
    · exact exists_expression (hmember hrule)
        (readable_of_get? hreadable.2 (by decide) (by decide) hrule)
  | _ => cases h

theorem exists_put_choice {name : String} {j : Json} (h : choiceMember name j = true)
    (d : Choice.Draft) : ∃ d', d.put name j = .ok d' := by
  unfold choiceMember at h
  split at h
  · obtain ⟨s, rfl⟩ := exists_of_isKey h
    exact ⟨_, rfl⟩
  · obtain ⟨s, -, rfl⟩ := exists_of_isOneOf h
    exact ⟨_, rfl⟩
  · cases j <;> exact ⟨_, rfl⟩
  · cases j <;> exact ⟨_, rfl⟩
  · cases h

theorem exists_choice {j : Json} (h : isChoice j = true) (hordered : j.Ordered)
    (hreadable : j.Readable) : ∃ c, Choice.ofJson j = .ok c ∧ ∀ d ∈ c.demands, d.IsMet := by
  cases j with
  | object members =>
    simp only [isChoice, Bool.and_eq_true, requires, Option.isSome_iff_exists, membersAll_iff] at h
    obtain ⟨⟨-, keyJson, hkey⟩, hmembers⟩ := h
    have hmember : ∀ {name j}, Fields.get? name members = some j → choiceMember name j = true :=
      fun hget => hmembers _ (Fields.mem_of_get?_eq_some hget)
    obtain ⟨key, rfl⟩ := exists_of_isKey (hmember hkey)
    obtain ⟨draft, hdraft⟩ := exists_foldlM_eq_ok (fun member hmem =>
      exists_put_choice (hmembers member hmem)) ⟨none, OptionRole.option.name, none, none⟩
    obtain ⟨hk, hrole, hdisplay, hdisabled⟩ := Choice.Draft.isReadFrom_of_foldlM hdraft
    rw [Fields.last?_eq_get? hordered.1] at hk hrole hdisplay hdisabled
    rw [hkey] at hk
    have hfinish : draft.finish =
        .ok ⟨key, draft.role, draft.displayCondition, draft.disabled⟩ := by
      unfold Choice.Draft.finish
      rw [← Except.ok.inj hk]
    refine ⟨_, RecordForm.read_eq_ok Choice.form hdraft hfinish, ?_⟩
    intro d hd
    rcases List.mem_cons.mp hd with rfl | hd
    · show draft.role ∈ OptionRole.all.map OptionRole.name
      rw [← optionRoleNames_eq]
      refine holds_of_elim_eq_ok (p := (· ∈ optionRoleNames)) (by decide) ?_ hrole
      intro j role hj hread
      obtain ⟨s, hs, rfl⟩ := exists_of_isOneOf (hmember hj)
      obtain rfl := Except.ok.inj hread
      exact hs
    · rcases List.mem_append.mp hd with hd | hd
      · refine isMet_of_optional hdisplay (fun j hj => ⟨hmember hj, ?_⟩) d hd
        exact readable_of_get? hreadable.2 (by decide) (by decide) hj
      · refine isMet_of_optional hdisabled (fun j hj => ⟨hmember hj, ?_⟩) d hd
        exact readable_of_get? hreadable.2 (by decide) (by decide) hj
  | _ => cases h

/-- A list of parts that are each read is read, with as many parts. -/
theorem exists_list {α : Type} {read : Json → Except ShapeFault α} {p : α → Prop}
    {items : List Json} (h : ∀ j ∈ items, ∃ a, read j = .ok a ∧ p a) :
    ∃ found, readList read (.array items) = .ok found ∧ found.length = items.length ∧
      ∀ a ∈ found, p a := by
  show ∃ found, items.mapM read = .ok found ∧ _
  induction items with
  | nil => exact ⟨[], rfl, rfl, List.forall_mem_nil _⟩
  | cons j rest ih =>
    obtain ⟨⟨a, ha, hp⟩, hrest⟩ := List.forall_mem_cons.mp h
    obtain ⟨others, hothers, hlength, hall⟩ := ih hrest
    refine ⟨a :: others, ?_, ?_, List.forall_mem_cons.mpr ⟨hp, hall⟩⟩
    · rw [List.mapM_cons, ha, hothers]
      rfl
    · rw [List.length_cons, List.length_cons, hlength]

theorem readNat_of_isBelow {bound : Nat} {j : Json} (h : j.IsBelow bound) (expected : Expected) :
    ∃ n, readNat bound expected j = .ok n := by
  obtain ⟨n, hn, rfl⟩ := h
  have hrange : (0 : Int) ≤ n ∧ (n : Int) < bound := by omega
  exact ⟨n, if_pos hrange⟩

theorem exists_sequential (h : isSequential (.object members) = true) :
    ∃ s, readSelection (.object members) = .ok s := by
  simp only [isSequential, Bool.and_eq_true, requires, Option.isSome_iff_exists,
    membersAll_iff] at h
  obtain ⟨⟨-, method, hmethod⟩, hmembers⟩ := h
  have hmember := hmembers _ (Fields.mem_of_get?_eq_some hmethod)
  obtain ⟨s, hs, rfl⟩ := exists_of_isOneOf (Bool.and_eq_true_iff.mp hmember).2
  obtain rfl := List.mem_singleton.mp hs
  have hsplit : selectionForm.split true id (.named members) = .ok (0, .named members) :=
    selectionForm.split_eq_ok hmethod rfl
  refine ⟨.sequential, ?_⟩
  simp only [readSelection, parts?, hsplit, bind, Except.bind, pure, Except.pure]

theorem exists_put_count {name : String} {j : Json} (h : subsetMember name j = true)
    (hreadable : Json.MemberReadable name j) (d : Option Nat) :
    ∃ d', putCount d name j = .ok d' := by
  unfold subsetMember at h
  split at h
  · exact ⟨d, rfl⟩
  · obtain ⟨n, hn⟩ := readNat_of_isBelow (Json.isBelow_of_count hreadable) .size
    refine ⟨some n, ?_⟩
    simp only [putCount, readSize, hn]
    rfl
  · cases h

theorem exists_subset (h : isSubset (.object members) = true)
    (hascending : Fields.Ascending members)
    (hreadable : Json.MembersReadable members) :
    ∃ s, readSelection (.object members) = .ok s := by
  simp only [isSubset, Bool.and_eq_true, requires, Option.isSome_iff_exists, membersAll_iff] at h
  obtain ⟨⟨⟨-, method, hmethod⟩, n, hn⟩, hmembers⟩ := h
  have hmember := hmembers _ (Fields.mem_of_get?_eq_some hmethod)
  obtain ⟨s, hs, rfl⟩ := exists_of_isOneOf hmember
  obtain rfl := List.mem_singleton.mp hs
  have hsplit : selectionForm.split true id (.named members) = .ok (1, .named members) :=
    selectionForm.split_eq_ok hmethod rfl
  obtain ⟨draft, hdraft⟩ := exists_foldlM_eq_ok (fun member hmem =>
    exists_put_count (hmembers member hmem) (Json.membersReadable_iff.mp hreadable member hmem))
    none
  have hcount := count_of_foldlM hdraft
  rw [Fields.last?_eq_get? hascending, hn] at hcount
  obtain ⟨k, -, hk⟩ := exists_of_map_eq_ok hcount
  have hfinish : finishCount draft = .ok (.randomSubset k) := by
    rw [← hk]
    rfl
  refine ⟨.randomSubset k, ?_⟩
  simp only [readSelection, parts?, hsplit, bind, Except.bind]
  exact RecordForm.read_eq_ok subsetForm hdraft hfinish

theorem exists_selection {j : Json} (h : isSelection j = true) (hordered : j.Ordered)
    (hreadable : j.Readable) : ∃ s, readSelection j = .ok s := by
  cases j with
  | object members =>
    cases hsequential : isSequential (.object members) with
    | true => exact exists_sequential hsequential
    | false =>
      rw [isSelection, hsequential, Bool.false_bne] at h
      exact exists_subset h hordered.1 hreadable.2
  | _ => cases h

end

end Document.Schema

end Questionnaire
