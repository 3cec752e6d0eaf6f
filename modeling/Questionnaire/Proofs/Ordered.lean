import Questionnaire.Json.Reader
import Questionnaire.Proofs.Records

/-! The objects that are read from a text have their members in ascending order. -/
namespace Questionnaire

namespace Fields
variable {α : Type}

/-- The names are ascending, each at most once. -/
def Ascending (fields : Fields α) : Prop := fields.Pairwise fun a b => a.1 < b.1

instance (fields : Fields α) : Decidable fields.Ascending :=
  inferInstanceAs (Decidable (fields.Pairwise fun a b => a.1 < b.1))

theorem eq_or_mem_of_mem_insert {name : String} {value : α} {fields : Fields α}
    {field : String × α} (h : field ∈ insert name value fields) :
    field = (name, value) ∨ field ∈ fields := by
  induction fields with
  | nil => exact .inl (List.mem_singleton.mp h)
  | cons first rest ih =>
    unfold insert at h
    split at h
    · exact (List.mem_cons.mp h).imp_right (List.mem_cons_of_mem first)
    · split at h
      · exact List.mem_cons.mp h
      · rcases List.mem_cons.mp h with rfl | h
        · exact .inr List.mem_cons_self
        · exact (ih h).imp_right (List.mem_cons_of_mem first)

theorem ascending_insert (name : String) (value : α) {fields : Fields α} (h : fields.Ascending) :
    (insert name value fields).Ascending := by
  induction fields with
  | nil => exact List.pairwise_singleton _ _
  | cons first rest ih =>
    obtain ⟨hfirst, hrest⟩ := List.pairwise_cons.mp h
    unfold insert
    split
    · next heq =>
      obtain rfl := heq
      exact List.pairwise_cons.mpr ⟨hfirst, hrest⟩
    · next hne =>
      split
      · next hlt =>
        refine List.pairwise_cons.mpr ⟨fun field hfield => ?_, h⟩
        rcases List.mem_cons.mp hfield with rfl | hfield
        · exact hlt
        · exact String.lt_trans hlt (hfirst field hfield)
      · next hlt =>
        have hbefore : first.1 < name :=
          ((Std.lt_trichotomy first.1 name).resolve_right fun h => h.elim hne hlt)
        refine List.pairwise_cons.mpr ⟨fun field hfield => ?_, ih hrest⟩
        rcases eq_or_mem_of_mem_insert hfield with rfl | hfield
        · exact hbefore
        · exact hfirst field hfield

theorem mem_of_get?_eq_some {name : String} {fields : Fields α} {a : α}
    (h : get? name fields = some a) : (name, a) ∈ fields := by
  induction fields with
  | nil => cases h
  | cons field rest ih =>
    obtain ⟨n, b⟩ := field
    rw [get?] at h
    split at h
    · next hn =>
      obtain rfl := Option.some.inj h
      rw [hn]
      exact List.mem_cons_self
    · exact List.mem_cons_of_mem _ (ih h)

theorem get?_eq_some_iff {fields : Fields α} (h : fields.Ascending) {name : String} {a : α} :
    get? name fields = some a ↔ (name, a) ∈ fields := by
  refine ⟨mem_of_get?_eq_some, fun hmem => ?_⟩
  induction fields with
  | nil => cases hmem
  | cons field rest ih =>
    obtain ⟨n, b⟩ := field
    obtain ⟨hfirst, hrest⟩ := List.pairwise_cons.mp h
    rw [get?]
    rcases List.mem_cons.mp hmem with heq | hmem
    · obtain ⟨rfl, rfl⟩ := Prod.mk.inj heq
      rw [if_pos rfl]
    · have hne : n ≠ name := String.ne_of_lt (hfirst (name, a) hmem)
      rw [if_neg hne]
      exact ih hrest hmem

/-- A name that is there once is found from both ends. -/
theorem last?_eq_get? {fields : Fields α} (h : fields.Ascending) (name : String) :
    last? name fields = get? name fields := by
  induction fields with
  | nil => rfl
  | cons field rest ih =>
    obtain ⟨n, v⟩ := field
    obtain ⟨hfirst, hrest⟩ := List.pairwise_cons.mp h
    rw [last?, get?]
    by_cases hn : n = name
    · have hlater : last? name rest = none := by
        cases hlast : last? name rest with
        | none => rfl
        | some w =>
          have hlt : n < name := hfirst _ (mem_of_last?_eq_some hlast)
          exact absurd (hn ▸ hlt) (String.lt_irrefl name)
      rw [hlater, if_pos hn, if_pos hn]
      rfl
    · rw [if_neg hn, if_neg hn, ih hrest]
      exact Option.or_none

end Fields

namespace Json

mutual

/-- Every object in a value has its members in ascending order. -/
def Ordered : Json → Prop
  | .array items => AllOrdered items
  | .object members => Fields.Ascending members ∧ MembersOrdered members
  | _ => True

def AllOrdered : List Json → Prop
  | [] => True
  | j :: rest => Ordered j ∧ AllOrdered rest

def MembersOrdered : List (String × Json) → Prop
  | [] => True
  | (_, j) :: rest => Ordered j ∧ MembersOrdered rest

end

mutual

def decideOrdered : (j : Json) → Decidable j.Ordered
  | .null | .bool _ | .number _ | .string _ => .isTrue trivial
  | .array items => decideAllOrdered items
  | .object members =>
    have := decideMembersOrdered members
    inferInstanceAs (Decidable (Fields.Ascending members ∧ MembersOrdered members))

def decideAllOrdered : (items : List Json) → Decidable (AllOrdered items)
  | [] => .isTrue trivial
  | j :: rest =>
    have := decideOrdered j
    have := decideAllOrdered rest
    inferInstanceAs (Decidable (Ordered j ∧ AllOrdered rest))

def decideMembersOrdered : (members : List (String × Json)) → Decidable (MembersOrdered members)
  | [] => .isTrue trivial
  | (_, j) :: rest =>
    have := decideOrdered j
    have := decideMembersOrdered rest
    inferInstanceAs (Decidable (Ordered j ∧ MembersOrdered rest))

end

instance (j : Json) : Decidable j.Ordered := decideOrdered j

theorem allOrdered_iff {items : List Json} : AllOrdered items ↔ ∀ j ∈ items, j.Ordered :=
  iff_forall_of_recursion trivial (fun _ _ => Iff.rfl) items

theorem membersOrdered_iff {members : List (String × Json)} :
    MembersOrdered members ↔ ∀ member ∈ members, member.2.Ordered :=
  iff_forall_of_recursion trivial (fun _ _ => Iff.rfl) members

section
variable {value : ValueReader} (hvalue : ∀ {s j rest}, value s = .ok (j, rest) → j.Ordered)
include hvalue

theorem ordered_of_readItems {read items : List Json} {limit : Nat} {s rest : List Char}
    (hread : ∀ j ∈ read, j.Ordered) (h : readItems value read limit s = .ok (items, rest)) :
    ∀ j ∈ items, j.Ordered := by
  induction limit generalizing read s with
  | zero => cases h
  | succ limit ih =>
    unfold readItems at h
    split at h
    · cases h
    · obtain rfl := congrArg Prod.fst (Except.ok.inj h)
      exact fun j hj => hread j (List.mem_reverse.mp hj)
    · split at h
      · cases h
      · cases h
      · obtain ⟨⟨item, unread⟩, hitem, h⟩ := exists_of_bind_eq_ok h
        exact ih (List.forall_mem_cons.mpr ⟨hvalue hitem, hread⟩) h
    · cases h

theorem ordered_of_readArray {j : Json} {s rest : List Char}
    (h : readArray value s = .ok (j, rest)) : j.Ordered := by
  unfold readArray at h
  split at h
  · cases h
  · obtain rfl := congrArg Prod.fst (Except.ok.inj h)
    trivial
  · obtain ⟨⟨item, unread⟩, hitem, h⟩ := exists_of_bind_eq_ok h
    obtain ⟨⟨items, unread⟩, hitems, h⟩ := exists_of_bind_eq_ok h
    obtain rfl := congrArg Prod.fst (Except.ok.inj h)
    have hfirst : ∀ j ∈ [item], j.Ordered := List.forall_mem_singleton.mpr (hvalue hitem)
    exact allOrdered_iff.mpr (ordered_of_readItems hvalue hfirst hitems)

theorem ordered_of_readMember {member : String × Json} {s rest : List Char}
    (h : readMember value s = .ok (member, rest)) : member.2.Ordered := by
  obtain ⟨⟨name, unread⟩, -, h⟩ := exists_of_bind_eq_ok h
  dsimp only at h
  split at h
  · cases h
  · obtain ⟨⟨item, unread⟩, hitem, h⟩ := exists_of_bind_eq_ok h
    obtain rfl := congrArg Prod.fst (Except.ok.inj h)
    exact hvalue hitem
  · cases h

theorem ordered_of_readMembers {read members : Fields Json} {limit : Nat} {s rest : List Char}
    (hascending : read.Ascending) (hread : ∀ member ∈ read, member.2.Ordered)
    (h : readMembers value read limit s = .ok (members, rest)) :
    members.Ascending ∧ ∀ member ∈ members, member.2.Ordered := by
  induction limit generalizing read s with
  | zero => cases h
  | succ limit ih =>
    unfold readMembers at h
    split at h
    · cases h
    · obtain rfl := congrArg Prod.fst (Except.ok.inj h)
      exact ⟨hascending, hread⟩
    · split at h
      · cases h
      · obtain ⟨⟨⟨name, item⟩, unread⟩, hmember, h⟩ := exists_of_bind_eq_ok h
        have hitem := ordered_of_readMember hvalue hmember
        refine ih (Fields.ascending_insert name item hascending) (fun member hmem => ?_) h
        rcases Fields.eq_or_mem_of_mem_insert hmem with rfl | hmem
        · exact hitem
        · exact hread member hmem
      · cases h
      · cases h
    · cases h

theorem ordered_of_readObject {j : Json} {s rest : List Char}
    (h : readObject value s = .ok (j, rest)) : j.Ordered := by
  unfold readObject at h
  split at h
  · cases h
  · obtain rfl := congrArg Prod.fst (Except.ok.inj h)
    exact ⟨List.Pairwise.nil, trivial⟩
  · obtain ⟨⟨⟨name, item⟩, unread⟩, hmember, h⟩ := exists_of_bind_eq_ok h
    obtain ⟨⟨members, unread⟩, hmembers, h⟩ := exists_of_bind_eq_ok h
    obtain rfl := congrArg Prod.fst (Except.ok.inj h)
    have hfirst : ∀ member ∈ [(name, item)], member.2.Ordered :=
      List.forall_mem_singleton.mpr (ordered_of_readMember hvalue hmember)
    obtain ⟨hascending, hall⟩ :=
      ordered_of_readMembers hvalue (List.pairwise_singleton _ _) hfirst hmembers
    exact ⟨hascending, membersOrdered_iff.mpr hall⟩
  · cases h

end

theorem ordered_of_readScalar {j : Json} {s rest : List Char} (h : readScalar s = .ok (j, rest)) :
    j.Ordered := by
  unfold readScalar at h
  split at h
  case h_1 => cases h
  case h_7 =>
    split at h
    · obtain ⟨⟨n, unread⟩, -, h⟩ := exists_of_bind_eq_ok h
      obtain rfl := congrArg Prod.fst (Except.ok.inj h)
      trivial
    · cases h
  all_goals
    obtain ⟨_, -, h⟩ := exists_of_bind_eq_ok h
    obtain rfl := congrArg Prod.fst (Except.ok.inj h)
    trivial

theorem ordered_of_readValue {depth : Nat} {j : Json} {s rest : List Char}
    (h : readValue depth s = .ok (j, rest)) : j.Ordered := by
  induction depth generalizing j s rest with
  | zero =>
    unfold readValue at h
    split at h
    · cases h
    · cases h
    · contradiction
    · contradiction
    · exact ordered_of_readScalar h
  | succ depth ih =>
    unfold readValue at h
    split at h
    · contradiction
    · contradiction
    · next hdepth _ =>
      obtain rfl := Nat.succ.inj hdepth
      exact ordered_of_readArray ih h
    · next hdepth _ =>
      obtain rfl := Nat.succ.inj hdepth
      exact ordered_of_readObject ih h
    · exact ordered_of_readScalar h

/-- A text is read as a value with ordered objects. -/
theorem ordered_of_ofText {text : String} {j : Json} (h : ofText text = .ok j) : j.Ordered := by
  unfold ofText at h
  split at h
  · next k hk =>
    obtain rfl := Except.ok.inj h
    obtain ⟨⟨k, unread⟩, hvalue, hk⟩ := exists_of_bind_eq_ok hk
    dsimp only at hk
    split at hk
    · obtain rfl := Except.ok.inj hk
      exact ordered_of_readValue hvalue
    · cases hk
  · cases h

end Json

end Questionnaire
