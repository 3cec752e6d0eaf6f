import Mathlib.Data.List.MinMax
import Questionnaire.Evaluation
import Questionnaire.Expression.Build
import Questionnaire.Proofs.Assembled
import Questionnaire.Proofs.Attributes

/-! The scalars among the attributes of a response document by their addresses, the names on the way
joined with dots: which of them `getAttribute(getContext(), address)` gives. -/
namespace Questionnaire

namespace Text

/-- Of the keys that lead to a path one is the longest. -/
theorem exists_longest {fields : List (String × Json)} {path : String}
    (h : ∃ a ∈ fields, LeadsTo a.1 path) :
    ∃ a ∈ fields, LeadsTo a.1 path ∧
      ∀ b ∈ fields, LeadsTo b.1 path → (segments b.1).length ≤ (segments a.1).length := by
  let leading := fields.filter fun a => LeadsTo a.1 path
  have hmem : ∀ {a}, a ∈ leading ↔ a ∈ fields ∧ LeadsTo a.1 path := by simp [leading]
  obtain ⟨first, hfirst, hleads⟩ := h
  have hne : leading.argmax (fun a => (segments a.1).length) ≠ none := fun hnone =>
    List.ne_nil_of_mem (hmem.mpr ⟨hfirst, hleads⟩) (List.argmax_eq_none.mp hnone)
  obtain ⟨a, ha⟩ := Option.ne_none_iff_exists'.mp hne
  obtain ⟨hfields, hleads⟩ := hmem.mp (List.argmax_mem ha)
  have hmax := fun b (hb : b ∈ leading) => List.le_of_mem_argmax hb ha
  exact ⟨a, hfields, hleads, fun b hb hbleads => hmax b (hmem.mpr ⟨hb, hbleads⟩)⟩

/-- A key that goes on from another says what is at an address, on the way to it, or beyond it. -/
def Overrides (other key address : String) : Prop :=
  GoesOnFrom other key ∧ (LeadsTo other address ∨ LeadsTo address other)

instance (other key address : String) : Decidable (Overrides other key address) :=
  inferInstanceAs
    (Decidable (GoesOnFrom other key ∧ (LeadsTo other address ∨ LeadsTo address other)))

end Text

open Text

namespace Json

mutual

/-- The scalars in a value, each with the names of the members on the way to it. An array, which no
attribute may hold, is not looked into. -/
def scalars : Json → List (List String × Json)
  | .array _ => []
  | .object members => memberScalars members
  | j => [([], j)]

def memberScalars : List (String × Json) → List (List String × Json)
  | [] => []
  | (name, j) :: rest => (scalars j).map (fun s => (name :: s.1, s.2)) ++ memberScalars rest

end

theorem mem_memberScalars_cons {name : String} {j : Json} {rest : List (String × Json)}
    {s : List String × Json} :
    s ∈ memberScalars ((name, j) :: rest) ↔
      (∃ names, (names, s.2) ∈ j.scalars ∧ s.1 = name :: names) ∨ s ∈ memberScalars rest := by
  rw [memberScalars, List.mem_append]
  refine or_congr_left ⟨fun h => ?_, fun ⟨names, hmem, heq⟩ => ?_⟩
  · obtain ⟨t, ht, rfl⟩ := List.mem_map.mp h
    exact ⟨t.1, ht, rfl⟩
  · exact List.mem_map.mpr ⟨(names, s.2), hmem, Prod.ext heq.symm rfl⟩

/-- The way to a scalar begins with the member that holds it. -/
theorem mem_memberScalars_iff {members : List (String × Json)} {s : List String × Json} :
    s ∈ memberScalars members ↔
      ∃ member ∈ members, ∃ names, (names, s.2) ∈ member.2.scalars ∧ s.1 = member.1 :: names := by
  induction members with
  | nil => simp [memberScalars]
  | cons member rest ih => rw [mem_memberScalars_cons, ih, List.exists_mem_cons_iff]

end Json

namespace Value
open Json (memberScalars)

theorem walk_cons_record (name : String) (names : List String) (first : String × Value)
    (rest : List (String × Value)) :
    walk (name :: names) (.record (first :: rest)) =
      if first.1 = name then walk names first.2 else walk (name :: names) (.record rest) := by
  rw [walk, walk, Fields.get?]
  split <;> rfl

mutual

/-- On the way to a scalar there is its value. -/
theorem exists_walk_of_mem_scalars (j : Json) (hj : j.Ordered) {v : Value} (h : ofJson j = .ok v)
    {names : List String} {raw : Json} (hmem : (names, raw) ∈ j.scalars) :
    ∃ w, ofJson raw = .ok w ∧ w.kind ≠ .record ∧ walk names v = some w := by
  cases j with
  | object members =>
    obtain ⟨fields, hfields, rfl⟩ := exists_of_map_eq_ok h
    exact exists_walk_of_mem_memberScalars members hj.1 hj.2 hfields hmem
  | array items => cases hmem
  | number n =>
    obtain ⟨d, -, rfl⟩ := exists_of_map_eq_ok h
    obtain ⟨rfl, rfl⟩ := Prod.mk.inj (List.mem_singleton.mp hmem)
    exact ⟨_, h, nofun, rfl⟩
  | _ =>
    obtain rfl := Except.ok.inj h
    obtain ⟨rfl, rfl⟩ := Prod.mk.inj (List.mem_singleton.mp hmem)
    exact ⟨_, rfl, nofun, rfl⟩

theorem exists_walk_of_mem_memberScalars (members : List (String × Json))
    (hascending : Fields.Ascending members) (hmembers : Json.MembersOrdered members)
    {fields : List (String × Value)} (h : ofMembers members = .ok fields) {names : List String}
    {raw : Json} (hmem : (names, raw) ∈ memberScalars members) :
    ∃ w, ofJson raw = .ok w ∧ w.kind ≠ .record ∧ walk names (.record fields) = some w := by
  cases members with
  | nil => cases hmem
  | cons member rest =>
    obtain ⟨name, j⟩ := member
    obtain ⟨hfirst, hrest⟩ := List.pairwise_cons.mp hascending
    obtain ⟨v, hv, h⟩ := exists_of_bind_eq_ok h
    obtain ⟨others, hothers, h⟩ := exists_of_bind_eq_ok h
    obtain rfl := Except.ok.inj h
    rcases Json.mem_memberScalars_cons.mp hmem with ⟨below, hbelow, rfl⟩ | hmem
    · rw [walk_cons_record, if_pos rfl]
      exact exists_walk_of_mem_scalars j hmembers.1 hv hbelow
    -- The names ascend, so that a later member is not found under the first name.
    · have hwalk := exists_walk_of_mem_memberScalars rest hrest hmembers.2 hothers hmem
      obtain ⟨found, hfound, below, -, rfl⟩ := Json.mem_memberScalars_iff.mp hmem
      have hne : name ≠ found.1 := String.ne_of_lt (hfirst found hfound)
      rw [walk_cons_record, if_neg hne]
      exact hwalk

end

mutual

/-- What is found on a way and is no record is the value of the scalar there. -/
theorem mem_scalars_of_walk (j : Json) {v w : Value} (h : ofJson j = .ok v) {names : List String}
    (hwalk : walk names v = some w) (hw : w.kind ≠ .record) :
    ∃ raw, (names, raw) ∈ j.scalars ∧ ofJson raw = .ok w := by
  cases j with
  | object members =>
    obtain ⟨fields, hfields, rfl⟩ := exists_of_map_eq_ok h
    exact mem_memberScalars_of_walk members hfields hwalk hw
  | array items => cases h
  | number n =>
    obtain ⟨d, -, rfl⟩ := exists_of_map_eq_ok h
    cases names with
    | nil =>
      obtain rfl := Option.some.inj hwalk
      exact ⟨_, List.mem_singleton_self _, h⟩
    | cons => cases hwalk
  | _ =>
    obtain rfl := Except.ok.inj h
    cases names with
    | nil =>
      obtain rfl := Option.some.inj hwalk
      exact ⟨_, List.mem_singleton_self _, rfl⟩
    | cons => cases hwalk

theorem mem_memberScalars_of_walk (members : List (String × Json))
    {fields : List (String × Value)} (h : ofMembers members = .ok fields) {names : List String}
    {w : Value} (hwalk : walk names (.record fields) = some w) (hw : w.kind ≠ .record) :
    ∃ raw, (names, raw) ∈ memberScalars members ∧ ofJson raw = .ok w := by
  cases names with
  | nil =>
    obtain rfl := Option.some.inj hwalk
    exact absurd rfl hw
  | cons first below =>
    cases members with
    | nil =>
      obtain rfl := Except.ok.inj h
      cases hwalk
    | cons member rest =>
      obtain ⟨name, j⟩ := member
      obtain ⟨v, hv, h⟩ := exists_of_bind_eq_ok h
      obtain ⟨others, hothers, h⟩ := exists_of_bind_eq_ok h
      obtain rfl := Except.ok.inj h
      rw [walk_cons_record] at hwalk
      split at hwalk
      · next hname =>
        obtain rfl : name = first := hname
        obtain ⟨raw, hmem, hread⟩ := mem_scalars_of_walk j hv hwalk hw
        exact ⟨raw, Json.mem_memberScalars_cons.mpr (.inl ⟨below, hmem, rfl⟩), hread⟩
      · obtain ⟨raw, hmem, hread⟩ := mem_memberScalars_of_walk rest hothers hwalk hw
        exact ⟨raw, Json.mem_memberScalars_cons.mpr (.inr hmem), hread⟩

end

end Value

namespace Written

/-- The scalars among the attributes, with the key of the attribute first on the way. -/
def scalars (document : Json) : List (List String × Json) :=
  Json.memberScalars (attributes document)

/-- No address of a scalar leads to that of another. -/
def AddressesApart (document : Json) : Prop :=
  ∀ s ∈ scalars document, ∀ t ∈ scalars document, s.1 ≠ t.1 →
    ¬ LeadsTo (address s.1) (address t.1)

instance (document : Json) : Decidable (AddressesApart document) :=
  inferInstanceAs (Decidable (∀ s ∈ scalars document, ∀ t ∈ scalars document, s.1 ≠ t.1 →
    ¬ LeadsTo (address s.1) (address t.1)))

/-- Some key overrides what another says at an address. -/
def Overridden (document : Json) (key address : String) : Prop :=
  ∃ a ∈ attributes document, Overrides a.1 key address

instance (document : Json) (key address : String) : Decidable (Overridden document key address) :=
  inferInstanceAs (Decidable (∃ a ∈ attributes document, Overrides a.1 key address))

end Written

namespace Context
open Written

theorem get?_rootFields (ctx : Context) {name : String}
    (hparticipant : ctx.participantId.isSome → "participantId" ≠ name)
    (htime : "evaluationTime" ≠ name) :
    Fields.get? name ctx.rootFields = Fields.get? name ctx.attributes := by
  unfold rootFields
  rw [Fields.get?_insert_of_ne _ _ htime]
  cases hid : ctx.participantId with
  | none => rfl
  | some id => exact Fields.get?_insert_of_ne _ _ (hparticipant (Option.isSome_of_eq_some hid))

/-- But for the two names that are not attributes, the root record has the attributes. Without a
participant there is but one such name. -/
theorem walk_rootRecord (ctx : Context) {path : String}
    (hparticipant : ctx.participantId.isSome → ¬ LeadsTo "participantId" path)
    (htime : ¬ LeadsTo "evaluationTime" path) :
    Value.walk (segments path) ctx.rootRecord = ctx.attribute? path := by
  rw [attribute?]
  unfold LeadsTo at hparticipant htime
  rw [segments_of_undotted (by decide)] at hparticipant htime
  obtain ⟨segment, rest, hsegments⟩ := List.exists_cons_of_ne_nil (segments_ne_nil path)
  rw [hsegments] at hparticipant htime ⊢
  rw [rootRecord, walk_cons, walk_cons, get?_rootFields ctx]
  · rintro hid rfl
    exact hparticipant hid (List.prefix_append [_] rest)
  · rintro rfl
    exact htime (List.prefix_append [_] rest)

/-- A key that goes on from a path makes a record there. -/
theorem attribute?_addAttribute_of_goesOnFrom {ctx ctx' : Context} {key path : String} {raw : Json}
    (h : addAttribute ctx (key, raw) = .ok ctx') (hon : GoesOnFrom key path) :
    ∃ fields, ctx'.attribute? path = some (.record fields) := by
  obtain ⟨v, -, h⟩ := exists_of_bind_eq_ok h
  obtain rfl := Except.ok.inj h
  obtain ⟨⟨rest, hrest⟩, hne⟩ := hon
  have hrest' : rest ≠ [] := by
    rintro rfl
    exact hne (hrest.symm.trans (List.append_nil _))
  change ∃ fields, Value.walk _ (.record (insertAt v (segments key) _)) = _
  rw [← hrest]
  exact walk_insertAt_above v _ hrest' _

section
variable {document : Json} {now : Int64} {ctx : Context} (hdocument : document.Ordered)
  (h : ofJson document now = .ok ctx)
include hdocument h

/-- There is a record at a path that some key goes on from: the keys that could replace it come
before that key. -/
theorem exists_record_of_goesOnFrom {a : String × Json} (ha : a ∈ Written.attributes document)
    {path : String} (hon : GoesOnFrom a.1 path) :
    ∃ fields, ctx.attribute? path = some (.record fields) := by
  obtain ⟨start, attributed, hadd, -, hattributes⟩ := exists_attributed h
  have hascending := Document.Response.ascending_attributes hdocument
  obtain ⟨before, after, hsplit⟩ := List.append_of_mem ha
  rw [hsplit] at hadd hascending
  obtain ⟨earlier, next, hnext, hadd⟩ := exists_of_foldlM_append_cons hadd
  have hlater : ∀ b ∈ after, a.1 < b.1 :=
    (List.pairwise_cons.mp (List.pairwise_append.mp hascending).2.1).1
  rw [attribute?, hattributes]
  refine holds_of_foldlM (p := fun ctx => ∃ fields, ctx.attribute? path = some (.record fields))
    (fun b hb d d' hd hstep => ?_) (attribute?_addAttribute_of_goesOnFrom hnext hon) hadd
  have hnot : ¬ LeadsTo b.1 path := by
    intro hleads
    have hlt := hlater b hb
    have hne : b.1 ≠ a.1 := (String.ne_of_lt hlt).symm
    exact String.lt_asymm hlt (lt_of_leadsTo (hleads.trans hon.1) hne)
  by_cases hback : LeadsTo path b.1
  · have hbon : GoesOnFrom b.1 path := by_contra fun hbon => hnot (hback.of_back hbon)
    exact attribute?_addAttribute_of_goesOnFrom hstep hbon
  · rw [attribute?_addAttribute_of_apart hstep hnot hback]
    exact hd

/-- In a document that makes a context every scalar among the attributes has a value. -/
theorem exists_ofJson_of_mem_scalars {s : List String × Json} (hmem : s ∈ scalars document) :
    ∃ v, Value.ofJson s.2 = .ok v ∧ v.kind ≠ .record := by
  obtain ⟨start, attributed, hadd, -, -⟩ := exists_attributed h
  obtain ⟨a, ha, names, hbelow, -⟩ := Json.mem_memberScalars_iff.mp hmem
  have hconvertible := exists_addAttributes_iff.mp ⟨attributed, hadd⟩ a ha
  obtain ⟨value, hvalue⟩ := (Value.exists_ofJson_iff a.2).mpr hconvertible
  have hordered := Document.Response.ordered_of_mem_attributes hdocument ha
  obtain ⟨v, hv, hscalar, -⟩ := Value.exists_walk_of_mem_scalars a.2 hordered hvalue hbelow
  exact ⟨v, hv, hscalar⟩

/-- A scalar that no key overrides is found at its address. -/
theorem attribute?_of_mem_scalars {key : String} {names : List String} {raw : Json}
    (hmem : (key :: names, raw) ∈ scalars document) (hnames : ∀ name ∈ names, '.' ∉ name.toList)
    (hkept : ¬ Overridden document key (address (key :: names))) :
    ∃ v, Value.ofJson raw = .ok v ∧ v.kind ≠ .record ∧
      ctx.attribute? (address (key :: names)) = some v := by
  obtain ⟨⟨name, j⟩, hmember, below, hbelow, heq⟩ := Json.mem_memberScalars_iff.mp hmem
  obtain ⟨rfl, rfl⟩ := List.cons.inj heq
  have hsegments := segments_address_of_undotted key hnames
  generalize address (key :: names) = path at hsegments hkept ⊢
  have hkey : LeadsTo key path := ⟨names, hsegments.symm⟩
  have hpath : ∀ a ∈ Written.attributes document, ¬ GoesOnFrom a.1 path :=
    fun a ha hon => hkept ⟨a, ha, hon.of_leadsTo hkey, .inr hon.1⟩
  have hlongest : ∀ a ∈ Written.attributes document, LeadsTo a.1 path →
      (segments a.1).length ≤ (segments key).length := by
    intro a ha hleads
    by_contra hlonger
    have hback : LeadsTo key a.1 :=
      List.prefix_of_prefix_length_le hkey hleads (Nat.le_of_not_le hlonger)
    exact hkept ⟨a, ha, ⟨hback, fun hsame => hlonger (hsame ▸ Nat.le_refl _)⟩, .inl hleads⟩
  obtain ⟨value, hvalue, hwalk⟩ :=
    exists_attribute?_of_longest hdocument h hpath hmember hkey hlongest
  have hordered := Document.Response.ordered_of_mem_attributes hdocument hmember
  obtain ⟨v, hv, hscalar, hfound⟩ :=
    Value.exists_walk_of_mem_scalars j hordered hvalue hbelow
  refine ⟨v, hv, hscalar, hwalk.trans ?_⟩
  rw [hsegments, List.drop_left]
  exact hfound

/-- Where a scalar is found, the longest key that leads there is the one that holds it. -/
theorem mem_scalars_of_attribute? {key path : String} {raw : Json} {v : Value}
    (hpath : ∀ a ∈ Written.attributes document, ¬ GoesOnFrom a.1 path)
    (hmem : (key, raw) ∈ Written.attributes document) (hkey : LeadsTo key path)
    (hlongest : ∀ a ∈ Written.attributes document, LeadsTo a.1 path →
      (segments a.1).length ≤ (segments key).length)
    (hv : ctx.attribute? path = some v) (hscalar : v.kind ≠ .record) :
    ∃ names scalar, (key :: names, scalar) ∈ scalars document ∧
      address (key :: names) = path := by
  obtain ⟨value, hvalue, hwalk⟩ := exists_attribute?_of_longest hdocument h hpath hmem hkey hlongest
  obtain ⟨names, hnames⟩ := hkey
  rw [hv, ← hnames, List.drop_left] at hwalk
  obtain ⟨scalar, hbelow, -⟩ := Value.mem_scalars_of_walk raw hvalue hwalk.symm hscalar
  refine ⟨names, scalar, Json.mem_memberScalars_iff.mpr ⟨_, hmem, names, hbelow, rfl⟩, ?_⟩
  have hundotted : ∀ name ∈ names, '.' ∉ name.toList := fun name hname =>
    undotted_of_mem_segments (hnames ▸ List.mem_append_right _ hname)
  exact eq_of_segments_eq ((segments_address_of_undotted key hundotted).trans hnames)

/-- Among addresses that are apart, a scalar that is found is not overridden. -/
theorem not_overridden_of_attribute? (hapart : AddressesApart document) {key : String}
    {names : List String} {raw : Json} (hmem : (key :: names, raw) ∈ scalars document) {v : Value}
    (hv : ctx.attribute? (address (key :: names)) = some v) (hscalar : v.kind ≠ .record) :
    ¬ Overridden document key (address (key :: names)) := by
  rintro ⟨other, hother, hon, hat⟩
  have hpath : ∀ a ∈ Written.attributes document, ¬ GoesOnFrom a.1 (address (key :: names)) := by
    intro a ha hbeyond
    obtain ⟨fields, hfields⟩ := exists_record_of_goesOnFrom hdocument h ha hbeyond
    obtain rfl := Option.some.inj (hv.symm.trans hfields)
    exact hscalar rfl
  have hleads : LeadsTo other.1 (address (key :: names)) :=
    hat.elim id fun hback => hback.of_back (hpath other hother)
  -- The longest key that leads there holds a scalar of the same address, so it is the key itself.
  obtain ⟨longest, hlongest, hlongestLeads, hmax⟩ := exists_longest ⟨other, hother, hleads⟩
  obtain ⟨below, scalar, hfound, haddress⟩ :=
    mem_scalars_of_attribute? hdocument h hpath hlongest hlongestLeads hmax hv hscalar
  have hsame : longest.1 :: below = key :: names := by
    by_contra hne
    exact hapart _ hfound _ hmem hne (haddress ▸ List.prefix_rfl)
  obtain ⟨hkey, -⟩ := List.cons.inj hsame
  rw [hkey] at hmax
  exact hon.2 (hon.1.eq_of_length_le (hmax other hother hleads)).symm

end

end Context

namespace Expression
open Written

/-- An attribute is looked up in the root record just as in the context. -/
theorem evaluate_getAttribute_iff {ctx : Context} {path : String} {v : Value}
    (hparticipant : ¬ LeadsTo "participantId" path) (htime : ¬ LeadsTo "evaluationTime" path) :
    (getAttribute getContext path).evaluate ctx = .ok v ↔ ctx.attribute? path = some v := by
  have hwalk := ctx.walk_rootRecord (fun _ => hparticipant) htime
  rw [Context.rootRecord] at hwalk
  change Operator.getAttribute.field (.record ctx.rootFields) path = _ ↔ _
  simp only [Operator.field, hwalk]
  cases ctx.attribute? path <;> simp

/-- A scalar among the attributes is what `getAttribute(getContext(), address)` gives for its
address, with dots in the key of its attribute or without, unless another key goes on from that key
and says what is at the address, on the way to it, or beyond it: such a key comes later and replaces
what was there. Another document that has the scalar at that address, written in whatever way, and
does not replace it gives the same. Names with dots below the key are left out here: only keys are
split. -/
theorem getAttribute_of_document {document : Json} {now : Int64} {ctx : Context}
    (hdocument : document.Ordered) (h : Context.ofJson document now = .ok ctx)
    (hapart : AddressesApart document) {key : String} {names : List String} {raw : Json}
    (hmem : (key :: names, raw) ∈ scalars document) (hnames : ∀ name ∈ names, '.' ∉ name.toList)
    (hparticipant : ¬ LeadsTo "participantId" (address (key :: names)))
    (htime : ¬ LeadsTo "evaluationTime" (address (key :: names))) :
    ∃ v, Value.ofJson raw = .ok v ∧
      ((getAttribute getContext (address (key :: names))).evaluate ctx = .ok v ↔
        ¬ Overridden document key (address (key :: names))) ∧
      ∀ other now' ctx' key' names', other.Ordered → Context.ofJson other now' = .ok ctx' →
        (key' :: names', raw) ∈ scalars other → (∀ name ∈ names', '.' ∉ name.toList) →
        address (key' :: names') = address (key :: names) →
        ¬ Overridden other key' (address (key :: names)) →
        (getAttribute getContext (address (key :: names))).evaluate ctx' = .ok v := by
  obtain ⟨v, hv, hscalar⟩ := Context.exists_ofJson_of_mem_scalars hdocument h hmem
  refine ⟨v, hv, ?_, ?_⟩
  · rw [evaluate_getAttribute_iff hparticipant htime]
    constructor
    · intro hattribute
      exact Context.not_overridden_of_attribute? hdocument h hapart hmem hattribute hscalar
    · intro hkept
      obtain ⟨w, hw, -, hattribute⟩ :=
        Context.attribute?_of_mem_scalars hdocument h hmem hnames hkept
      obtain rfl := Except.ok.inj (hv.symm.trans hw)
      exact hattribute
  · intro other now' ctx' key' names' hother hctx' hmem' hnames' hsame hkept
    rw [evaluate_getAttribute_iff hparticipant htime, ← hsame]
    obtain ⟨w, hw, -, hattribute⟩ :=
      Context.attribute?_of_mem_scalars hother hctx' hmem' hnames' (hsame ▸ hkept)
    obtain rfl := Except.ok.inj (hv.symm.trans hw)
    exact hattribute

/-- Two attributes of which one key goes on from the other, and the same with dotted keys alone. -/
def nestedMode : Json :=
  .object [("attributes", .object [("mode", .object [("level", .int 3)]),
    ("mode.kind", .string "b")])]

def dottedMode : Json :=
  .object [("attributes", .object [("mode.kind", .string "b"), ("mode.level", .int 3)])]

/-- The context of either. -/
def modeContext : Context :=
  ⟨[], [("mode", .record [("kind", .text "b"), ("level", .int 3)])], none, 0⟩

theorem level_given_from_both :
    nestedMode.Ordered ∧ AddressesApart nestedMode ∧
      (["mode", "level"], .int 3) ∈ scalars nestedMode ∧
      (["mode.level"], .int 3) ∈ scalars dottedMode ∧
      ∃ nested dotted, Context.ofJson nestedMode 0 = .ok nested ∧
        Context.ofJson dottedMode 0 = .ok dotted ∧
        (getAttribute getContext "mode.level").evaluate nested = .ok (.int 3) ∧
        (getAttribute getContext "mode.level").evaluate dotted = .ok (.int 3) := by
  have hordered : nestedMode.Ordered := by decide +kernel
  have hapart : AddressesApart nestedMode := by decide +kernel
  have hnested : (["mode", "level"], .int 3) ∈ scalars nestedMode := List.mem_cons_self
  have hdotted : (["mode.level"], .int 3) ∈ scalars dottedMode :=
    List.mem_cons_of_mem _ List.mem_cons_self
  have hread : Context.ofJson nestedMode 0 = .ok modeContext := rfl
  have haddress : address ["mode", "level"] = "mode.level" := by decide
  obtain ⟨v, hv, hiff, hsame⟩ := getAttribute_of_document hordered hread hapart hnested
    (by decide) (by decide +kernel) (by decide +kernel)
  obtain rfl := Except.ok.inj hv
  rw [haddress] at hiff hsame
  refine ⟨hordered, hapart, hnested, hdotted, modeContext, modeContext, rfl, rfl,
    hiff.mpr (by decide +kernel), ?_⟩
  exact hsame dottedMode 0 modeContext "mode.level" [] (by decide +kernel) rfl hdotted nofun
    (by decide) (by decide +kernel)

/-- A scalar with a longer key through it, one with an empty record in its place, and one below a
name with a dot in a record. -/
def replacedScalars : Json :=
  .object [("attributes", .object [("a", .object [("b", .object [("x", .int 1)])]),
    ("a.b", .object [("y", .int 2)]), ("c", .int 3), ("c.d", .object []),
    ("e", .object [("f.g", .int 4)])])]

def replacedContext : Context :=
  ⟨[], [("a", .record [("b", .record [("y", .int 2)])]), ("c", .record [("d", .record [])]),
    ("e", .record [("f.g", .int 4)])], none, 0⟩

/-- None of the three is given for its address, though no address leads to another. -/
theorem replaced_scalars_not_given :
    replacedScalars.Ordered ∧ Context.ofJson replacedScalars 0 = .ok replacedContext ∧
      AddressesApart replacedScalars ∧
      scalars replacedScalars = [(["a", "b", "x"], .int 1), (["a.b", "y"], .int 2),
        (["c"], .int 3), (["e", "f.g"], .int 4)] ∧
      (getAttribute getContext (address ["a", "b", "x"])).evaluate replacedContext =
        .error (.missingAttribute "a.b.x") ∧
      (getAttribute getContext (address ["c"])).evaluate replacedContext =
        .ok (.record [("d", .record [])]) ∧
      (getAttribute getContext (address ["e", "f.g"])).evaluate replacedContext =
        .error (.missingAttribute "e.f.g") :=
  ⟨by decide +kernel, rfl, by decide +kernel, rfl, rfl, rfl, rfl⟩

end Expression

end Questionnaire
