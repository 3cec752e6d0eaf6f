import Questionnaire.Context
import Questionnaire.Item
import Questionnaire.Random.Sample
import Questionnaire.Random.Sha256

/-! The items that a group presents to a respondent. -/
namespace Questionnaire

/-- The seed for a group, from the context and the key of the group. -/
abbrev Seeder := Context → String → UInt64

namespace Seeder

/-- A seed from the identity of the participant and the key: the same items on every visit. -/
def digest : Seeder := fun ctx key =>
  (Sha256.digest ((ctx.participantId.getD "").toUTF8.toList ++ 0 :: key.toUTF8.toList)).seed

/-- One seed for all groups and respondents. -/
def fixed (seed : UInt64) : Seeder := fun _ _ => seed

def ofOption : Option UInt64 → Seeder
  | some seed => fixed seed
  | none => digest

end Seeder

/-- The items at some positions of a list, in the order of the list. -/
def keepAt {α : Type} (positions : List Nat) (start : Nat) : List α → List α
  | [] => []
  | x :: rest =>
    if positions.contains start then x :: keepAt positions (start + 1) rest
    else keepAt positions (start + 1) rest

theorem sizeOf_keepAt_le (positions : List Nat) (start : Nat) (items : List Item) :
    sizeOf (keepAt positions start items) ≤ sizeOf items := by
  induction items generalizing start with
  | nil => simp [keepAt]
  | cons item rest ih =>
    have := ih (start + 1)
    unfold keepAt
    split <;> simp only [List.cons.sizeOf_spec] <;> omega

namespace Item

/-- The children that a group presents, in the order of definition: all of them, or as many as it
selects, chosen by the seed. -/
def chosen (ctx : Context) (seeder : Seeder) : Item → List Item
  | group header (.randomSubset count) items =>
    if items.length ≤ count then items
    else
      let words := ChaCha.word (ChaCha.keyOfSeed (seeder ctx header.key))
      keepAt (Sample.positions words items.length count) 0 items
  | item => item.children

theorem sizeOf_chosen_le (ctx : Context) (seeder : Seeder) (item : Item) :
    sizeOf (item.chosen ctx seeder) ≤ sizeOf item.children := by
  unfold chosen
  split
  · split
    · exact Nat.le_refl _
    · exact sizeOf_keepAt_le _ _ _
  · exact Nat.le_refl _

theorem sizeOf_chosen_lt (ctx : Context) (seeder : Seeder) (item : Item) :
    sizeOf (item.chosen ctx seeder) < sizeOf item := by
  refine Nat.lt_of_le_of_lt (sizeOf_chosen_le ctx seeder item) ?_
  cases item with
  | group header selection items =>
    simp only [children, group.sizeOf_spec]
    omega
  | question header role options =>
    cases header
    simp only [children, question.sizeOf_spec, Header.mk.sizeOf_spec, List.nil.sizeOf_spec]
    omega
  | pageBreak key condition =>
    have hcondition : 0 < sizeOf condition := by
      cases condition with
      | none => exact Nat.one_pos
      | some e => exact Nat.lt_add_right (sizeOf e) Nat.one_pos
    simp only [children, pageBreak.sizeOf_spec, List.nil.sizeOf_spec]
    omega

end Item

end Questionnaire
