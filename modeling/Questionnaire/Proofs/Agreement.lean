import Questionnaire.Lint
import Questionnaire.OptionState
import Questionnaire.Proofs.Occurrence
import Questionnaire.Proofs.Reads
import Questionnaire.Validation

/-! What is found of an item on contexts that agree on all that its expressions read. -/
namespace Questionnaire

namespace Item

theorem mem_expressions_of_condition {item : Item} {e : Expression} (h : item.condition = some e) :
    (Site.condition, e) ∈ item.expressions := by
  simp [expressions, h]

theorem mem_expressions_of_rule {item : Item} {r : Rule} (h : r ∈ item.rules) :
    (Site.rule r.key, r.rule) ∈ item.expressions := by
  have hmem : (Site.rule r.key, r.rule) ∈ item.rules.map fun r => (Site.rule r.key, r.rule) :=
    List.mem_map_of_mem h
  rw [expressions, List.mem_append, List.mem_append]
  exact .inl (.inr hmem)

theorem mem_expressions_of_display {item : Item} {c : Choice} {e : Expression}
    (hc : c ∈ item.options) (he : c.displayCondition = some e) :
    (Site.optionDisplay c.key, e) ∈ item.expressions := by
  rw [expressions, List.mem_append]
  refine .inr (List.mem_flatMap.mpr ⟨c, hc, ?_⟩)
  simp [he]

theorem mem_expressions_of_disabled {item : Item} {c : Choice} {e : Expression}
    (hc : c ∈ item.options) (he : c.disabled = some e) :
    (Site.optionDisabled c.key, e) ∈ item.expressions := by
  rw [expressions, List.mem_append]
  refine .inr (List.mem_flatMap.mpr ⟨c, hc, ?_⟩)
  simp [he]

/-- The expressions of an item read among some items only, all by literal keys. -/
def ReadsAmong (among : String → Prop) (item : Item) : Prop :=
  ∀ e ∈ item.expressions, e.2.references.dynamic = 0 ∧ ∀ key ∈ e.2.references.items, among key

theorem readsAmong_of_reads {among : String → Prop} {item : Item}
    (hdynamic : ∀ e ∈ item.expressions, e.2.references.dynamic = 0)
    (hreads : ∀ read ∈ item.reads, among read.2) : item.ReadsAmong among := by
  intro e he
  refine ⟨hdynamic e he, fun key hkey => ?_⟩
  have hread : (e.1, key) ∈ item.reads :=
    List.mem_flatMap.mpr ⟨e, he, List.mem_map_of_mem hkey⟩
  exact hreads (e.1, key) hread

/-- Where no read is unknown, what an item reads is an item of the tree. -/
theorem mem_keys_of_mem_reads {root item : Item} (hunknown : root.unknownReferences = [])
    (hitem : item ∈ root.descendants) {read : Site × String} (hr : read ∈ item.reads) :
    read.2 ∈ root.keys := by
  have hall := List.flatMap_eq_nil_iff.mp hunknown item hitem
  have hread := List.filterMap_eq_nil_iff.mp hall read hr
  unfold unknownReference? at hread
  split at hread
  · next hknown => exact List.contains_iff_mem.mp hknown
  · cases hread

end Item

variable {among : String → Prop} {a b : Context}

theorem Context.AgreeOn.mono {fewer : String → Prop} (hab : a.AgreeOn among b)
    (h : ∀ key, fewer key → among key) : a.AgreeOn fewer b :=
  ⟨hab.attributes_eq, hab.participantId_eq, hab.evaluationTime_eq,
    fun key hk => hab.response?_eq key (h key hk)⟩

namespace Item.ReadsAmong
variable {item : Item} (hitem : item.ReadsAmong among) (hab : a.AgreeOn among b)

include hitem hab

theorem evaluate_eq {e : Site × Expression} (he : e ∈ item.expressions) :
    e.2.evaluate a = e.2.evaluate b := by
  obtain ⟨hdynamic, hitems⟩ := hitem e he
  exact Expression.evaluate_congr hdynamic (hab.mono hitems)

theorem isVisible_eq : item.isVisible a = item.isVisible b := by
  unfold Item.isVisible
  cases hc : item.condition with
  | none => rfl
  | some e =>
    have he := hitem.evaluate_eq hab (mem_expressions_of_condition hc)
    simp only [Expression.evaluateBool]
    rw [he]

theorem validate_eq : item.validate a = item.validate b := by
  apply List.map_congr_left
  intro r hr
  have he := hitem.evaluate_eq hab (mem_expressions_of_rule hr)
  rw [Rule.outcome, Rule.outcome, Rule.status, Rule.status, he]

theorem holds_eq {key option : String} {absent : Bool} {condition : Option Expression}
    (h : ∀ e ∈ condition, ∃ site, (site, e) ∈ item.expressions) :
    Choice.holds a key option absent condition = Choice.holds b key option absent condition := by
  cases condition with
  | none => rfl
  | some e =>
    obtain ⟨site, hsite⟩ := h e rfl
    have he := hitem.evaluate_eq hab hsite
    simp only [Choice.holds, Expression.evaluateBool]
    rw [he]

theorem state_eq {c : Choice} (hc : c ∈ item.options) :
    c.state a item.key = c.state b item.key := by
  have hdisplay : ∀ e ∈ c.displayCondition, ∃ site, (site, e) ∈ item.expressions :=
    fun e he => ⟨_, mem_expressions_of_display hc he⟩
  have hdisabled : ∀ e ∈ c.disabled, ∃ site, (site, e) ∈ item.expressions :=
    fun e he => ⟨_, mem_expressions_of_disabled hc he⟩
  rw [Choice.state, Choice.state, hitem.holds_eq hab hdisplay, hitem.holds_eq hab hdisabled]

theorem optionStates_eq : item.optionStates a = item.optionStates b := by
  have hall : ∀ options ⊆ item.options,
      options.mapM (Choice.state a item.key) = options.mapM (Choice.state b item.key) := by
    intro options
    induction options with
    | nil => exact fun _ => rfl
    | cons c rest ih =>
      intro hsub
      obtain ⟨hc, hrest⟩ := List.cons_subset.mp hsub
      rw [List.mapM_cons, List.mapM_cons, hitem.state_eq hab hc, ih hrest]
  exact hall item.options fun _ hc => hc

end Item.ReadsAmong

theorem Seeder.ofOption_eq (hab : a.AgreeOn among b) (seed : Option UInt64) (key : String) :
    Seeder.ofOption seed a key = Seeder.ofOption seed b key := by
  cases seed with
  | some _ => rfl
  | none => simp only [ofOption, digest, hab.participantId_eq]

theorem Item.pick_eq (hab : a.AgreeOn among b) {α : Type} (seed : Option UInt64) (item : Item)
    (xs : List α) : item.pick a (.ofOption seed) xs = item.pick b (.ofOption seed) xs := by
  unfold pick
  simp only [Seeder.ofOption_eq hab seed]

end Questionnaire
