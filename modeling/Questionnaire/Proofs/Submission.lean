import Questionnaire.CommandLine
import Questionnaire.Expression.Build
import Questionnaire.Proofs.OtherRules
import Questionnaire.Proofs.Records

/-! What blocks a submission: hard rules of items that are shown, unless they hold. All other rules
have no part in it. -/
namespace Questionnaire
open Occurrence

/-- What counts as true, by the kind of value: null never, a truth value as it says, a number other
than zero, a text with characters, and every record. -/
def Value.CountsAsTrue : Value → Prop
  | .null => False
  | .bool b => b = true
  | .number d => d.coefficient ≠ 0
  | .text s => s ≠ ""
  | .record _ => True

theorem Value.truthy_iff (v : Value) : v.truthy = true ↔ v.CountsAsTrue := by
  cases v <;> simp [truthy, CountsAsTrue, Decimal.isZero]

/-- A rule holds when it has a value that counts as true; a rule without a value does not. -/
def Rule.Holds (ctx : Context) (r : Rule) : Prop :=
  ∃ v, r.rule.evaluate ctx = .ok v ∧ v.CountsAsTrue

theorem Rule.passed_outcome (ctx : Context) (r : Rule) :
    (r.outcome ctx).passed = true ↔ r.Holds ctx := by
  have hstatus : (r.outcome ctx).passed = true ↔ r.status ctx = .passed := decide_eq_true_iff
  rw [hstatus, status, Holds]
  cases r.rule.evaluate ctx with
  | error e => simp
  | ok v => cases hv : v.truthy <;> simp [hv, ← v.truthy_iff]

theorem Rule.blocks_outcome (ctx : Context) (r : Rule) :
    (r.outcome ctx).blocks = true ↔ r.severity = .hard ∧ ¬ r.Holds ctx := by
  rw [← passed_outcome, RuleOutcome.blocks, Bool.and_eq_true, decide_eq_true_iff]
  simp [outcome]

namespace Item

def hardRules (item : Item) : List Rule := item.rules.filter (·.severity = .hard)

/-- A hard rule of an item does not hold. -/
def Blocks (ctx : Context) (item : Item) : Prop :=
  ∃ r ∈ item.rules, r.severity = .hard ∧ ¬ r.Holds ctx

theorem blocks_iff (ctx : Context) (item : Item) :
    item.Blocks ctx ↔ ∃ r ∈ item.hardRules, ¬ r.Holds ctx := by
  simp only [Blocks, hardRules, List.mem_filter, decide_eq_true_iff, and_assoc]

theorem not_blocks_of_isPageBreak {ctx : Context} {item : Item} (h : item.isPageBreak) :
    ¬ item.Blocks ctx := by
  cases item with
  | group => cases h
  | question => cases h
  | pageBreak => rintro ⟨r, hr, -⟩; simp [rules] at hr

end Item

namespace Report

theorem mem_outcomes_ofItems {ctx : Context} {items : List Item} {o : RuleOutcome} :
    o ∈ (ofItems ctx items).outcomes ↔ ∃ item ∈ items, ∃ r ∈ item.rules, r.outcome ctx = o := by
  simp only [outcomes, ofItems, List.mem_flatMap, List.mem_map, List.mem_filter]
  constructor
  · rintro ⟨_, ⟨item, ⟨hitem, -⟩, rfl⟩, hr⟩
    exact ⟨item, hitem, List.mem_map.mp hr⟩
  · rintro ⟨item, hitem, r, hr, ho⟩
    have hne : (!item.rules.isEmpty) = true := by
      simpa using List.ne_nil_of_mem hr
    exact ⟨_, ⟨item, ⟨hitem, hne⟩, rfl⟩, List.mem_map.mpr ⟨r, hr, ho⟩⟩

theorem blocksSubmission_ofItems (ctx : Context) (items : List Item) :
    (ofItems ctx items).blocksSubmission = true ↔ ∃ item ∈ items, item.Blocks ctx := by
  rw [blocksSubmission, List.any_eq_true]
  constructor
  · rintro ⟨o, ho, hblocks⟩
    obtain ⟨item, hitem, r, hr, rfl⟩ := mem_outcomes_ofItems.mp ho
    exact ⟨item, hitem, r, hr, (r.blocks_outcome ctx).mp hblocks⟩
  · rintro ⟨item, hitem, r, hr, hblocks⟩
    exact ⟨_, mem_outcomes_ofItems.mpr ⟨item, hitem, r, hr, rfl⟩,
      (r.blocks_outcome ctx).mpr hblocks⟩

theorem mem_failures_of_blocks {report : Report} {entry : ItemReport} (he : entry ∈ report.items)
    {o : RuleOutcome} (ho : o ∈ entry.outcomes) (hb : o.blocks = true) :
    (entry.item, o) ∈ report.failures := by
  have hpassed : (!o.passed) = true := (Bool.and_eq_true _ _ ▸ hb).2
  exact List.mem_flatMap.mpr
    ⟨entry, he, List.mem_map_of_mem (List.mem_filter.mpr ⟨ho, hpassed⟩)⟩

end Report

namespace Item

/-- There is a report just when the walk does not fail, and it is then about all that is passed
besides page breaks. -/
theorem validateVisible_eq_ok_iff {ctx : Context} {seeder : Seeder} {root : Item}
    {report : Report} :
    root.validateVisible ctx seeder = .ok report ↔
      (root.shown ctx seeder).failure = none ∧
        .ofItems ctx (((root.shown ctx seeder).passed.filter
          fun o => !o.item.isPageBreak).map item) = report := by
  cases hf : (root.shown ctx seeder).failure with
  | some f =>
    rw [validateVisible, items_of_error hf]
    constructor
    · intro h
      cases h
    · rintro ⟨h, -⟩
      cases h
  | none =>
    have hgroups := items_of_none hf .withGroups
    simp only [includes_withGroups] at hgroups
    rw [validateVisible, hgroups]
    change Except.ok _ = Except.ok report ↔ _
    rw [Except.ok.injEq]
    exact ⟨fun h => ⟨rfl, h⟩, fun h => h.2⟩

/-- A report blocks if an item that is passed does. -/
theorem blocksSubmission_iff_passed {ctx : Context} {seeder : Seeder} {root : Item}
    {report : Report} (h : root.validateVisible ctx seeder = .ok report) :
    report.blocksSubmission = true ↔
      ∃ o ∈ (root.shown ctx seeder).passed, o.item.Blocks ctx := by
  obtain ⟨-, rfl⟩ := validateVisible_eq_ok_iff.mp h
  rw [Report.blocksSubmission_ofItems]
  constructor
  · rintro ⟨_, hmem, hblocks⟩
    obtain ⟨o, ho, rfl⟩ := List.mem_map.mp hmem
    exact ⟨o, (List.mem_filter.mp ho).1, hblocks⟩
  · rintro ⟨o, ho, hblocks⟩
    have hbreak : (!o.item.isPageBreak) = true := by
      rw [Bool.not_eq_true', Bool.eq_false_iff]
      exact fun hb => not_blocks_of_isPageBreak hb hblocks
    exact ⟨o.item, List.mem_map_of_mem (List.mem_filter.mpr ⟨ho, hbreak⟩), hblocks⟩

theorem blocksSubmission_iff_shown {ctx : Context} {seeder : Seeder} {root : Item}
    {report : Report} (h : root.validateVisible ctx seeder = .ok report) :
    report.blocksSubmission = true ↔ ∃ o, Shown ctx seeder ⟨0, root⟩ o ∧ o.item.Blocks ctx := by
  rw [blocksSubmission_iff_passed h]
  simp only [mem_shown_iff (validateVisible_eq_ok_iff.mp h).1]

/-- Other rules, of which those that are hard stay what they are where items are shown, block the
same submissions. -/
theorem exists_report_withRules {ctx : Context} {seeder : Seeder} {root : Item} {report : Report}
    (h : root.validateVisible ctx seeder = .ok report) {rules : Nat → List Rule}
    (hrules : ∀ o, Shown ctx seeder ⟨0, root⟩ o →
      (o.item.withRules rules o.position).hardRules = o.item.hardRules) :
    ∃ other, (root.withRules rules 0).validateVisible ctx seeder = .ok other ∧
      other.blocksSubmission = report.blocksSubmission := by
  have hf := (validateVisible_eq_ok_iff.mp h).1
  have hshown := shown_withRules ctx seeder rules root
  have hf' : ((root.withRules rules 0).shown ctx seeder).failure = none := by
    rw [hshown, Trail.withRules, hf, Option.map_none]
  have hother := validateVisible_eq_ok_iff.mpr ⟨hf', rfl⟩
  refine ⟨_, hother, ?_⟩
  rw [Bool.eq_iff_iff, blocksSubmission_iff_passed hother, blocksSubmission_iff_passed h, hshown]
  have hsame : ∀ o ∈ (root.shown ctx seeder).passed,
      (o.withRules rules).item.Blocks ctx ↔ o.item.Blocks ctx := by
    intro o ho
    have hhard : (o.withRules rules).item.hardRules = o.item.hardRules :=
      hrules o ((mem_shown_iff hf o).mp ho)
    rw [blocks_iff, blocks_iff, hhard]
  constructor
  · rintro ⟨_, hmem, hblocks⟩
    obtain ⟨o, ho, rfl⟩ := List.mem_map.mp hmem
    exact ⟨o, ho, (hsame o ho).mp hblocks⟩
  · rintro ⟨o, ho, hblocks⟩
    exact ⟨_, List.mem_map_of_mem ho, (hsame o ho).mpr hblocks⟩

end Item

namespace CommandLine

theorem answer_validate {files : Files} {now : Int64} {seed : Option UInt64} {s r : String}
    {survey : Survey} {ctx : Context} (hs : readSurvey files s = .ok survey)
    (hr : readContext files now r = .ok ctx) :
    (Command.validate s r).answer files now seed =
      ((survey.root.validateVisible ctx (.ofOption seed)).mapError .evaluation).map validated := by
  simp only [Command.answer, hs, hr]
  rfl

/-- A validation of documents that can be read fails with its walk, or it fails if it blocks. -/
theorem exit_validate {diagnose : String → String} {files : Files} {now : Int64}
    {options : Options} {config : Config} {s r : String} {survey : Survey} {ctx : Context}
    (hconfig : readConfig diagnose files options.config = .ok config)
    (hs : readSurvey files s = .ok survey) (hr : readContext files now r = .ok ctx) :
    ((Command.validate s r).run diagnose files now options).exit =
      match survey.root.validateVisible ctx
        (.ofOption (options.seed <|> config.seed.map .ofNat)) with
      | .ok report => if report.blocksSubmission then 1 else 0
      | .error _ => 1 := by
  unfold Command.run
  rw [hconfig]
  simp only [answer_validate hs hr]
  cases survey.root.validateVisible ctx
    (.ofOption (options.seed <|> config.seed.map .ofNat)) <;> rfl

end CommandLine

open CommandLine

/-- A report blocks a submission just if an item that is shown has a hard rule that does not hold,
because it fails or because it has no value. It blocks the same with any other rules that keep the
hard ones of the items that are shown, and whatever blocks is among the failures. A validation exits
with one just if the walk fails or the report blocks. -/
theorem submission_blocked_iff :
    (∀ (ctx : Context) (seeder : Seeder) (root : Item) (report : Report),
      root.validateVisible ctx seeder = .ok report →
      (report.blocksSubmission = true ↔ ∃ o, Shown ctx seeder ⟨0, root⟩ o ∧
        ∃ r ∈ o.item.rules, r.severity = .hard ∧ ¬ r.Holds ctx) ∧
      (∀ rules : Nat → List Rule,
        (∀ o, Shown ctx seeder ⟨0, root⟩ o →
          (o.item.withRules rules o.position).hardRules = o.item.hardRules) →
        ∃ other, (root.withRules rules 0).validateVisible ctx seeder = .ok other ∧
          other.blocksSubmission = report.blocksSubmission) ∧
      ∀ entry ∈ report.items, ∀ o ∈ entry.outcomes, o.blocks = true →
        (entry.item, o) ∈ report.failures) ∧
    ∀ (diagnose : String → String) (files : Files) (now : Int64) (options : Options)
      (config : Config) (s r : String) (survey : Survey) (ctx : Context)
      (result : Except Error Report),
      readConfig diagnose files options.config = .ok config → readSurvey files s = .ok survey →
      readContext files now r = .ok ctx →
      survey.root.validateVisible ctx
        (.ofOption (options.seed <|> config.seed.map .ofNat)) = result →
      (((Command.validate s r).run diagnose files now options).exit = 1 ↔
        (∃ e, result = .error e) ∨ ∃ report, result = .ok report ∧
          report.blocksSubmission = true) ∧
      (((Command.validate s r).run diagnose files now options).exit = 0 ↔
        ∃ report, result = .ok report ∧ report.blocksSubmission = false) := by
  constructor
  · intro ctx seeder root report h
    exact ⟨Item.blocksSubmission_iff_shown h, fun rules => Item.exists_report_withRules h,
      fun entry he o => Report.mem_failures_of_blocks he⟩
  · intro diagnose files now options config s r survey ctx result hconfig hs hr hresult
    rw [exit_validate hconfig hs hr, hresult]
    cases result with
    | error e => simp
    | ok report => cases hb : report.blocksSubmission <;> simp [hb]

namespace Item

def asked : Item := .question ⟨"s.a", 0, none, [⟨"a1", .hard, .hasResponse "s.a" "rg"⟩]⟩ .text []

/-- Two questions with hard rules. The second one is hidden, and its rule has no value. -/
def gated : Item :=
  .group ⟨"s", 0, none, []⟩ .sequential
    [asked, .question ⟨"s.b", 0, some (.literal (.bool false)),
      [⟨"b1", .hard, .getResponseItem "s.b" "rg"⟩]⟩ .text []]

def withoutHidden : Item :=
  gated.withRules (fun position => if position = 1 then asked.rules else []) 0

theorem shown_gated : gated.shown (.empty 0) .digest = ⟨[⟨0, gated⟩, ⟨1, asked⟩], none⟩ := by
  have hroot : (⟨0, gated⟩ : Occurrence).chosen (.empty 0) .digest =
      [⟨1, asked⟩, ⟨2, gated.children[1]⟩] := rfl
  have hasked : Occurrence.trail ⟨.empty 0, .digest, .all⟩ ⟨1, asked⟩ = .one _ :=
    trail_of_not_isGroup _ rfl (by decide)
  have hhidden : Occurrence.trail ⟨.empty 0, .digest, .all⟩ ⟨2, gated.children[1]⟩ = .empty :=
    trail_of_hidden _ rfl
  rw [shown, Item.trail, trail_of_visible _ rfl, hroot]
  simp only [trails_cons, trails_nil, hasked, hhidden]
  rfl

/-- A question with two hard rules: the one is a number other than zero, the other a text. -/
def granted : Item :=
  .question ⟨"s.a", 0, none, [⟨"a1", .hard, .literal (.number .one)⟩,
    ⟨"a2", .hard, .literal (.text "yes")⟩]⟩ .text []

theorem shown_granted : granted.shown (.empty 0) .digest = ⟨[⟨0, granted⟩], none⟩ := by
  rw [shown, Item.trail, trail_of_not_isGroup _ rfl (by decide)]
  rfl

/-- The first question blocks, and without the rule of the second one it still does. A question
whose rules hold does not block. -/
theorem gated_blocks :
    (∃ report, gated.validateVisible (.empty 0) .digest = .ok report ∧
      report.blocksSubmission = true ∧
      ∃ other, withoutHidden.validateVisible (.empty 0) .digest = .ok other ∧
        other.blocksSubmission = true) ∧
    ∃ report, granted.validateVisible (.empty 0) .digest = .ok report ∧
      report.blocksSubmission = false := by
  constructor
  · have hf := congrArg Trail.failure shown_gated
    have h := validateVisible_eq_ok_iff.mpr ⟨hf, rfl⟩
    obtain ⟨hblocks, hsame, -⟩ := submission_blocked_iff.1 (.empty 0) .digest gated _ h
    have hfails : ¬ (⟨"a1", .hard, .hasResponse "s.a" "rg"⟩ : Rule).Holds (.empty 0) := by
      rintro ⟨v, hv, htrue⟩
      obtain rfl := Except.ok.inj hv
      cases htrue
    have hasked : Shown (.empty 0) .digest ⟨0, gated⟩ ⟨1, asked⟩ :=
      .beneath rfl List.mem_cons_self (.here rfl)
    have htrue := hblocks.mpr ⟨_, hasked, _, List.mem_cons_self, rfl, hfails⟩
    obtain ⟨other, hother, heq⟩ := hsame (fun position => if position = 1 then asked.rules else [])
      (by
        intro o ho
        have hmem := (mem_shown_iff hf o).mpr ho
        rw [shown_gated] at hmem
        rcases List.mem_pair.mp hmem with rfl | rfl <;> rfl)
    exact ⟨_, h, htrue, other, hother, heq.trans htrue⟩
  · have hf := congrArg Trail.failure shown_granted
    have h := validateVisible_eq_ok_iff.mpr ⟨hf, rfl⟩
    obtain ⟨hblocks, -⟩ := submission_blocked_iff.1 (.empty 0) .digest granted _ h
    refine ⟨_, h, Bool.eq_false_iff.mpr fun htrue => ?_⟩
    obtain ⟨o, ho, r, hr, -, hfails⟩ := hblocks.mp htrue
    have hmem := (mem_shown_iff hf o).mpr ho
    rw [shown_granted] at hmem
    obtain rfl := List.mem_singleton.mp hmem
    rcases List.mem_pair.mp hr with rfl | rfl
    · exact hfails ⟨.number .one, rfl, Nat.one_ne_zero⟩
    · have hyes : "yes" ≠ "" := by decide
      exact hfails ⟨.text "yes", rfl, hyes⟩

end Item

end Questionnaire
