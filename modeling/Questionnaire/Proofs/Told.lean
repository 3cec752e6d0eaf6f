import Questionnaire.CommandLine
import Questionnaire.Proofs.Printed
import Questionnaire.Proofs.Records

/-! What the outputs of a command say: the text form line by line, and the JSON form as it is read
back. Neither is described by what prints it. -/
namespace Questionnaire.CommandLine

/-- An output consists of lines, each of which ends. -/
def HasLines (output : String) (lines : List String) : Prop :=
  output.toList = lines.flatMap fun line => line.toList ++ ['\n']

/-- A line tells the result of a rule of an item as its JSON does. -/
inductive RuleTold (item : String) : Json → String → Prop
  | passed (rule severity : String) :
    RuleTold item
      (.object [("key", .string rule), ("severity", .string severity),
        ("status", .string "passed")])
      s!"pass {item}/{rule} [{severity}]"
  | failed (rule severity : String) :
    RuleTold item
      (.object [("key", .string rule), ("severity", .string severity),
        ("status", .string "failed")])
      s!"FAIL {item}/{rule} [{severity}]"
  | broken (rule severity error : String) :
    RuleTold item
      (.object [("error", .string error), ("key", .string rule), ("severity", .string severity),
        ("status", .string "broken")])
      s!"BROKEN ({error}) {item}/{rule} [{severity}]"

/-- Lines tell the results of the rules of one item in order. -/
inductive ItemTold : Json → List String → Prop
  | rules (item : String) {outcomes : List Json} {lines : List String}
    (h : List.Forall₂ (RuleTold item) outcomes lines) :
    ItemTold (.object [("item", .string item), ("outcomes", .array outcomes)]) lines

/-- A line tells a finding as its JSON does. -/
inductive FindingTold : Json → String → Prop
  | finding (item kind message : String) :
    FindingTold
      (.object [("item", .string item), ("kind", .string kind), ("message", .string message)])
      s!"[{kind}] {item}: {message}"

/-- The exit code and the output as text say what the output as JSON says when it is read. The value
of an expression need not be read back as it is, since its numbers may be rounded to binary. -/
def Command.Tells (exit : UInt8) (text json : String) : Command → Prop
  | flatten _ _ => exit = 0 ∧ ∃ (survey : String) (keys : List String),
      Json.ofText json = .ok (.object
        [("survey", .string survey), ("visible", .array (keys.map .string))]) ∧
      HasLines text keys
  | pages _ _ => exit = 0 ∧ ∃ (survey : String) (pages : List (List String)),
      Json.ofText json = .ok (.object
        [("pages", .array (pages.map fun keys => .array (keys.map .string))),
          ("survey", .string survey)]) ∧
      HasLines text (pages.mapIdx fun i keys =>
        s!"page {i + 1}: " ++ String.intercalate ", " keys)
  | validate _ _ => ∃ (blocked : Bool) (items : List Json) (lines : List (List String)),
      Json.ofText json = .ok (.object
        [("blocksSubmission", .bool blocked), ("items", .array items)]) ∧
      (exit = 0 ↔ blocked = false) ∧ List.Forall₂ ItemTold items lines ∧
      HasLines text (lines.flatten ++ [if blocked then "submission blocked" else "ok"])
  | eval _ _ => exit = 0 ∧ ∃ (expression : String) (value : Value),
      let told := Json.object [("expression", .string expression), ("value", value.toJson)]
      HasLines json [told.pretty] ∧
      (told.Printable Json.nestingLimit → Json.ofText json = .ok told) ∧
      HasLines text [value.display]
  | lint _ => ∃ (valid : Bool) (errors : List String) (findings : List Json)
      (lines : List String),
      Json.ofText json = .ok (.object
        [("findings", .array findings), ("schemaErrors", .array (errors.map .string)),
          ("valid", .bool valid)]) ∧
      (exit = 0 ↔ valid = true) ∧ List.Forall₂ FindingTold findings lines ∧
      HasLines text (if errors = [] ∧ findings = [] then ["clean"]
        else errors.map ("[schema] " ++ ·) ++ lines)

/-! Printers -/

theorem hasLines_lineTexts (lines : List String) : HasLines (lineTexts lines) lines := by
  simp [HasLines, lineTexts, String.toList_join, List.flatMap_map]

theorem ofText_lineTexts {j : Json} (h : j.Printable Json.nestingLimit) :
    Json.ofText (lineTexts [j.pretty]) = .ok j := by
  have htext : lineTexts [j.pretty] = j.pretty ++ "\n" := by simp [lineTexts, String.join]
  rw [htext, Json.ofText_pretty h]

/-- The exit code of an answer. -/
def Answer.exit (answer : Answer) : UInt8 := if answer.failing then 1 else 0

theorem Answer.exit_eq_zero_iff (answer : Answer) : answer.exit = 0 ↔ answer.failing = false := by
  unfold exit
  cases answer.failing <;> simp

/-- The outputs of an answer in both forms tell the same. -/
def Answer.TellsBy (answer : Answer) (command : Command) : Prop :=
  command.Tells answer.exit (lineTexts answer.lines) (lineTexts [answer.json.pretty])

theorem tells_flattened (survey : Survey) (visible : List Item) (s r : String) :
    (flattened survey visible).TellsBy (.flatten s r) := by
  refine ⟨rfl, survey.id, visible.map Item.key, ofText_lineTexts ?_, hasLines_lineTexts _⟩
  exact Json.printable_pair (by decide) (Json.printable_string _ _) (Json.printable_texts _ _)

/-- Pages are counted from one. -/
theorem tells_paged (survey : Survey) (pages : List (List Item)) (s r : String) :
    (paged survey pages).TellsBy (.pages s r) := by
  have hlines : (paged survey pages).lines =
      (pages.map (·.map Item.key)).mapIdx fun i keys =>
        s!"page {i + 1}: " ++ String.intercalate ", " keys := by
    simp [paged, List.mapIdx_eq_zipIdx_map, List.zipIdx_succ, Function.comp_def]
  refine ⟨rfl, survey.id, pages.map (·.map Item.key), ofText_lineTexts ?_, ?_⟩
  · refine Json.printable_pair (by decide) (Json.printable_array fun page hpage => ?_)
      (Json.printable_string _ _)
    obtain ⟨keys, -, rfl⟩ := List.mem_map.mp hpage
    exact Json.printable_texts _ keys
  · rw [hlines]
    exact hasLines_lineTexts _

/-- What is told of each entry of a list is told of the list. -/
theorem forall₂_told {α β γ : Type} {told : β → γ → Prop} {f : α → β} {g : α → γ}
    (h : ∀ a, told (f a) (g a)) (entries : List α) :
    List.Forall₂ told (entries.map f) (entries.map g) :=
  List.forall₂_map_right_iff.mpr (List.forall₂_map_left_iff.mpr
    (List.forall₂_same.mpr fun a _ => h a))

theorem ruleTold (item : String) (o : RuleOutcome) :
    RuleTold item o.toJson (outcomeLine item o) := by
  obtain ⟨rule, severity, status⟩ := o
  cases status with
  | passed => exact .passed rule severity.name
  | failed => exact .failed rule severity.name
  | broken error =>
    have hline : outcomeLine item ⟨rule, severity, .broken error⟩ =
        s!"BROKEN ({error.message}) {item}/{rule} [{severity.name}]" := by
      rw [← String.toList_inj]
      simp [outcomeLine, statusText, toString]
    rw [hline]
    exact .broken rule severity.name error.message

theorem RuleTold.printable {item line : String} {j : Json} (h : RuleTold item j line)
    (depth : Nat) : j.Printable (depth + 1) := by
  have hnames : ["key", "severity", "status"].Pairwise (· < ·) := by decide
  have hbroken : ["error", "key", "severity", "status"].Pairwise (· < ·) := by decide
  cases h with
  | passed rule severity =>
    exact Json.printable_named [("key", rule), ("severity", severity), ("status", "passed")]
      hnames depth
  | failed rule severity =>
    exact Json.printable_named [("key", rule), ("severity", severity), ("status", "failed")]
      hnames depth
  | broken rule severity error =>
    exact Json.printable_named
      [("error", error), ("key", rule), ("severity", severity), ("status", "broken")]
      hbroken depth

theorem itemTold (entry : ItemReport) :
    ItemTold entry.toJson (entry.outcomes.map (outcomeLine entry.item)) :=
  .rules entry.item (forall₂_told (ruleTold entry.item) entry.outcomes)

theorem printable_itemReport (entry : ItemReport) (depth : Nat) :
    entry.toJson.Printable (depth + 3) := by
  refine Json.printable_pair (by decide) (Json.printable_string _ _)
    (Json.printable_array fun outcome houtcome => ?_)
  obtain ⟨o, -, rfl⟩ := List.mem_map.mp houtcome
  exact (ruleTold entry.item o).printable depth

theorem tells_validated (report : Report) (s r : String) :
    (validated report).TellsBy (.validate s r) := by
  refine ⟨report.blocksSubmission, report.items.map ItemReport.toJson,
    report.items.map fun entry => entry.outcomes.map (outcomeLine entry.item),
    ofText_lineTexts ?_, Answer.exit_eq_zero_iff _, forall₂_told itemTold report.items,
    hasLines_lineTexts _⟩
  refine Json.printable_pair (by decide) (Json.printable_bool _ _)
    (Json.printable_array fun item hitem => ?_)
  obtain ⟨entry, -, rfl⟩ := List.mem_map.mp hitem
  exact printable_itemReport entry _

theorem findingTold (f : Finding) : FindingTold f.toJson f.text :=
  .finding f.item f.issue.name f.issue.message

theorem FindingTold.printable {line : String} {j : Json} (h : FindingTold j line) (depth : Nat) :
    j.Printable (depth + 1) := by
  have hnames : ["item", "kind", "message"].Pairwise (· < ·) := by decide
  obtain ⟨item, kind, message⟩ := h
  exact Json.printable_named [("item", item), ("kind", kind), ("message", message)] hnames depth

theorem tells_linted (violations : List String) (findings : List Finding) (s : String) :
    (linted violations findings).TellsBy (.lint s) := by
  refine ⟨!(linted violations findings).failing, violations, findings.map Finding.toJson,
    findings.map Finding.text, ofText_lineTexts ?_, ?_, forall₂_told findingTold findings, ?_⟩
  · refine Json.printable_triple (by decide) (Json.printable_array fun finding hfinding => ?_)
      (Json.printable_texts _ violations) (Json.printable_bool _ _)
    obtain ⟨f, -, rfl⟩ := List.mem_map.mp hfinding
    exact (findingTold f).printable _
  · rw [Answer.exit_eq_zero_iff, Bool.not_eq_true']
  · have hlines : (linted violations findings).lines =
        if violations = [] ∧ findings.map Finding.toJson = [] then ["clean"]
        else violations.map ("[schema] " ++ ·) ++ findings.map Finding.text := by
      simp [linted, List.isEmpty_iff]
    rw [← hlines]
    exact hasLines_lineTexts _

theorem tells_evaluated (expression : Expression) (value : Value) (e r : String) :
    (evaluated expression value).TellsBy (.eval e r) :=
  ⟨rfl, expression.display, value, hasLines_lineTexts _, ofText_lineTexts, hasLines_lineTexts _⟩

theorem tells_of_lint {files : Files} {survey : String} {answer : Answer}
    (h : lint files survey = .ok answer) : answer.TellsBy (.lint survey) := by
  obtain ⟨document, -, h⟩ := exists_of_bind_eq_ok h
  split at h
  · obtain ⟨read, -, h⟩ := exists_of_bind_eq_ok h
    obtain rfl := Except.ok.inj h
    exact tells_linted [] _ survey
  · obtain rfl := Except.ok.inj h
    exact tells_linted _ [] survey

/-- The answer of a command tells the same in both forms. -/
theorem Command.tellsBy_of_answer {files : Files} {now : Int64} {seed : Option UInt64}
    {command : Command} {answer : Answer} (h : command.answer files now seed = .ok answer) :
    answer.TellsBy command := by
  cases command with
  | flatten s r =>
    obtain ⟨survey, -, h⟩ := exists_of_bind_eq_ok h
    obtain ⟨ctx, -, h⟩ := exists_of_bind_eq_ok h
    obtain ⟨visible, -, h⟩ := exists_of_bind_eq_ok h
    obtain rfl := Except.ok.inj h
    exact tells_flattened survey visible s r
  | pages s r =>
    obtain ⟨survey, -, h⟩ := exists_of_bind_eq_ok h
    obtain ⟨ctx, -, h⟩ := exists_of_bind_eq_ok h
    obtain ⟨pages, -, h⟩ := exists_of_bind_eq_ok h
    obtain rfl := Except.ok.inj h
    exact tells_paged survey pages s r
  | validate s r =>
    obtain ⟨survey, -, h⟩ := exists_of_bind_eq_ok h
    obtain ⟨ctx, -, h⟩ := exists_of_bind_eq_ok h
    obtain ⟨report, -, h⟩ := exists_of_bind_eq_ok h
    obtain rfl := Except.ok.inj h
    exact tells_validated report s r
  | eval e r =>
    obtain ⟨expression, -, h⟩ := exists_of_bind_eq_ok h
    obtain ⟨ctx, -, h⟩ := exists_of_bind_eq_ok h
    obtain ⟨value, -, h⟩ := exists_of_bind_eq_ok h
    obtain rfl := Except.ok.inj h
    exact tells_evaluated expression value e r
  | lint s => exact tells_of_lint h

end Questionnaire.CommandLine
