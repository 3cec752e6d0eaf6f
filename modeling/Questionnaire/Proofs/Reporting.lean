import Questionnaire.Proofs.Told

/-! Reports in their two forms. Whether a run is quiet and in which form it reports changes neither
its exit code nor what it says. -/
namespace Questionnaire.CommandLine

namespace Options

/-- Options that leave it to others whether and in which form to report. -/
def Unreported (options : Options) : Prop := options.output = .none ∧ options.quiet = false

def reporting (options : Options) (output : Option OutputFormat) (quiet : Bool) : Options :=
  { options with output, quiet }

theorem unreported_before {outer inner : Options} (h : (outer.before inner).Unreported) :
    outer.Unreported ∧ inner.Unreported := by
  obtain ⟨houtput, hquiet⟩ := h
  have hforms : inner.output = .none ∧ outer.output = .none := by simpa [before] using houtput
  have hsilent : inner.quiet = false ∧ outer.quiet = false := by simpa [before] using hquiet
  exact ⟨⟨hforms.2, hsilent.2⟩, hforms.1, hsilent.1⟩

theorem reporting_before {outer inner : Options} (h : inner.Unreported)
    (output : Option OutputFormat) (quiet : Bool) :
    (outer.reporting output quiet).before inner = (outer.before inner).reporting output quiet := by
  obtain ⟨houtput, hquiet⟩ := h
  simp [before, reporting, houtput, hquiet]

/-- An option that is given its value sets the form, or has no part in reports. -/
theorem put?_cases {options next : Options} {name value : String}
    (h : options.put? name value = some next) :
    next.output ≠ .none ∨
      (next.output = options.output ∧ next.quiet = options.quiet ∧
        ∀ output quiet, (options.reporting output quiet).put? name value =
          some (next.reporting output quiet)) := by
  unfold put? at h
  split at h
  · obtain ⟨format, -, hnext⟩ := Option.bind_eq_some_iff.mp h
    obtain rfl := Option.some.inj hnext
    exact .inl (Option.some_ne_none format)
  · obtain ⟨path, hpath, hnext⟩ := Option.bind_eq_some_iff.mp h
    obtain rfl := Option.some.inj hnext
    refine .inr ⟨rfl, rfl, fun output quiet => ?_⟩
    simp [reporting, put?, hpath]
  · obtain ⟨seed, hseed, hnext⟩ := Option.bind_eq_some_iff.mp h
    obtain rfl := Option.some.inj hnext
    refine .inr ⟨rfl, rfl, fun output quiet => ?_⟩
    simp [reporting, put?, hseed]
  · cases h

theorem unreported_of_put? {options next : Options} {name value : String}
    (h : options.put? name value = some next) (hnext : next.Unreported) : options.Unreported := by
  obtain hform | ⟨houtput, hquiet, -⟩ := put?_cases h
  · exact absurd hnext.1 hform
  · exact ⟨houtput ▸ hnext.1, hquiet ▸ hnext.2⟩

theorem put?_reporting {options next : Options} {name value : String}
    (h : options.put? name value = some next) (hnext : next.Unreported)
    (output : Option OutputFormat) (quiet : Bool) :
    (options.reporting output quiet).put? name value = some (next.reporting output quiet) := by
  obtain hform | ⟨-, -, hput⟩ := put?_cases h
  · exact absurd hnext.1 hform
  · exact hput output quiet

end Options

namespace Request

/-- The options before a command's name take effect where those after it leave a choice. -/
theorem ofCommand?_eq_run {options final : Options} {name : String} {arguments : List String}
    {command : Command} (h : ofCommand? options name arguments = some (.run final command))
    (hfinal : final.Unreported) :
    options.Unreported ∧ ∀ output quiet,
      ofCommand? (options.reporting output quiet) name arguments =
        some (.run (final.reporting output quiet) command) := by
  have hkept : ∀ inner : Options, options.before inner = final →
      options.Unreported ∧ ∀ output quiet,
        (options.reporting output quiet).before inner = final.reporting output quiet := by
    rintro inner rfl
    obtain ⟨houter, hinner⟩ := Options.unreported_before hfinal
    exact ⟨houter, Options.reporting_before hinner⟩
  unfold ofCommand? at h ⊢
  split at h
  · unfold ofTopics? at h
    split at h
    · cases h
    · split at h <;> cases h
    · cases h
  · next hhelp =>
    split at h
    · next hlint =>
      split at h
      · next inner file _ hread =>
        obtain ⟨hoptions, rfl⟩ := Request.run.inj (Option.some.inj h)
        obtain ⟨houter, hbefore⟩ := hkept inner hoptions
        refine ⟨houter, fun output quiet => ?_⟩
        simp [hlint, hbefore]
      · cases h
      · cases h
    · next hlint =>
      obtain ⟨named, hnamed, h⟩ := Option.bind_eq_some_iff.mp h
      split at h
      · next inner file responses hread =>
        obtain ⟨hoptions, rfl⟩ := Request.run.inj (Option.some.inj h)
        obtain ⟨houter, hbefore⟩ := hkept inner hoptions
        refine ⟨houter, fun output quiet => ?_⟩
        simp [hhelp, hlint, hnamed, hbefore]
      · cases h
      · cases h

/-- An option among the arguments is put before what follows it is read, which it may be just as
well after options that settle how to report. -/
theorem read?_after_put? {options next final : Options} {name value : String} {rest : List String}
    {command : Command} (hput : options.put? name value = some next)
    (hnext : next.Unreported ∧ ∀ output quiet,
      read? (next.reporting output quiet) rest =
        some (.run (final.reporting output quiet) command)) :
    options.Unreported ∧ ∀ output quiet,
      ((options.reporting output quiet).put? name value).bind (read? · rest) =
        some (.run (final.reporting output quiet) command) := by
  obtain ⟨hunreported, hrest⟩ := hnext
  refine ⟨Options.unreported_of_put? hput hunreported, fun output quiet => ?_⟩
  rw [Options.put?_reporting hput hunreported, Option.bind_some, hrest]

/-- Arguments that make a request without a word on reports make the same one after options that
settle it. -/
theorem read?_eq_run {options final : Options} {arguments : List String} {command : Command}
    (h : read? options arguments = some (.run final command)) (hfinal : final.Unreported) :
    options.Unreported ∧ ∀ output quiet,
      read? (options.reporting output quiet) arguments =
        some (.run (final.reporting output quiet) command) := by
  fun_induction read? options arguments with
  | case1 | case2 | case3 | case4 | case6 | case7 | case9 | case10 => cases h
  | case5 options rest hquiet ih =>
    -- Silence is asked for, and no later argument takes that back.
    obtain ⟨⟨-, hquiet⟩, -⟩ := ih h
    cases hquiet
  | case8 options argument hhelp hversion hquiet hh hv hoption name value rest hsplit ih =>
    obtain ⟨next, hnext, h⟩ := Option.bind_eq_some_iff.mp h
    obtain ⟨hunreported, hread⟩ := read?_after_put? hnext (ih next h)
    refine ⟨hunreported, fun output quiet => ?_⟩
    unfold read?
    simpa [hh, hv, hoption, hsplit] using hread output quiet
  | case11 options argument hhelp hversion hquiet hh hv hoption name value rest hsplit hvalue ih =>
    obtain ⟨next, hnext, h⟩ := Option.bind_eq_some_iff.mp h
    obtain ⟨hunreported, hread⟩ := read?_after_put? hnext (ih next h)
    refine ⟨hunreported, fun output quiet => ?_⟩
    unfold read?
    simpa [hh, hv, hoption, hsplit, hvalue] using hread output quiet
  | case12 options argument rest hhelp hversion hquiet hh hv hoption =>
    obtain ⟨hunreported, hread⟩ := ofCommand?_eq_run h hfinal
    refine ⟨hunreported, fun output quiet => ?_⟩
    unfold read?
    simpa [hh, hv, hoption] using hread output quiet

/-- The flags that settle how to report, as arguments. -/
def reportFlags (output : Option OutputFormat) (quiet : Bool) : List String :=
  let form :=
    match output with
    | none => []
    | some .text => ["--output", "text"]
    | some .json => ["--output", "json"]
  form ++ if quiet then ["--quiet"] else []

theorem read?_quiet {options : Options} (h : options.quiet = false) (quiet : Bool)
    (arguments : List String) :
    read? options ((if quiet then ["--quiet"] else []) ++ arguments) =
      read? { options with quiet } arguments := by
  obtain ⟨output, silent, config, seed⟩ := options
  obtain rfl : silent = false := h
  cases quiet <;> rfl

theorem read?_output {name : String} {format : OutputFormat}
    (hname : OutputFormat.ofName? name = some format) (hvalue : isOption name = false)
    (rest : List String) :
    read? .none ("--output" :: name :: rest) =
      read? (Options.none.reporting format false) rest := by
  have hh : "--output".startsWith "-h" = false := by decide +kernel
  have hv : "--output".startsWith "-V" = false := by decide +kernel
  have hoption : isOption "--output" = true := by decide +kernel
  have hsplit : splitOption "--output" = ("--output", none) := by decide
  have hput : Options.none.put? "--output" name = some (Options.none.reporting format false) := by
    simp [Options.put?, Options.none, Options.reporting, hname]
  have hstep : read? .none ("--output" :: name :: rest) =
      (Options.none.put? "--output" name).bind (read? · rest) := by
    conv_lhs => unfold read?
    simp [hh, hv, hoption, hsplit, hvalue]
  rw [hstep, hput, Option.bind_some]

theorem read?_reportFlags (output : Option OutputFormat) (quiet : Bool) (arguments : List String) :
    read? .none (reportFlags output quiet ++ arguments) =
      read? (Options.none.reporting output quiet) arguments := by
  unfold reportFlags
  cases output with
  | none => exact read?_quiet rfl quiet arguments
  | some format =>
    cases format with
    | text => exact (read?_output rfl (by decide +kernel) _).trans (read?_quiet rfl quiet arguments)
    | json => exact (read?_output rfl (by decide +kernel) _).trans (read?_quiet rfl quiet arguments)

theorem ofArguments?_reportFlags {arguments : List String} {options : Options} {command : Command}
    (h : ofArguments? arguments = some (.run options command)) (hoptions : options.Unreported)
    (output : Option OutputFormat) (quiet : Bool) :
    ofArguments? (reportFlags output quiet ++ arguments) =
      some (.run (options.reporting output quiet) command) := by
  obtain ⟨-, hread⟩ := read?_eq_run h hoptions
  rw [ofArguments?, read?_reportFlags, hread]

end Request

/-- A run ends with a fault or with an answer, whatever it is told on how to report. -/
theorem Command.run_cases (diagnose : String → String) (files : Files) (now : Int64)
    (command : Command) (config : Option String) (seed : Option UInt64) :
    ∃ form : OutputFormat,
      (∃ fault, ∀ output quiet, command.run diagnose files now ⟨output, quiet, config, seed⟩ =
        .ofFault (output.getD form) quiet fault) ∨
      ∃ used answer, command.answer files now used = .ok answer ∧
        ∀ output quiet, command.run diagnose files now ⟨output, quiet, config, seed⟩ =
          .ofAnswer (output.getD form) quiet answer := by
  cases hconfig : readConfig diagnose files config with
  | error fault =>
    refine ⟨.text, .inl ⟨fault, fun output quiet => ?_⟩⟩
    simp [Command.run, hconfig]
  | ok settings =>
    let form := (settings.format.bind OutputFormat.ofName?).getD .text
    have hform : ∀ output : Option OutputFormat,
        (output <|> settings.format.bind OutputFormat.ofName?).getD .text = output.getD form := by
      intro output
      cases output <;> rfl
    cases hanswer : command.answer files now (seed <|> settings.seed.map .ofNat) with
    | error fault =>
      refine ⟨form, .inl ⟨fault, fun output quiet => ?_⟩⟩
      simp only [Command.run, hconfig, hanswer, hform]
    | ok answer =>
      refine ⟨form, .inr ⟨_, answer, hanswer, fun output quiet => ?_⟩⟩
      simp only [Command.run, hconfig, hanswer, hform]

theorem lineTexts_ne_empty (line : String) : lineTexts [line] ≠ "" := by
  simp [lineTexts, String.join]

/-- A survey with two questions and a page break between them, responses without any answer, and a
list. -/
def threeFiles : Files
  | "s.json" => .text (
    "\x7b\"id\": \"s\", \"root\": \x7b\"kind\": \"group\", \"key\": \"g\", \"items\": [" ++
    "\x7b\"kind\": \"question\", \"key\": \"a\", \"role\": \"text\"\x7d, " ++
    "\x7b\"kind\": \"pageBreak\", \"key\": \"p\"\x7d, " ++
    "\x7b\"kind\": \"question\", \"key\": \"b\", \"role\": \"text\"\x7d]\x7d\x7d")
  | "r.json" => .text "\x7b\x7d"
  | "l.json" => .text "[]"
  | _ => .missing

end Questionnaire.CommandLine
