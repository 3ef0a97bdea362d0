import DeclFront.CommandLine.Run
import DeclFront.Proofs.Limits

/-!
# The commands agree

What a command has to report is made from the text alone (`Command.reports`). The options decide how
many of the reports are shown and in which form, never whether there are any, so how a command ends
depends on the command and the text only (`Options.outcome_run`).

**Theorem (`commands_agree`).** `check` and `parse` read the same module, and `lex` complains about
the same segments with and without trivia. As the parser reads every segment, a text that it finds
nothing wrong with is one that the lexer finds nothing wrong with.
-/

namespace DeclFront

/-! ## What a command has to report -/

/-- Everything that a command finds wrong, in the order in which it is found. -/
def Command.reports (cs : List Char) : Command → List Diagnostic
  | .lex => Segment.complaints cs
  | .parse | .check => Module.reports cs
  | .help | .version => []

/-- How a command ends that has read the text, whatever its options are. -/
def Command.outcome (text : String) (command : Command) : Outcome :=
  if (command.reports text.toList).isEmpty then .clean else .diagnostics

/-- What the parser has nothing to report about, the lexer has nothing to report about. -/
theorem Module.complaints_eq_nil {cs : List Char} (h : reports cs = []) :
    Segment.complaints cs = [] := by
  rw [← lexical_raised_lastCursor, ← reports, h]
  rfl

namespace Options

variable (o : Options) (s : Source) (onTerminal : Bool)

/-- A command shows its reports, up to the limit and in the order of display. -/
theorem diagnostics_findings : (o.findings s).2 =
    ((Sink.ofUserLimit o.errorLimit).reportAll (o.command.reports s.chars)).sorted := by
  have hnone (limit : Nat) : ((Sink.ofUserLimit limit).reportAll []).sorted = [] :=
    (Sink.sorted_reportAll_eq_nil_iff limit []).2 rfl
  unfold findings
  cases o.command with
  | lex =>
    cases o.significant with
    | true => exact diagnostics_lexSignificant s o.errorLimit
    | false => exact diagnostics_lexRaw s o.errorLimit
  | parse => rfl
  | check => rfl
  | help => exact (hnone o.errorLimit).symm
  | version => exact (hnone o.errorLimit).symm

/-- A limit hides some reports, but not that there were any. -/
theorem outcome_run : (o.run s onTerminal).outcome = o.command.outcome s.text := by
  have hempty : (o.findings s).2.isEmpty = (o.command.reports s.chars).isEmpty := by
    rw [diagnostics_findings, Bool.eq_iff_iff, List.isEmpty_iff, List.isEmpty_iff,
      Sink.sorted_reportAll_eq_nil_iff]
  show (if (o.findings s).2.isEmpty then Outcome.clean else .diagnostics) = _
  rw [hempty]
  rfl

/-- Carries out the command on a text from the standard input, into streams without an end. -/
def onText (text : String) (readFile : String → Except ReadFailure ByteArray) : Written :=
  { o with input := .stdin }.execute text.toUTF8 readFile onTerminal none

theorem ofBytes_toUTF8 (name text : String) :
    Source.ofBytes name text.toUTF8 = .ok ⟨text, some name⟩ := by
  have htext : String.fromUTF8? text.toUTF8 = some text := by
    rw [String.fromUTF8?, dif_pos (by simpa using text.isValidUTF8)]
    rfl
  rw [Source.ofBytes, htext]

variable (text : String) (readFile : String → Except ReadFailure ByteArray)

theorem onText_eq : o.onText onTerminal text readFile =
    (o.run ⟨text, some "<stdin>"⟩ onTerminal).write o.diagnosticsToStdout none := by
  rw [onText, execute]
  simp only [Input.source, ofBytes_toUTF8]
  rfl

theorem result_onText :
    (o.onText onTerminal text readFile).result = .ok (o.command.outcome text) := by
  rw [onText_eq, ← o.outcome_run ⟨text, some "<stdin>"⟩ onTerminal, Output.write]
  split
  · contradiction
  · split <;> rfl

/-- `check` prints its diagnostics on the standard output. -/
theorem written_check (h : o.command = .check) :
    (o.onText onTerminal text readFile).stdout =
        (o.report ⟨text, some "<stdin>"⟩ onTerminal (o.findings ⟨text, some "<stdin>"⟩).2).toUTF8 ∧
      (o.onText onTerminal text readFile).stderr = "" := by
  have hstdout : o.diagnosticsToStdout = true := by rw [diagnosticsToStdout, h]; rfl
  have hlisting (s : Source) : (o.run s onTerminal).listing = "" := by
    show (o.findings s).1 = ""
    rw [findings, h]
  rw [onText_eq, Output.write, if_neg (by simp), if_pos hstdout, hlisting, String.empty_append]
  exact ⟨rfl, rfl⟩

/-- Every other command prints them on the standard error. -/
theorem stderr_onText (h : o.command ≠ .check) : (o.onText onTerminal text readFile).stderr =
    o.report ⟨text, some "<stdin>"⟩ onTerminal (o.findings ⟨text, some "<stdin>"⟩).2 := by
  have hstderr : ¬ o.diagnosticsToStdout = true := by simpa [diagnosticsToStdout] using h
  rw [onText_eq, Output.write, if_neg (by simp), if_neg hstderr]
  rfl

/-- Commands with the same reports print the same diagnostics in the same form. -/
theorem report_congr {o o' : Options} (hcolor : o.color = o'.color) (hformat : o.format = o'.format)
    (hlimit : o.errorLimit = o'.errorLimit)
    (hreports : o.command.reports s.chars = o'.command.reports s.chars) :
    o.report s onTerminal (o.findings s).2 = o'.report s onTerminal (o'.findings s).2 := by
  rw [diagnostics_findings, diagnostics_findings, report, report, hcolor, hformat, hlimit, hreports]

end Options

/-- **The commands agree.** With a text on the standard input, how a command ends depends on the
command and the text alone. `check` ends as `parse` does, and where it finds nothing, `lex` finds
nothing. With the same colour, format and limit, `check` prints on the standard output what `parse`
prints on the standard error, and `lex` prints the same diagnostics with and without trivia,
whatever the other options are. -/
theorem commands_agree (text : String) (readFile : String → Except ReadFailure ByteArray) :
    (∀ (o : Options) (onTerminal : Bool),
      (o.onText onTerminal text readFile).result = .ok (o.command.outcome text)) ∧
    Command.outcome text .check = Command.outcome text .parse ∧
    (Command.outcome text .check = .clean → Command.outcome text .lex = .clean) ∧
    ∀ (color : ColorMode) (format : Format) (limit : Nat) (onTerminal : Bool),
      let written (command : Command) (keepTrivia significant : Bool) : Written :=
        Options.onText ⟨command, .stdin, color, format, limit, keepTrivia, significant⟩ onTerminal
          text readFile
      ∀ keepTrivia keepTrivia' significant significant' : Bool,
        (written .check keepTrivia significant).stdout =
            (written .parse keepTrivia' significant').stderr.toUTF8 ∧
          (written .check keepTrivia significant).stderr = "" ∧
          (written .lex keepTrivia significant).stderr =
            (written .lex keepTrivia' significant').stderr := by
  refine ⟨fun o onTerminal => o.result_onText onTerminal text readFile, rfl, fun hcheck => ?_, ?_⟩
  · have hreports : Module.reports text.toList = [] := by
      by_contra hne
      have hempty : ¬ (Module.reports text.toList).isEmpty = true := by simpa using hne
      rw [Command.outcome, Command.reports, if_neg hempty] at hcheck
      cases hcheck
    rw [Command.outcome, Command.reports, Module.complaints_eq_nil hreports]
    rfl
  · intro color format limit onTerminal written keepTrivia keepTrivia' significant significant'
    obtain ⟨hstdout, hstderr⟩ := Options.written_check
      ⟨.check, .stdin, color, format, limit, keepTrivia, significant⟩ onTerminal text readFile rfl
    refine ⟨?_, hstderr, ?_⟩
    · rw [hstdout, Options.stderr_onText _ _ _ _ (by simp)]
      exact congrArg String.toUTF8 (Options.report_congr _ _ rfl rfl rfl rfl)
    · rw [Options.stderr_onText _ _ _ _ (by simp), Options.stderr_onText _ _ _ _ (by simp)]
      exact Options.report_congr _ _ rfl rfl rfl rfl

/-- A declaration that nothing is wrong with. -/
theorem commands_agree_clean :
    let text := "[[m]]\nA := B // c"
    Command.outcome text .check = .clean ∧ Command.outcome text .lex = .clean := by
  intro text
  have hcheck : Command.outcome text .check = .clean := by decide +kernel
  exact ⟨hcheck, (commands_agree text fun _ => .error .notText).2.2.1 hcheck⟩

end DeclFront
