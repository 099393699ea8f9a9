import NordLang.Proofs.Command.Verbosity
import NordLang.Proofs.Session.Tools

/-!
# Tools and the command line agree

A tool about a program in a file and the command of the same meaning give the same answer, the
command on its output channel and with a line feed.  A diagnostic is the tool's answer and goes to
the command's error channel, and any other failure is passed on by both (`Agrees`).

Both go the same way: they parse the text of the file and then answer about the tree
(`outcome_of_counterpart`, `perform_silent`).  Only the faults of parsing are diagnostics, since
what is parsed is always laid out and a setting that cannot be used is none (`diagnostic?_answer`).
So which texts are reported, and in which words, does not depend on the command.
-/

namespace NordLang

/-! ## Commands on a parsed text -/

namespace Command

/-- No failure of a command on a tree that was parsed is a diagnostic. -/
theorem diagnostic?_answer {source : List Char} {tree : Tree} (hparse : parseText source = .ok tree)
    {command label : String} {config : Setting} {f : Failure}
    (h : answer command label config tree = .error f) : f.diagnostic? = none := by
  rw [answer] at h
  split at h
  · cases h
  · split at h
    · obtain ⟨fault, _, rfl⟩ := dump_eq_error.1 h
      rfl
    · obtain ⟨text, htext⟩ := layout_of_parse hparse
      rw [htext] at h
      cases h

end Command

namespace CommandLine

theorem broken_of_no_diagnostic {f : Failure} (h : f.diagnostic? = none) (stderr : String) :
    broken stderr f = ⟨"", stderr, .failed f⟩ := by
  simp only [broken, Failure.reported, h]

/-- A silent command parses the text and answers about the tree. -/
theorem perform_silent {command : String} {source : List Char} {label : String}
    {config silent : Setting} (h : Command.setting config "cli" "silent" = .ok silent)
    (hcommand : command ≠ "tokens") (hsilent : silent.isTrue = true) :
    perform command source label config =
      match parseText source with
      | .error fault => broken "" (.parse fault)
      | .ok tree =>
        match Command.answer command label config tree with
        | .ok text => ⟨text ++ "\n", "", .returned⟩
        | .error failure => ⟨"", "", .failed failure⟩ := by
  simp only [perform, Command.run_silent h hcommand hsilent, Command.quietly, Command.parse]
  rcases hparse : parseText source with fault | tree
  · rfl
  · rcases hanswer : Command.answer command label config tree with failure | text
    · have hfailure := Command.diagnostic?_answer hparse hanswer
      simp only [mapError_ok, Except.bind, hanswer]
      exact broken_of_no_diagnostic hfailure ""
    · simp only [mapError_ok, Except.bind, hanswer]

/-- A command on a file that holds a text is the command on the text. -/
theorem call_of_holds {s : Session} {path : String} {source : List Char}
    (h : s.Holds path source) (hpath : path ≠ "-e") {loaded : Loaded}
    (hloaded : (s.settings none).1 = .ok loaded) {command : String}
    (hcommand : commands.contains command = true) (rest : List String) :
    (call (command :: path :: rest) s).1 = perform command source path loaded.config := by
  obtain ⟨bytes, hread, hdecode⟩ := h
  have hstore := Session.store_settings s none
  rcases hsettings : s.settings none with ⟨result, s'⟩
  simp only [hsettings] at hloaded hstore
  subst hloaded
  simp only [call, hcommand, hsettings, if_neg hpath, performFile, hstore,
    Store.exists?_of_read_eq_ok hread, hread, hdecode, Bool.not_true, Bool.false_eq_true, if_false]

end CommandLine

/-! ## Tools and commands -/

namespace Session

/-- The commands and the tools of the same meaning. -/
inductive Counterpart :
    String → (RawText → Session → Except Failure RawText × Session) → Prop where
  | check : Counterpart "check" checkFile
  | parse : Counterpart "parse" parseFile
  | fmt : Counterpart "fmt" formatFile

theorem Counterpart.contains_commands {command : String}
    {tool : RawText → Session → Except Failure RawText × Session} (h : Counterpart command tool) :
    CommandLine.commands.contains command = true := by
  cases h <;> decide

theorem Counterpart.ne_tokens {command : String}
    {tool : RawText → Session → Except Failure RawText × Session} (h : Counterpart command tool) :
    command ≠ "tokens" := by
  cases h <;> decide

/-- What a tool answers about a program text: a diagnostic of parsing in a sentence, and else what
there is to be said about the tree. -/
def replyTo (source : List Char) (answer : Tree → Except Failure RawText) :
    Except Failure RawText :=
  match parseText source with
  | .error fault => (Failure.parse fault).reported.map RawText.ofString
  | .ok tree => answer tree

/-- What the tools answer about the text that a file holds. -/
theorem tools_of_holds {s : Session} {path : RawText} {source : List Char} (h : s.Holds path source)
    {loaded : Loaded} (hloaded : (s.settings none).1 = .ok loaded) :
    (checkFile path s).1 = replyTo source (fun _ => .ok ("OK: " ++ path)) ∧
    (parseFile path s).1 =
      replyTo source (fun tree => (Command.dump loaded.config tree).map RawText.ofString) ∧
    (formatFile path s).1 =
      replyTo source (fun tree => (Command.layout tree).map RawText.ofString) := by
  rcases hsettings : s.settings none with ⟨result, s'⟩
  rw [hsettings] at hloaded
  cases hloaded
  rw [checkFile, parseFile, formatFile, withProgram_of_holds h, withProgram_of_holds h,
    withProgram_of_holds h, hsettings]
  unfold replyTo
  rcases parseText source with fault | tree
  · exact ⟨rfl, rfl, rfl⟩
  · exact ⟨rfl, rfl, rfl⟩

/-- A tool parses the text and answers about the tree, too. -/
theorem outcome_of_counterpart {command : String}
    {tool : RawText → Session → Except Failure RawText × Session} (h : Counterpart command tool)
    {s : Session} {path : String} {source : List Char} (hholds : s.Holds path source)
    {loaded : Loaded} (hloaded : (s.settings none).1 = .ok loaded) :
    (tool path s).1 =
      replyTo source
        (fun tree => (Command.answer command path loaded.config tree).map RawText.ofString) := by
  obtain ⟨hcheck, hparse, hformat⟩ := tools_of_holds hholds hloaded
  cases h with
  | check =>
    have hlabel : RawText.ofString ("OK: " ++ path) = "OK: " ++ RawText.ofString path :=
      RawText.ofString_append _ _
    simpa [Command.answer, hlabel] using hcheck
  | parse => exact hparse
  | fmt => exact hformat

/-- What a tool returns and what a call leaves behind correspond, given what comes of parsing. -/
inductive Agrees : Except ParseFault Tree → Except Failure RawText → Call → Prop where
  | answered {tree : Tree} {text : String} :
      Agrees (.ok tree) (.ok (RawText.ofString text)) ⟨text ++ "\n", "", .returned⟩
  | failed {tree : Tree} {failure : Failure} (h : failure.diagnostic? = none) :
      Agrees (.ok tree) (.error failure) ⟨"", "", .failed failure⟩
  | reported {fault : ParseFault} {d : Diagnostic} (h : fault.diagnostic? = some d) :
      Agrees (.error fault) (.ok (RawText.ofString ("Error: " ++ d.message)))
        ⟨"", "Error: " ++ d.message ++ "\n", .exited 1⟩
  | passedOn {fault : ParseFault} (h : fault.diagnostic? = none) :
      Agrees (.error fault) (.error (.parse fault)) ⟨"", "", .failed (.parse fault)⟩

theorem agrees_error (fault : ParseFault) :
    Agrees (.error fault) ((Failure.parse fault).reported.map RawText.ofString)
      (CommandLine.broken "" (.parse fault)) := by
  rcases h : fault.diagnostic? with _ | d
  · have hreported : (Failure.parse fault).reported = .error (.parse fault) := by
      simp only [Failure.reported, Failure.diagnostic?, h]
    have hfailure : (Failure.parse fault).diagnostic? = none := h
    rw [CommandLine.broken_of_no_diagnostic hfailure, hreported]
    exact .passedOn h
  · have hreported : (Failure.parse fault).reported = .ok ("Error: " ++ d.message) := by
      simp only [Failure.reported, Failure.diagnostic?, h]
    rw [CommandLine.broken, hreported]
    exact .reported h

/-- A call that agrees with a tool is refused exactly for the diagnostics of parsing. -/
theorem Agrees.refused_iff {parsed : Except ParseFault Tree} {result : Except Failure RawText}
    {call : Call} (h : Agrees parsed result call) (message : String) :
    call = CommandLine.refused ("Error: " ++ message ++ "\n") ↔
      ∃ fault d, parsed = .error fault ∧ fault.diagnostic? = some d ∧ d.message = message := by
  cases h with
  | answered | failed => simp [CommandLine.refused]
  | @reported fault d hfault => simp [CommandLine.refused, hfault]
  | passedOn hfault => simp [CommandLine.refused, hfault]

end Session

end NordLang
