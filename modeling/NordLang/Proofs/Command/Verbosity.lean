import NordLang.Command
import NordLang.Proofs.Grammar.OnDemand
import NordLang.Proofs.Settings.Lookup

/-!
# Verbosity and outcomes

Unless the settings ask for silence, a command lists the tokens of its text before it parses the
text.  So it scans all of it first, and a lexical fault is reported even if the parser would have
refused a token before it.  That is the only influence of `cli.silent` on the outcome of a command
(`run_outcome_verbosity`).
-/

namespace NordLang

namespace Command

/-- The outcome of a command that is silent: the text is scanned as far as it is parsed. -/
def quietly (command : String) (source : List Char) (label : String) (config : Setting) :
    Except Failure String :=
  (parse source).bind (answer command label config)

theorem outcome_run_tokens {source : List Char} {label : String} {config silent : Setting}
    (h : setting config "cli" "silent" = .ok silent) :
    (run "tokens" source label config).outcome = tokenListing source := by
  rw [run, h]
  rfl

theorem run_silent {command : String} {source : List Char} {label : String}
    {config silent : Setting} (h : setting config "cli" "silent" = .ok silent)
    (hcommand : command ≠ "tokens") (hsilent : silent.isTrue = true) :
    run command source label config = ⟨"", quietly command source label config⟩ := by
  rw [run, h, quietly]
  simp only [if_neg hcommand, hsilent, if_true]
  rcases parse source with failure | tree
  · rfl
  · rfl

theorem outcome_run_silent {command : String} {source : List Char} {label : String}
    {config silent : Setting} (h : setting config "cli" "silent" = .ok silent)
    (hcommand : command ≠ "tokens") (hsilent : silent.isTrue = true) :
    (run command source label config).outcome = quietly command source label config := by
  rw [run_silent h hcommand hsilent]

theorem outcome_run_verbose {command : String} {source : List Char} {label : String}
    {config silent : Setting} (h : setting config "cli" "silent" = .ok silent)
    (hcommand : command ≠ "tokens") (hsilent : silent.isTrue = false) :
    (run command source label config).outcome =
      match tokenize source with
      | .error fault => .error (.parse (.lexical fault))
      | .ok _ => quietly command source label config := by
  rw [run, h, quietly, tokenize, Scan.toExcept]
  simp only [if_neg hcommand, hsilent, tokensSeen]
  rcases (Cursor.ofText source).scan.fault with _ | fault
  · rcases parse source with failure | tree
    · rfl
    · rfl
  · rfl

/-- Where the text is parsed, the outcome is the answer about its tree. -/
theorem outcome_run_of_parse {command : String} {source : List Char} {label : String}
    {config silent : Setting} (h : setting config "cli" "silent" = .ok silent)
    (hcommand : command ≠ "tokens") {tree : Tree} (hparse : parseText source = .ok tree) :
    (run command source label config).outcome = answer command label config tree := by
  have hquietly : quietly command source label config = answer command label config tree := by
    rw [quietly, parse, hparse]
    rfl
  rcases hsilent : silent.isTrue with _ | _
  · obtain ⟨ts, htiled, _⟩ := parseText_eq_ok.1 hparse
    rw [outcome_run_verbose h hcommand hsilent, tokenize_eq_ok.2 ⟨ts, htiled, rfl⟩]
    exact hquietly
  · rw [outcome_run_silent h hcommand hsilent]
    exact hquietly

/-- The settings differ at most in `cli.silent`. -/
def AgreeButSilent (c c' : Setting) : Prop :=
  ∀ sectionName name, (sectionName, name) ≠ ("cli", "silent") →
    setting c sectionName name = setting c' sectionName name

theorem AgreeButSilent.symm {c c' : Setting} (h : AgreeButSilent c c') : AgreeButSilent c' c :=
  fun sectionName name hne => (h sectionName name hne).symm

theorem AgreeButSilent.quietly_eq {c c' : Setting} (h : AgreeButSilent c c') (command : String)
    (source : List Char) (label : String) :
    quietly command source label c = quietly command source label c' := by
  have hindent := h "cli" "json_indent" (by decide)
  have hanswer : answer command label c = answer command label c' := by
    funext tree
    rw [answer, answer, dump, dump, hindent]
  rw [quietly, quietly, hanswer]

/-- Settings with the given value for `cli.silent`. -/
def withSilent (entries cli : Entries) (silent : Setting) : Setting :=
  .mapping (entries.insert (.text "cli") (.mapping (cli.insert (.text "silent") silent)))

theorem setting_withSilent (entries cli : Entries) (silent : Setting) :
    setting (withSilent entries cli silent) "cli" "silent" = .ok silent := by
  rw [setting, withSilent, Setting.member_insert_self]
  simp only [Except.bind, Setting.member_insert_self]
  rfl

theorem agreeButSilent_withSilent (entries cli : Entries) (silent silent' : Setting) :
    AgreeButSilent (withSilent entries cli silent) (withSilent entries cli silent') := by
  intro sectionName name hne
  rw [setting, setting, withSilent, withSilent]
  by_cases hsection : "cli" = sectionName
  · subst hsection
    have hname : "silent" ≠ name := by
      rintro rfl
      exact hne rfl
    rw [Setting.member_insert_self, Setting.member_insert_self]
    simp only [Except.bind, Setting.member_insert_of_ne hname]
  · rw [Setting.member_insert_of_ne hsection, Setting.member_insert_of_ne hsection]

/-- The text has a lexical fault, and a token before it is refused. -/
structure Clash (source : List Char) (e : LexicalFault) : Prop where
  lexical : tokenize source = .error e
  refused : ¬ Viable (Cursor.ofText source).scan.tokens

/-- Of the two faults in a text the silent command reports the one of the parser. -/
theorem Clash.quietly_eq {source : List Char} {e : LexicalFault} (h : Clash source e)
    (command label : String) (config : Setting) :
    ∃ fault t, quietly command source label config = .error (.parse fault) ∧
      (Supply.ofTokens (Cursor.ofText source).scan.tokens).parse = .error fault ∧
      fault.token? = some t ∧ t ∈ (Cursor.ofText source).scan.tokens := by
  rcases Reader.parse_of_fault (shows_of_tokenize_eq_error h.lexical) with
    ⟨_, hviable⟩ | ⟨_, fault, t, hparse, hlist, ht, hmem⟩
  · exact absurd hviable h.refused
  · refine ⟨fault, t, ?_, hlist, ht, hmem⟩
    have hparse : parseText source = .error fault := hparse
    rw [quietly, parse, hparse]
    rfl

/-- Without a second fault the parser meets the lexical one. -/
theorem quietly_of_tokenize_eq_error {source : List Char} {e : LexicalFault}
    (h : tokenize source = .error e) (hclash : ¬ Clash source e) (command label : String)
    (config : Setting) :
    quietly command source label config = .error (.parse (.lexical e)) := by
  rcases Reader.parse_of_fault (shows_of_tokenize_eq_error h) with ⟨hparse, _⟩ | ⟨hnot, _⟩
  · have hparse : parseText source = .error (.lexical e) := hparse
    rw [quietly, parse, hparse]
    rfl
  · exact absurd ⟨h, hnot⟩ hclash

/-- A silent and a verbose command have the same outcome, or the text has two faults and they report
one each. -/
theorem outcome_run_silent_verbose {c c' silent silent' : Setting} (h : AgreeButSilent c c')
    (hc : setting c "cli" "silent" = .ok silent) (hc' : setting c' "cli" "silent" = .ok silent')
    (hsilent : silent.isTrue = true) (hsilent' : silent'.isTrue = false) {command : String}
    (hcommand : command ≠ "tokens") (source : List Char) (label : String) :
    ((∀ e, ¬ Clash source e) ∧
      (run command source label c).outcome = (run command source label c').outcome) ∨
    ∃ e fault t, Clash source e ∧
      (run command source label c').outcome = .error (.parse (.lexical e)) ∧
      (run command source label c).outcome = .error (.parse fault) ∧
      (Supply.ofTokens (Cursor.ofText source).scan.tokens).parse = .error fault ∧
      fault.token? = some t ∧ t ∈ (Cursor.ofText source).scan.tokens := by
  rw [outcome_run_silent hc hcommand hsilent, outcome_run_verbose hc' hcommand hsilent']
  rcases htokens : tokenize source with e | ts
  · by_cases hclash : Clash source e
    · obtain ⟨fault, t, hquietly, hlist, ht, hmem⟩ := hclash.quietly_eq command label c
      exact .inr ⟨e, fault, t, hclash, rfl, hquietly, hlist, ht, hmem⟩
    · refine .inl ⟨fun e' he' => ?_, quietly_of_tokenize_eq_error htokens hclash command label c⟩
      cases htokens.symm.trans he'.lexical
      exact hclash he'
  · refine .inl ⟨fun e he => ?_, h.quietly_eq command source label⟩
    cases htokens.symm.trans he.lexical

/-- So both answer alike, and differ exactly if there are two faults. -/
theorem outcome_run_silent_verbose_iff {c c' silent silent' : Setting} (h : AgreeButSilent c c')
    (hc : setting c "cli" "silent" = .ok silent) (hc' : setting c' "cli" "silent" = .ok silent')
    (hsilent : silent.isTrue = true) (hsilent' : silent'.isTrue = false) {command : String}
    (hcommand : command ≠ "tokens") (source : List Char) (label : String) :
    (∀ text, (run command source label c).outcome = .ok text ↔
      (run command source label c').outcome = .ok text) ∧
    ((run command source label c).outcome = (run command source label c').outcome ↔
      ∀ e, ¬ Clash source e) := by
  rcases outcome_run_silent_verbose h hc hc' hsilent hsilent' hcommand source label with
    ⟨hnone, heq⟩ | ⟨e, fault, t, hclash, hverbose, hquiet, _, ht, _⟩
  · rw [heq]
    exact ⟨fun text => Iff.rfl, fun _ => hnone, fun _ => rfl⟩
  · rw [hverbose, hquiet]
    refine ⟨fun text => ?_, fun heq => ?_, fun hnone => absurd hclash (hnone e)⟩
    · simp
    · cases heq
      cases ht

theorem outcome_run_congr {c c' silent silent' : Setting} (h : AgreeButSilent c c')
    (hc : setting c "cli" "silent" = .ok silent) (hc' : setting c' "cli" "silent" = .ok silent')
    (hsame : silent.isTrue = silent'.isTrue) {command : String} (hcommand : command ≠ "tokens")
    (source : List Char) (label : String) :
    (run command source label c).outcome = (run command source label c').outcome := by
  have hquietly := h.quietly_eq command source label
  rcases hsilent : silent.isTrue with _ | _
  · rw [outcome_run_verbose hc hcommand hsilent,
      outcome_run_verbose hc' hcommand (hsame.symm.trans hsilent), hquietly]
  · rw [outcome_run_silent hc hcommand hsilent,
      outcome_run_silent hc' hcommand (hsame.symm.trans hsilent), hquietly]

theorem outcome_run_iff {c c' silent silent' : Setting} (h : AgreeButSilent c c')
    (hc : setting c "cli" "silent" = .ok silent) (hc' : setting c' "cli" "silent" = .ok silent')
    {command : String} (hcommand : command ≠ "tokens") (source : List Char) (label : String) :
    (∀ text, (run command source label c).outcome = .ok text ↔
      (run command source label c').outcome = .ok text) ∧
    ((run command source label c).outcome = (run command source label c').outcome ↔
      silent.isTrue = silent'.isTrue ∨ ∀ e, ¬ Clash source e) := by
  by_cases hsame : silent.isTrue = silent'.isTrue
  · have heq := outcome_run_congr h hc hc' hsame hcommand source label
    rw [heq]
    exact ⟨fun text => Iff.rfl, fun _ => .inl hsame, fun _ => rfl⟩
  · rcases hsilent : silent.isTrue with _ | _
    · have hsilent' : silent'.isTrue = true := by simpa [hsilent] using hsame
      obtain ⟨hanswers, hfailures⟩ :=
        outcome_run_silent_verbose_iff h.symm hc' hc hsilent' hsilent hcommand source label
      refine ⟨fun text => (hanswers text).symm, ?_⟩
      rw [eq_comm, hfailures, hsilent']
      simp
    · have hsilent' : silent'.isTrue = false := by simpa [hsilent] using hsame
      obtain ⟨hanswers, hfailures⟩ :=
        outcome_run_silent_verbose_iff h hc hc' hsilent hsilent' hcommand source label
      refine ⟨hanswers, ?_⟩
      rw [hfailures, hsilent']
      simp

/-- Settings that differ in `cli.silent` alone give the same answers.  They give the same failures
too, except where one of them is silent and the other is not, the command parses, and the text has a
lexical fault behind tokens that are not viable.  Then the silent command reports the token that the
parser refuses, and the verbose one the lexical fault. -/
theorem run_outcome_verbosity {c c' silent silent' : Setting} (h : AgreeButSilent c c')
    (hc : setting c "cli" "silent" = .ok silent) (hc' : setting c' "cli" "silent" = .ok silent')
    (command : String) (source : List Char) (label : String) :
    (∀ text, (run command source label c).outcome = .ok text ↔
      (run command source label c').outcome = .ok text) ∧
    ((run command source label c).outcome = (run command source label c').outcome ↔
      command = "tokens" ∨ silent.isTrue = silent'.isTrue ∨ ∀ e, ¬ Clash source e) ∧
    (command ≠ "tokens" → silent.isTrue = true → silent'.isTrue = false → ∀ e, Clash source e →
      (run command source label c').outcome = .error (.parse (.lexical e)) ∧
      ∃ fault t, (run command source label c).outcome = .error (.parse fault) ∧
        (Supply.ofTokens (Cursor.ofText source).scan.tokens).parse = .error fault ∧
        fault.token? = some t ∧ t ∈ (Cursor.ofText source).scan.tokens) := by
  by_cases hcommand : command = "tokens"
  · subst hcommand
    rw [outcome_run_tokens hc, outcome_run_tokens hc']
    exact ⟨fun text => Iff.rfl, ⟨fun _ => .inl rfl, fun _ => rfl⟩, fun hne => absurd rfl hne⟩
  obtain ⟨hanswers, hfailures⟩ := outcome_run_iff h hc hc' hcommand source label
  refine ⟨hanswers, ?_, fun _ hsilent hsilent' e hclash => ?_⟩
  · rw [hfailures]
    exact ⟨.inr, fun hor => hor.resolve_left hcommand⟩
  · rcases outcome_run_silent_verbose h hc hc' hsilent hsilent' hcommand source label with
      ⟨hnone, _⟩ | ⟨e', fault, t, hclash', hverbose, hquiet, hrest⟩
    · exact absurd hclash (hnone e)
    · cases hclash.lexical.symm.trans hclash'.lexical
      exact ⟨hverbose, fault, t, hquiet, hrest⟩

/-- Verbosity does change the outcome where the parser refuses a token before a lexical fault. -/
theorem run_outcome_depends_on_silent :
    let config (silent : Bool) := withSilent Settings.defaults
      [(.text "json_indent", .scalar (.int 2))] (.scalar (.bool silent))
    let closing : Token := ⟨.rparen, .text ")", ⟨1, 1⟩, 0, 1⟩
    AgreeButSilent (config true) (config false) ∧
    (run "check" [')', ' ', '?'] "<expr>" (config true)).outcome =
      .error (.parse (.expected "expression" closing)) ∧
    (run "check" [')', ' ', '?'] "<expr>" (config false)).outcome =
      .error (.parse (.lexical (.unexpectedCharacter '?' ⟨1, 3⟩ 2))) := by
  intro config closing
  refine ⟨agreeButSilent_withSilent _ _ _ _, ?_, ?_⟩
  · with_unfolding_all rfl
  · with_unfolding_all rfl

/-- The difference between two runs shows that there are two faults in the text. -/
theorem run_outcome_verbosity_parenthesis :
    let config (silent : Bool) := withSilent Settings.defaults
      [(.text "json_indent", .scalar (.int 2))] (.scalar (.bool silent))
    AgreeButSilent (config true) (config false) ∧
    setting (config true) "cli" "silent" = .ok (.scalar (.bool true)) ∧
    setting (config false) "cli" "silent" = .ok (.scalar (.bool false)) ∧
    (∃ e, Clash [')', ' ', '?'] e) ∧
    ∀ text, (run "check" [')', ' ', '?'] "<expr>" (config true)).outcome = .ok text ↔
      (run "check" [')', ' ', '?'] "<expr>" (config false)).outcome = .ok text := by
  intro config
  have hagree : AgreeButSilent (config true) (config false) := agreeButSilent_withSilent _ _ _ _
  have hquiet : setting (config true) "cli" "silent" = .ok (.scalar (.bool true)) :=
    setting_withSilent _ _ _
  have hverbose : setting (config false) "cli" "silent" = .ok (.scalar (.bool false)) :=
    setting_withSilent _ _ _
  obtain ⟨hanswers, hfailures, _⟩ :=
    run_outcome_verbosity hagree hquiet hverbose "check" [')', ' ', '?'] "<expr>"
  have hne : (run "check" [')', ' ', '?'] "<expr>" (config true)).outcome ≠
      (run "check" [')', ' ', '?'] "<expr>" (config false)).outcome := by
    have hrefused : (run "check" [')', ' ', '?'] "<expr>" (config true)).outcome =
        .error (.parse (.expected "expression" ⟨.rparen, .text ")", ⟨1, 1⟩, 0, 1⟩)) := by
      with_unfolding_all rfl
    have hlexical : (run "check" [')', ' ', '?'] "<expr>" (config false)).outcome =
        .error (.parse (.lexical (.unexpectedCharacter '?' ⟨1, 3⟩ 2))) := by with_unfolding_all rfl
    rw [hrefused, hlexical]
    simp
  have hclash : ∃ e, Clash [')', ' ', '?'] e := by
    by_contra hnone
    exact hne (hfailures.2 (.inr (.inr fun e he => hnone ⟨e, he⟩)))
  exact ⟨hagree, hquiet, hverbose, hclash, hanswers⟩

end Command

end NordLang
