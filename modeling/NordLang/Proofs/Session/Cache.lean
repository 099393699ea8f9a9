import Mathlib.Data.List.DropRight
import NordLang.Proofs.Session.Tools

/-!
# Settings over a session

Settings are loaded once and then kept, whatever happens to the files.  So which settings hold at
some point of a session depends on what the session has done before.

* `mappingHeld?` is the mapping in a settings file as it is at the moment.
* `Step` is what can be done in a session: settings can be asked for, directly or by a tool, they can
  be forgotten, and files can be changed.
* `firstLoad` reads off a history which mapping was loaded: the one that was found first since the
  settings were last forgotten.  `kept_of_history` says that a session has kept just that.
* `fixed` is what no step changes: the format of settings files, the defaults, and the folder.
-/

namespace NordLang

/-- The mapping that a value is, where no value counts as an empty mapping. -/
def Setting.asMapping? : Setting → Option Entries
  | .scalar .null => some []
  | .mapping entries => some entries
  | _ => none

namespace Session

variable {s : Session}

/-! ## Settings files -/

/-- The mapping in the settings file of a folder, if that is what is in it.  A file that is missing
or has nothing in it counts as an empty mapping. -/
def mappingHeld? (folder : Option String) (s : Session) : Option Entries :=
  match s.store.entry? (settingsPath folder) with
  | none => some []
  | some .folder => none
  | some (.file bytes) =>
    match decodeFile bytes with
    | .error _ => none
    | .ok text =>
      match s.format.parse text with
      | .error _ => none
      | .ok value => value.asMapping?

@[simp] theorem override_nil (base : Entries) : Setting.override base [] = base := by
  rw [Setting.override]

theorem settingsFrom_eq (s : Session) (path : String) (value : Setting) :
    s.settingsFrom path value =
      match value.asMapping? with
      | some m => .ok (Setting.override s.defaults m)
      | none => .error (.settingsFile (.noMapping path)) := by
  cases value with
  | scalar value => cases value <;> simp [settingsFrom, Setting.asMapping?]
  | _ => rfl

/-- Reading a settings file gives the defaults with the mapping in it laid over them, or fails for a
file without a mapping. -/
theorem readSettings_cases (folder : Option String) (s : Session) :
    (∃ m, s.mappingHeld? folder = some m ∧
      s.readSettings folder = .ok (Setting.override s.defaults m)) ∨
    s.mappingHeld? folder = none ∧ ∃ f, s.readSettings folder = .error f := by
  rw [readSettings_of_entry, mappingHeld?]
  rcases s.store.entry? (settingsPath folder) with _ | bytes | _
  · exact .inl ⟨[], rfl, by rw [override_nil]⟩
  · rcases hdecode : decodeFile bytes with failure | text
    · obtain ⟨fault, hfault, _⟩ := decodeFile_eq_error.1 hdecode
      exact .inr ⟨by simp only [hdecode], _, settingsOf_of_fault hfault _⟩
    · simp only [hdecode, settingsOf_of_text hdecode]
      rcases s.format.parse text with message | value
      · exact .inr ⟨rfl, _, rfl⟩
      · simp only [settingsFrom_eq]
        rcases value.asMapping? with _ | m
        · exact .inr ⟨rfl, _, rfl⟩
        · exact .inl ⟨m, rfl, rfl⟩
  · exact .inr ⟨rfl, _, rfl⟩

/-- What settings a session has kept. -/
def kept (s : Session) : Option Entries := s.cache.map Loaded.entries

theorem settings_of_cache {loaded : Loaded} (folder : Option String) (h : s.cache = some loaded) :
    s.settings folder = (.ok loaded, s) := by
  rw [settings, h]

theorem settings_of_mapping {folder : Option String} {m : Entries} (hcache : s.cache = none)
    (hm : s.mappingHeld? folder = some m) :
    ∃ loaded, s.settings folder =
        (.ok loaded, { s with cache := some loaded, loads := s.loads + 1 }) ∧
      loaded.entries = Setting.override s.defaults m := by
  rcases s.readSettings_cases folder with ⟨m', hm', hread⟩ | ⟨hnone, _⟩
  · cases hm.symm.trans hm'
    simp only [settings, hcache, hread]
    exact ⟨_, rfl, rfl⟩
  · cases hm.symm.trans hnone

theorem settings_of_no_mapping {folder : Option String} (hcache : s.cache = none)
    (hm : s.mappingHeld? folder = none) :
    ∃ f, s.settings folder = (.error f, s) ∧ LoadFailure s folder f := by
  rcases s.readSettings_cases folder with ⟨m', hm', _⟩ | ⟨_, f, hread⟩
  · cases hm.symm.trans hm'
  · exact ⟨f, by simp only [settings, hcache, hread], readSettings_eq_error.1 hread⟩

/-- Asking for settings keeps those that are kept, and else those that are found. -/
theorem kept_settings (folder : Option String) (s : Session) :
    (s.settings folder).2.kept =
      s.kept.or ((s.mappingHeld? folder).map (Setting.override s.defaults)) := by
  rcases hcache : s.cache with _ | loaded
  · rcases hm : s.mappingHeld? folder with _ | m
    · obtain ⟨f, hsettings, _⟩ := settings_of_no_mapping hcache hm
      simp [hsettings, kept, hcache]
    · obtain ⟨loaded, hsettings, hentries⟩ := settings_of_mapping hcache hm
      simp [hsettings, kept, hcache, hentries]
  · simp [settings_of_cache folder hcache, kept, hcache]

theorem cache_of_settings {folder : Option String} {loaded : Loaded}
    (h : (s.settings folder).1 = .ok loaded) : (s.settings folder).2.cache = some loaded := by
  rcases hcache : s.cache with _ | kept
  · rcases hm : s.mappingHeld? folder with _ | m
    · obtain ⟨f, hsettings, _⟩ := settings_of_no_mapping hcache hm
      rw [hsettings] at h
      cases h
    · obtain ⟨loaded', hsettings, _⟩ := settings_of_mapping hcache hm
      rw [hsettings] at h ⊢
      cases h
      rfl
  · rw [settings_of_cache folder hcache] at h ⊢
    cases h
    exact hcache

theorem kept_of_settings {folder : Option String} {loaded : Loaded}
    (h : (s.settings folder).1 = .ok loaded) :
    (s.settings folder).2.kept = some loaded.entries := by
  rw [kept, cache_of_settings h]
  rfl

theorem settings_of_kept {entries : Entries} (folder : Option String)
    (h : s.kept = some entries) :
    ∃ loaded, (s.settings folder).1 = .ok loaded ∧ loaded.entries = entries := by
  obtain ⟨loaded, hcache, hentries⟩ := Option.map_eq_some_iff.1 h
  exact ⟨loaded, by rw [settings_of_cache folder hcache], hentries⟩

/-- A refusal says that nothing was kept and no mapping found, and it changes nothing. -/
theorem settings_refused {folder : Option String} {f : Failure}
    (h : (s.settings folder).1 = .error f) :
    s.cache = none ∧ s.mappingHeld? folder = none ∧
      LoadFailure s folder f ∧ (s.settings folder).2 = s := by
  rcases hcache : s.cache with _ | loaded
  · rcases hm : s.mappingHeld? folder with _ | m
    · obtain ⟨f', hsettings, hfailure⟩ := settings_of_no_mapping hcache hm
      rw [hsettings] at h ⊢
      cases h
      exact ⟨rfl, rfl, hfailure, rfl⟩
    · obtain ⟨loaded, hsettings, _⟩ := settings_of_mapping hcache hm
      rw [hsettings] at h
      cases h
  · rw [settings_of_cache folder hcache] at h
    cases h

/-! ## Steps -/

inductive Step where
  | config (folder : Option String)
  | reset
  | put (path : RawText) (entry : Entry)
  | remove (path : RawText)
  | cli (args : List String)
  | write (path source : RawText)
  | check (path : RawText)
  | parse (path : RawText)
  | format (path : RawText)

namespace Step

/-- The session after a step, whether the step fails or not. -/
def run (step : Step) (s : Session) : Session :=
  match step with
  | config folder => (s.settings folder).2
  | reset => s.reset
  | put path entry => { s with store := s.store.place path entry }
  | remove path =>
    match s.store.remove path with
    | .ok store => { s with store }
    | .error _ => s
  | cli args => (CommandLine.call args s).2
  | write path source => (s.writeFile path source).2
  | check path => (s.checkFile path).2
  | parse path => (s.parseFile path).2
  | format path => (s.formatFile path).2

def isReset : Step → Bool
  | reset => true
  | _ => false

end Step

/-- The program in a file. -/
def program? (path : RawText) (s : Session) : Option Tree :=
  match s.store.read path with
  | .error _ => none
  | .ok bytes =>
    match decodeFile bytes with
    | .error _ => none
    | .ok source => (parseText source).toOption

/-- The folder from which a step asks for settings, if it does.  The command line does once it has a
command and something to run it on, and the dump of a program once there is a program. -/
def Step.asks (step : Step) (s : Session) : Option (Option String) :=
  match step with
  | config folder => some folder
  | cli (command :: _ :: _) => if CommandLine.commands.contains command then some none else none
  | write _ _ => some none
  | parse path => (s.program? path).map fun _ => none
  | _ => none

/-- The mapping that a step loads if no settings have been kept. -/
def Step.load? (step : Step) (s : Session) : Option Entries :=
  (step.asks s).bind fun folder => s.mappingHeld? folder

theorem session_withProgram (path : RawText)
    (answer : Tree → Except Failure RawText × Session) :
    (s.withProgram path answer).2 =
      match s.program? path with
      | none => s
      | some tree => (answer tree).2 := by
  unfold program?
  rcases hread : s.store.read path with (flaw | ⟨fault, shown⟩) | bytes
  · simp only [withProgram, hread]
  · obtain ⟨text, htext⟩ := withProgram_of_read_eq_error hread answer
    rw [htext]
  · rcases hdecode : decodeFile bytes with failure | source
    · simp only [withProgram, hread, hdecode]
    · rw [withProgram_of_holds ⟨bytes, hread, hdecode⟩]
      simp only [hdecode]
      rcases parseText source with fault | tree
      · rfl
      · rfl

/-- Storing a program changes the files alone. -/
theorem session_store? (path source : RawText) :
    ∃ files, (s.store? path source).2 = { s with store := files } := by
  simp only [store?]
  split
  · exact ⟨_, rfl⟩
  · split
    · exact ⟨_, rfl⟩
    · exact ⟨_, rfl⟩

/-- Writing a program loads settings and changes the files, and nothing else. -/
theorem session_writeFile (path source : RawText) :
    ∃ files, (s.writeFile path source).2 = { (s.settings none).2 with store := files } := by
  unfold writeFile
  rcases s.settings none with ⟨failure | loaded, t⟩
  · exact ⟨t.store, rfl⟩
  · simp only
    split
    · exact ⟨t.store, rfl⟩
    · split
      · exact ⟨t.store, rfl⟩
      · obtain ⟨files, hfiles⟩ := session_store? (s := t) path source
        refine ⟨files, ?_⟩
        rw [← hfiles]
        split
        all_goals next heq => rw [heq]

theorem session_call (args : List String) :
    (CommandLine.call args s).2 =
      match (Step.cli args).asks s with
      | none => s
      | some folder => (s.settings folder).2 := by
  rcases args with _ | ⟨command, rest⟩
  · rfl
  · by_cases hcommand : command ∈ CommandLine.commands
    · rcases rest with _ | ⟨path, rest⟩
      · simp [CommandLine.call, Step.asks, hcommand]
      · have hknown : CommandLine.commands.contains command = true := by simpa using hcommand
        simp only [CommandLine.call, Step.asks, hknown, Bool.not_true, Bool.false_eq_true, if_false,
          if_true]
        rcases s.settings none with ⟨failure | loaded, t⟩
        · rfl
        · by_cases hpath : path = "-e"
          · rcases rest with _ | ⟨source, rest⟩
            · simp [hpath]
            · simp [hpath]
          · simp [hpath]
    · rcases rest with _ | ⟨path, rest⟩
      · simp [CommandLine.call, Step.asks, hcommand]
      · simp [CommandLine.call, Step.asks, hcommand]

/-- The settings that a step leaves: those kept before it or, if there were none, those it loads. -/
theorem Step.kept_run {step : Step} (h : step.isReset = false) :
    (step.run s).kept =
      s.kept.or ((step.load? s).map (Setting.override s.defaults)) := by
  have hidle : s.kept = s.kept.or (Option.map (Setting.override s.defaults) none) := by simp
  unfold Step.load?
  cases step with
  | config folder => exact kept_settings folder s
  | reset => cases h
  | put path entry => exact hidle
  | remove path =>
    simp only [run]
    rcases s.store.remove path with fault | store
    · exact hidle
    · exact hidle
  | cli args =>
    rw [run, session_call]
    rcases (Step.cli args).asks s with _ | folder
    · exact hidle
    · exact kept_settings folder s
  | write path source =>
    obtain ⟨files, hfiles⟩ := session_writeFile (s := s) path source
    rw [run, hfiles]
    exact kept_settings none s
  | check path =>
    rw [run, checkFile, session_withProgram]
    rcases s.program? path with _ | tree
    · exact hidle
    · exact hidle
  | parse path =>
    rw [run, parseFile, session_withProgram, asks]
    rcases s.program? path with _ | tree
    · exact hidle
    · rw [Option.map_some, Option.bind_some, ← kept_settings]
      rcases s.settings none with ⟨failure | loaded, t⟩
      · rfl
      · rfl
  | format path =>
    rw [run, formatFile, session_withProgram]
    rcases s.program? path with _ | tree
    · exact hidle
    · exact hidle

/-! ## What no step changes -/

/-- The format of settings files, the defaults, and the folder. -/
def fixed (s : Session) : Settings.Format × Entries × String := (s.format, s.defaults, s.folder)

@[simp] theorem fixed_settings (folder : Option String) (s : Session) :
    (s.settings folder).2.fixed = s.fixed := by
  rw [settings]
  rcases s.cache with _ | loaded
  · rcases s.readSettings folder with failure | entries
    · rfl
    · rfl
  · rfl

theorem Step.fixed_run (step : Step) (s : Session) : (step.run s).fixed = s.fixed := by
  cases step with
  | config folder => exact fixed_settings folder s
  | reset => rfl
  | put path entry => rfl
  | remove path =>
    simp only [run]
    rcases s.store.remove path with fault | store
    · rfl
    · rfl
  | cli args =>
    rw [run, session_call]
    rcases (Step.cli args).asks s with _ | folder
    · rfl
    · exact fixed_settings folder s
  | write path source =>
    obtain ⟨files, hfiles⟩ := session_writeFile (s := s) path source
    rw [run, hfiles]
    exact fixed_settings none s
  | check path =>
    rw [run, checkFile, session_withProgram]
    rcases s.program? path with _ | tree
    · rfl
    · rfl
  | parse path =>
    rw [run, parseFile, session_withProgram]
    rcases s.program? path with _ | tree
    · rfl
    · have hfixed := fixed_settings none s
      rcases hsettings : s.settings none with ⟨failure | loaded, t⟩
      · rw [hsettings] at hfixed
        exact hfixed
      · rw [hsettings] at hfixed
        exact hfixed
  | format path =>
    rw [run, formatFile, session_withProgram]
    rcases s.program? path with _ | tree
    · rfl
    · rfl

/-! ## Whole sessions -/

def run : List Step → Session → Session
  | [], s => s
  | step :: steps, s => run steps (step.run s)

/-- The steps of a session, each with the session as it was before it. -/
def history : List Step → Session → List (Session × Step)
  | [], _ => []
  | step :: steps, s => (s, step) :: history steps (step.run s)

/-- The mapping found by the first step since the last reset that found one. -/
def firstLoad (steps : List Step) (s : Session) : Option Entries :=
  ((history steps s).rtakeWhile fun moment => !moment.2.isReset).findSome? fun moment =>
    moment.2.load? moment.1

theorem run_append (steps more : List Step) (s : Session) :
    run (steps ++ more) s = run more (run steps s) := by
  induction steps generalizing s with
  | nil => rfl
  | cons step steps ih => exact ih (step.run s)

theorem history_concat (steps : List Step) (step : Step) (s : Session) :
    history (steps ++ [step]) s = history steps s ++ [(run steps s, step)] := by
  induction steps generalizing s with
  | nil => rfl
  | cons first steps ih => exact congrArg ((s, first) :: ·) (ih (first.run s))

theorem firstLoad_reset (steps : List Step) (s : Session) :
    firstLoad (steps ++ [.reset]) s = none := by
  rw [firstLoad, history_concat, List.rtakeWhile_concat_neg]
  · rfl
  · simp [Step.isReset]

theorem firstLoad_concat {step : Step} (h : step.isReset = false) (steps : List Step)
    (s : Session) :
    firstLoad (steps ++ [step]) s = (firstLoad steps s).or (step.load? (run steps s)) := by
  rw [firstLoad, history_concat, List.rtakeWhile_concat_pos _ _ _ (by simp [h]),
    List.findSome?_append, firstLoad]
  congr 1
  simp

theorem fixed_run (steps : List Step) (s : Session) : (run steps s).fixed = s.fixed := by
  induction steps generalizing s with
  | nil => rfl
  | cons step steps ih => exact (ih (step.run s)).trans (step.fixed_run s)

theorem defaults_run (steps : List Step) (s : Session) : (run steps s).defaults = s.defaults :=
  congrArg (·.2.1) (fixed_run steps s)

/-- A session has kept the mapping that was loaded first since the last reset, if any was. -/
theorem kept_of_history (format : Settings.Format) (home : String) (files : Store)
    (steps : List Step) :
    (run steps (start format home files)).kept =
      (firstLoad steps (start format home files)).map (Setting.override Settings.defaults) := by
  induction steps using List.reverseRecOn with
  | nil => rfl
  | append_singleton steps step ih =>
    rw [run_append]
    show (step.run (run steps (start format home files))).kept = _
    cases hreset : step.isReset with
    | true =>
      cases step with
      | reset =>
        rw [firstLoad_reset]
        rfl
      | _ => cases hreset
    | false =>
      rw [firstLoad_concat hreset, Step.kept_run hreset, ih, defaults_run, Option.map_or]
      rfl

/-- Settings are the defaults with the mapping laid over them that was loaded first since the last
reset.  An attempt that fails leaves nothing behind.  The defaults are the same after all steps, and
so is the format of settings files. -/
theorem settings_of_history (format : Settings.Format) (home : String) (files : Store)
    (steps : List Step) (folder : Option String) :
    let start := start format home files
    let s := run steps start
    (∀ loaded, (s.settings folder).1 = .ok loaded →
      ∃ m, firstLoad (steps ++ [.config folder]) start = some m ∧
        loaded.entries = Setting.override Settings.defaults m) ∧
    (∀ m, firstLoad steps start = some m →
      ∃ loaded, (s.settings folder).1 = .ok loaded ∧
        loaded.entries = Setting.override Settings.defaults m) ∧
    (∀ f, (s.settings folder).1 = .error f →
      firstLoad steps start = none ∧ s.mappingHeld? folder = none ∧ LoadFailure s folder f ∧
      (s.settings folder).2 = s ∧ s.cache = none ∧
      ∀ files' folder' m, mappingHeld? folder' { s with store := files' } = some m →
        ∃ loaded, (settings folder' { s with store := files' }).1 = .ok loaded ∧
          loaded.entries = Setting.override Settings.defaults m) ∧
    (s.store.entry? (settingsPath folder) = none →
      ∃ loaded, (s.reset.settings folder).1 = .ok loaded ∧
        loaded.entries = Settings.defaults) ∧
    s.defaults = Settings.defaults ∧ s.format = format := by
  intro start s
  have hdefaults : s.defaults = Settings.defaults := defaults_run steps start
  have hkept : s.kept = (firstLoad steps start).map (Setting.override Settings.defaults) :=
    kept_of_history format home files steps
  refine ⟨fun loaded hloaded => ?_, fun m hm => ?_, fun f hf => ?_, fun hentry => ?_, hdefaults,
    congrArg (·.1) (fixed_run steps start)⟩
  · have hlater := kept_of_history format home files (steps ++ [.config folder])
    rw [run_append] at hlater
    have hloads : (s.settings folder).2.kept = some loaded.entries := kept_of_settings hloaded
    obtain ⟨m, hm, hentries⟩ := Option.map_eq_some_iff.1 (hlater.symm.trans hloads)
    exact ⟨m, hm, hentries.symm⟩
  · rw [hm] at hkept
    exact settings_of_kept folder hkept
  · obtain ⟨hcache, hmapping, hfailure, hsame⟩ := settings_refused hf
    refine ⟨?_, hmapping, hfailure, hsame, hcache, fun files' folder' m hm => ?_⟩
    · rw [kept, hcache] at hkept
      exact Option.map_eq_none_iff.1 hkept.symm
    · obtain ⟨loaded, hanew, hentries⟩ :=
        settings_of_mapping (s := { s with store := files' }) hcache hm
      exact ⟨loaded, by rw [hanew], hdefaults ▸ hentries⟩
  · have hheld : s.reset.mappingHeld? folder = some [] := by
      simp only [mappingHeld?, reset, hentry]
    obtain ⟨loaded, hsettings, hentries⟩ := settings_of_mapping rfl hheld
    rw [override_nil] at hentries
    exact ⟨loaded, by rw [hsettings], hentries.trans hdefaults⟩

end Session

end NordLang
