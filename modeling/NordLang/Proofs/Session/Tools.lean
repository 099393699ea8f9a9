import NordLang.CommandLine
import NordLang.Proofs.Grammar.OnDemand
import NordLang.Proofs.Layout.Source
import NordLang.Proofs.Store.Flaws
import NordLang.Proofs.Result
import NordLang.Settings.Document

/-!
# Where tools fail

The tools for programs in files answer in a sentence, with a few exceptions that they pass on.

* On the way to the program (`ProgramFailure`): a path with a flaw, a file that is no text, and a
  number of too many digits.
* On the way to a setting (`SettingFailure`): a settings file that cannot be used, and a setting that
  is missing or of the wrong kind.
* When a program is written: a flaw in the path, if it is met (`FlawMet`), and surrogates in the
  program.

There are no others, and each tool has those of the steps it takes (`tool_fails_iff`).
-/

namespace NordLang

/-- A member of a section of the settings, as it is used. -/
def Setting.used {α : Type} (config : Setting) (sectionName name : String)
    (use : Setting → Except SettingFault α) : Except SettingFault α :=
  ((config.member sectionName).bind (·.member name)).bind use

namespace Command

theorem setting_bind {α : Type} (config : Setting) (sectionName name : String)
    (use : Setting → Except SettingFault α) :
    (setting config sectionName name).bind (fun value => (use value).mapError .setting) =
      (config.used sectionName name use).mapError .setting := by
  rw [setting, Setting.used]
  rcases (config.member sectionName).bind (·.member name) with fault | value
  · rfl
  · rfl

theorem dump_eq (config : Setting) (tree : Tree) :
    dump config tree =
      ((config.used "cli" "json_indent" Setting.indentation).mapError Failure.setting).map
        tree.dump.render := by
  rw [← setting_bind, dump]
  rcases setting config "cli" "json_indent" with failure | indent
  · rfl
  · rcases h : indent.indentation with fault | pad
    · simp [bind, Except.bind, h]
    · simp [bind, Except.bind, h]

theorem dump_eq_error {config : Setting} {tree : Tree} {f : Failure} :
    dump config tree = .error f ↔
      ∃ fault, config.used "cli" "json_indent" Setting.indentation = .error fault ∧
        f = .setting fault := by
  rw [dump_eq]
  rcases config.used "cli" "json_indent" Setting.indentation with fault | pad
  · simp [eq_comm]
  · simp

/-- What is parsed from a text is laid out. -/
theorem layout_of_parse {source : List Char} {tree : Tree} (h : parseText source = .ok tree) :
    ∃ text, layout tree = .ok text := by
  rw [layout, (wellFormed_of_parse h).layout]
  exact ⟨_, rfl⟩

end Command

namespace Session

/-! ## Programs -/

/-- The file at a path holds a text. -/
def Holds (s : Session) (path : RawText) (source : List Char) : Prop :=
  ∃ bytes, s.store.read path = .ok bytes ∧ decodeFile bytes = .ok source

theorem decodeFile_eq_error {bytes : List UInt8} {f : Failure} :
    decodeFile bytes = .error f ↔
      ∃ fault, Text.Utf8.decode bytes = .error fault ∧ f = .decoding fault := by
  rw [decodeFile]
  rcases Text.Utf8.decode bytes with fault | text
  · simp [eq_comm]
  · simp

theorem withProgram_of_holds {s : Session} {path : RawText} {source : List Char}
    (h : s.Holds path source) (answer : Tree → Except Failure RawText × Session) :
    s.withProgram path answer =
      match parseText source with
      | .error fault => ((Failure.parse fault).reported.map RawText.ofString, s)
      | .ok tree => answer tree := by
  obtain ⟨bytes, hread, hdecode⟩ := h
  rw [withProgram]
  simp only [hread, hdecode, Command.parse]
  rcases parseText source with fault | tree
  · rfl
  · rfl

/-- What a tool meets on the way to the program in a file, and does not answer with a sentence. -/
inductive ProgramFailure (s : Session) (path : RawText) : Failure → Prop where
  | flawed {flaw : PathFlaw} (h : flaw? path = some flaw) :
      ProgramFailure s path (.access (.path flaw))
  | notText {bytes : List UInt8} {fault : Text.Utf8.Fault} (hread : s.store.read path = .ok bytes)
      (h : Text.Utf8.decode bytes = .error fault) : ProgramFailure s path (.decoding fault)
  | tooManyDigits {source : List Char} {n : Nat} (h : s.Holds path source) (hn : digitLimit < n)
      (hparse : parseText source = .error (.lexical (.tooManyDigits n))) :
      ProgramFailure s path (.parse (.lexical (.tooManyDigits n)))

/-- What a parsing fault is reported as: a sentence, or the failure it is. -/
theorem reported_parse_eq_error {fault : ParseFault} {f : Failure} :
    (Failure.parse fault).reported = .error f ↔ fault.diagnostic? = none ∧ f = .parse fault := by
  rw [Failure.reported, Failure.diagnostic?]
  rcases fault.diagnostic? with _ | d
  · simp [eq_comm]
  · simp

/-- A file that cannot be read is answered with a sentence, unless its path has a flaw. -/
theorem withProgram_of_read_eq_error {s : Session} {path : RawText} {fault : FileFault}
    {shown : RawText} (h : s.store.read path = .error (.file fault shown))
    (answer : Tree → Except Failure RawText × Session) :
    ∃ text, s.withProgram path answer = (.ok text, s) := by
  cases fault with
  | _ =>
    simp only [withProgram, h]
    exact ⟨_, rfl⟩

theorem withProgram_eq_error {s : Session} {path : RawText}
    {answer : Tree → Except Failure RawText × Session} {f : Failure} :
    (s.withProgram path answer).1 = .error f ↔
      ProgramFailure s path f ∨
        ∃ source tree, s.Holds path source ∧ parseText source = .ok tree ∧
          (answer tree).1 = .error f := by
  constructor
  · intro h
    rcases hread : s.store.read path with (flaw | ⟨fault, shown⟩) | bytes
    · simp only [withProgram, hread] at h
      cases h
      exact .inl (.flawed (Store.read_eq_path.1 hread))
    · obtain ⟨text, htext⟩ := withProgram_of_read_eq_error hread answer
      rw [htext] at h
      cases h
    · rcases hdecode : decodeFile bytes with failure | source
      · simp only [withProgram, hread, hdecode] at h
        cases h
        obtain ⟨fault, hfault, rfl⟩ := decodeFile_eq_error.1 hdecode
        exact .inl (.notText hread hfault)
      · have hholds : s.Holds path source := ⟨bytes, hread, hdecode⟩
        rw [withProgram_of_holds hholds] at h
        rcases hparse : parseText source with fault | tree
        · -- A fault that is not reported is no diagnostic, which leaves the digits of a number.
          rw [hparse] at h
          obtain ⟨hfault, rfl⟩ := reported_parse_eq_error.1 (map_eq_error.1 h)
          obtain ⟨n, hn, rfl⟩ := tooManyDigits_of_parseText hparse hfault
          exact .inl (.tooManyDigits hholds hn hparse)
        · rw [hparse] at h
          exact .inr ⟨source, tree, hholds, hparse, h⟩
  · rintro (hfailure | ⟨source, tree, hholds, hparse, h⟩)
    · cases hfailure with
      | flawed h => simp only [withProgram, Store.read_eq_path.2 h]
      | notText hread h =>
        simp only [withProgram, hread, decodeFile_eq_error.2 ⟨_, h, rfl⟩]
      | tooManyDigits hholds _ hparse =>
        rw [withProgram_of_holds hholds, hparse]
        rfl
    · rw [withProgram_of_holds hholds, hparse]
      exact h

/-! ## Settings -/

/-- The settings file of a folder, or of the working directory if none is given. -/
def settingsPath (folder : Option String) : String :=
  (folder.map (joinPath · settingsFile)).getD settingsFile

/-- The settings file of a folder as messages name it. -/
def shownSettingsPath (folder : Option String) (s : Session) : String :=
  joinPath (folder.getD s.folder) settingsFile

theorem readSettings_of_entry (folder : Option String) (s : Session) :
    s.readSettings folder =
      match s.store.entry? (settingsPath folder) with
      | none => .ok s.defaults
      | some .folder => .error (.access (.file .isDirectory (s.shownSettingsPath folder)))
      | some (.file bytes) => s.settingsOf (s.shownSettingsPath folder) bytes := by
  have hexists : s.store.exists? (settingsPath folder) =
      (s.store.entry? (settingsPath folder)).isSome := rfl
  unfold readSettings
  simp only [← settingsPath.eq_1, ← shownSettingsPath.eq_1, hexists]
  rcases hentry : s.store.entry? (settingsPath folder) with _ | bytes | _
  · rfl
  · simp only [Store.read_of_entry_eq_some hentry, Option.isSome_some, if_true]
  · simp only [Store.read_of_entry_eq_some hentry, Option.isSome_some, if_true]

/-- What keeps the settings of a folder from being loaded. -/
inductive LoadFailure (s : Session) (folder : Option String) : Failure → Prop where
  | isFolder (h : s.store.entry? (settingsPath folder) = some .folder) :
      LoadFailure s folder (.access (.file .isDirectory (s.shownSettingsPath folder)))
  | malformed {bytes : List UInt8} {text : List Char} {message : String}
      (h : s.store.entry? (settingsPath folder) = some (.file bytes))
      (hdecode : decodeFile bytes = .ok text) (hparse : s.format.parse text = .error message) :
      LoadFailure s folder (.settingsFile (.malformed (s.shownSettingsPath folder) message))
  | noMapping {bytes : List UInt8} {text : List Char} {value : Setting}
      (h : s.store.entry? (settingsPath folder) = some (.file bytes))
      (hdecode : decodeFile bytes = .ok text) (hparse : s.format.parse text = .ok value)
      (hnull : value ≠ .scalar .null) (hmapping : ∀ entries, value ≠ .mapping entries) :
      LoadFailure s folder (.settingsFile (.noMapping (s.shownSettingsPath folder)))
  | notText {bytes : List UInt8} {fault : Text.Utf8.Fault}
      (h : s.store.entry? (settingsPath folder) = some (.file bytes))
      (hdecode : Text.Utf8.decode bytes = .error fault) :
      LoadFailure s folder (readFailure (s.shownSettingsPath folder) (s.format.refuse bytes fault))

theorem settingsFrom_eq_error {s : Session} {path : String} {value : Setting} {f : Failure} :
    s.settingsFrom path value = .error f ↔
      value ≠ .scalar .null ∧ (∀ entries, value ≠ .mapping entries) ∧
        f = .settingsFile (.noMapping path) := by
  cases value with
  | scalar value => cases value <;> simp [settingsFrom, eq_comm]
  | mapping entries => simp [settingsFrom]
  | _ => simp [settingsFrom, eq_comm]

/-- The settings in a file that is a text. -/
theorem settingsOf_of_text {s : Session} {bytes : List UInt8} {text : List Char}
    (h : decodeFile bytes = .ok text) (path : String) :
    s.settingsOf path bytes =
      match s.format.parse text with
      | .error message => .error (.settingsFile (.malformed path message))
      | .ok value => s.settingsFrom path value := by
  rw [settingsOf, Settings.Format.read]
  rcases hdecode : Text.Utf8.decode bytes with fault | raw
  · simp only [decodeFile, hdecode] at h
    cases h
  · simp only [decodeFile, hdecode] at h
    cases h
    rcases hparse : s.format.parse (Text.unifyLines raw) with message | value
    · simp [hparse, readFailure]
    · simp [hparse]

/-- The settings in a file that is no text. -/
theorem settingsOf_of_fault {s : Session} {bytes : List UInt8} {fault : Text.Utf8.Fault}
    (h : Text.Utf8.decode bytes = .error fault) (path : String) :
    s.settingsOf path bytes = .error (readFailure path (s.format.refuse bytes fault)) := by
  rw [settingsOf, Settings.Format.read, h]

theorem readSettings_eq_error {s : Session} {folder : Option String} {f : Failure} :
    s.readSettings folder = .error f ↔ LoadFailure s folder f := by
  rw [readSettings_of_entry]
  constructor
  · intro h
    rcases hentry : s.store.entry? (settingsPath folder) with _ | bytes | _
    · simp [hentry] at h
    · simp only [hentry] at h
      rcases hdecode : decodeFile bytes with failure | text
      · obtain ⟨fault, hfault, _⟩ := decodeFile_eq_error.1 hdecode
        rw [settingsOf_of_fault hfault] at h
        cases h
        exact .notText hentry hfault
      · rw [settingsOf_of_text hdecode] at h
        rcases hparse : s.format.parse text with message | value
        · rw [hparse] at h
          cases h
          exact .malformed hentry hdecode hparse
        · rw [hparse] at h
          obtain ⟨hnull, hmapping, rfl⟩ := settingsFrom_eq_error.1 h
          exact .noMapping hentry hdecode hparse hnull hmapping
    · simp only [hentry] at h
      cases h
      exact .isFolder hentry
  · intro h
    cases h with
    | isFolder hentry => simp only [hentry]
    | malformed hentry hdecode hparse => simp only [hentry, settingsOf_of_text hdecode, hparse]
    | noMapping hentry hdecode hparse hnull hmapping =>
      simp only [hentry, settingsOf_of_text hdecode, hparse]
      exact settingsFrom_eq_error.2 ⟨hnull, hmapping, rfl⟩
    | notText hentry hdecode => simp only [hentry, settingsOf_of_fault hdecode]

theorem settings_eq_error {s : Session} {folder : Option String} {f : Failure} :
    (s.settings folder).1 = .error f ↔ s.cache = none ∧ LoadFailure s folder f := by
  rw [← readSettings_eq_error, settings]
  rcases s.cache with _ | loaded
  · rcases s.readSettings folder with failure | entries
    · simp
    · simp
  · simp

@[simp] theorem store_settings (s : Session) (folder : Option String) :
    (s.settings folder).2.store = s.store := by
  rw [settings]
  rcases s.cache with _ | loaded
  · rcases s.readSettings folder with failure | entries
    · rfl
    · rfl
  · rfl

/-- What keeps a setting from being used. -/
inductive SettingFailure {α : Type} (s : Session) (sectionName name : String)
    (use : Setting → Except SettingFault α) : Failure → Prop where
  | notLoaded {f : Failure} (hcache : s.cache = none) (h : LoadFailure s none f) :
      SettingFailure s sectionName name use f
  | unusable {loaded : Loaded} {fault : SettingFault} (hloaded : (s.settings none).1 = .ok loaded)
      (h : loaded.config.used sectionName name use = .error fault) :
      SettingFailure s sectionName name use (.setting fault)

section SettingFailure

variable {α : Type} {s : Session} {sectionName name : String}
  {use : Setting → Except SettingFault α} {f : Failure}

theorem settingFailure_of_error {failure : Failure} (h : (s.settings none).1 = .error failure) :
    SettingFailure s sectionName name use f ↔ f = failure := by
  constructor
  · intro hf
    cases hf with
    | notLoaded hcache hload =>
      rw [settings_eq_error.2 ⟨hcache, hload⟩] at h
      cases h
      rfl
    | unusable hloaded =>
      rw [hloaded] at h
      cases h
  · rintro rfl
    obtain ⟨hcache, hload⟩ := settings_eq_error.1 h
    exact .notLoaded hcache hload

theorem settingFailure_of_ok {loaded : Loaded} (h : (s.settings none).1 = .ok loaded) :
    SettingFailure s sectionName name use f ↔
      ∃ fault, loaded.config.used sectionName name use = .error fault ∧ f = .setting fault := by
  constructor
  · intro hf
    cases hf with
    | notLoaded hcache hload =>
      rw [settings_eq_error.2 ⟨hcache, hload⟩] at h
      cases h
    | unusable hloaded hfault =>
      cases hloaded.symm.trans h
      exact ⟨_, hfault, rfl⟩
  · rintro ⟨fault, hfault, rfl⟩
    exact .unusable h hfault

end SettingFailure

/-! ## Storing -/

/-- The folders on the way to a file. -/
def foldersOf (path : RawText) : List RawText := parentNames (namesOf path)

/-- The first flaw of a path is met when the folders on the way are made or when the file is opened,
unless making the folders fails otherwise. -/
theorem firstFlaw_met_iff {store : Store} {path : RawText} {flaw : PathFlaw} (bytes : List UInt8) :
    ((store.makeFolders (foldersOf path)).1 = some (.path flaw) ∨
      (store.makeFolders (foldersOf path)).1 = none ∧
        (store.makeFolders (foldersOf path)).2.write path bytes = .error (.path flaw)) ↔
      FirstFlaw (namesOf path) flaw ∧
        ∀ fault shown, (store.makeFolders (foldersOf path)).1 ≠ some (.file fault shown) := by
  rcases hmake : store.makeFolders (foldersOf path) with ⟨_ | (flaw' | ⟨fault, shown⟩), files⟩
  · -- The folders are there, so it is up to the file itself.
    have hparent : flaw? (pathOf (foldersOf path)) = none :=
      Store.flawless_of_makeFolders (by rw [hmake]; rfl)
    have hwrite := @Store.write_eq_path files path bytes flaw
    rw [firstFlaw_iff_of_parent hparent, pathOf_namesOf, ← hwrite]
    simp
  · have hflaw : (store.makeFolders (foldersOf path)).1 = some (.path flaw') := by rw [hmake]
    have hfirst : FirstFlaw (namesOf path) flaw' :=
      (Store.firstFlaw_of_makeFolders hflaw).mono (parentNames_isPrefix _)
    constructor
    · intro h
      have hsame : flaw' = flaw := by simpa using h
      subst hsame
      exact ⟨hfirst, by simp⟩
    · rintro ⟨h, _⟩
      rw [hfirst.unique h]
      exact .inl rfl
  · simp

/-- A file is refused for the first flaw in its path, unless making the folders on the way fails
otherwise. -/
theorem store?_eq_path {s : Session} {path source : RawText} {flaw : PathFlaw} :
    (s.store? path source).1 = .error (.access (.path flaw)) ↔
      FirstFlaw (namesOf path) flaw ∧
        ∀ fault shown, (s.store.makeFolders (foldersOf path)).1 ≠ some (.file fault shown) := by
  rw [← firstFlaw_met_iff (source.encode.toOption.getD []), store?, ← foldersOf]
  rcases s.store.makeFolders (foldersOf path) with ⟨_ | fault, files⟩
  · rcases hwrite : files.write path (source.encode.toOption.getD []) with fault | stored
    · simp [hwrite]
    · simp [hwrite]
  · simp

/-- A program is refused for its surrogates where an empty one would be stored. -/
theorem store?_eq_encoding {s : Session} {path source : RawText} {fault : SurrogateFault} :
    (s.store? path source).1 = .error (.encoding fault) ↔
      source.encode = .error fault ∧ (s.store? path []).1 = .ok () := by
  have hempty : RawText.encode [] = .ok [] := rfl
  rw [store?, store?]
  rcases s.store.makeFolders (parentNames (namesOf path)) with ⟨_ | made, files⟩
  · rcases hencode : source.encode with refused | bytes
    · -- Both write no bytes.
      simp only [Except.toOption, hempty, Option.getD_none, Option.getD_some]
      rcases files.write path [] with access | stored
      · simp
      · simp
    · simp only
      rcases files.write path (((Except.ok bytes : Except SurrogateFault _).toOption).getD []) with
        access | stored
      · simp
      · simp
  · simp

/-- Storing fails for the files, for a flaw in the path, or for surrogates. -/
theorem store?_eq_error {s : Session} {path source : RawText} {f : Failure}
    (h : (s.store? path source).1 = .error f) :
    (∃ fault, f = .access fault) ∨ ∃ fault, f = .encoding fault := by
  rw [store?] at h
  rcases hmake : s.store.makeFolders (parentNames (namesOf path)) with ⟨_ | fault, files⟩
  · rw [hmake] at h
    rcases hwrite : files.write path (source.encode.toOption.getD []) with fault | stored
    · simp only [hwrite, Except.error.injEq] at h
      exact .inl ⟨fault, h.symm⟩
    · simp only [hwrite, mapError_eq_error] at h
      obtain ⟨fault, _, rfl⟩ := h
      exact .inr ⟨fault, rfl⟩
  · rw [hmake] at h
    cases h
    exact .inl ⟨fault, rfl⟩

/-- The settings give an ending, and the path has it. -/
def EndsRight (s : Session) (path : RawText) : Prop :=
  ∃ loaded ending, (s.settings none).1 = .ok loaded ∧
    loaded.config.used "files" "extension" Setting.extension = .ok ending ∧
    (RawText.ofString ending).isSuffixOf path = true

/-- A flaw in a path is met when the file is stored: it is the first one, the ending of the path is
right, and nothing else is wrong with the folders on the way. -/
structure FlawMet (s : Session) (path : RawText) (flaw : PathFlaw) : Prop where
  first : FirstFlaw (namesOf path) flaw
  ending : EndsRight s path
  folders : ∀ fault shown, (s.store.makeFolders (foldersOf path)).1 ≠ some (.file fault shown)

theorem writeFile_of_settings {s s' : Session} {loaded : Loaded}
    (h : s.settings none = (.ok loaded, s')) (path source : RawText) :
    writeFile path source s =
      match loaded.config.used "files" "extension" Setting.extension with
      | .error fault => (.error (.setting fault), s')
      | .ok ending =>
        if !(RawText.ofString ending).isSuffixOf path then
          (.ok ("Error: filepath must end with " ++ ending : String), s')
        else
          match s'.store? path source with
          | (.ok (), s) => (.ok ("Saved: " ++ path), s)
          | (.error (.access (.file fault shown)), s) =>
            (.ok ("Error writing file: " ++ AccessFault.message (.file fault shown) : String), s)
          | (.error failure, s) => (.error failure, s) := by
  have hending := Command.setting_bind loaded.config "files" "extension" Setting.extension
  simp only [writeFile, h, hending]
  rcases loaded.config.used "files" "extension" Setting.extension with fault | ending
  · rfl
  · rfl

/-- With an ending that can be used, writing a file fails if storing it does, unless that is about
the files. -/
theorem writeFile_of_ending {s s' : Session} {loaded : Loaded} {ending : String}
    (hloaded : s.settings none = (.ok loaded, s'))
    (hending : loaded.config.used "files" "extension" Setting.extension = .ok ending)
    {path source : RawText} {f : Failure} :
    (writeFile path source s).1 = .error f ↔
      (RawText.ofString ending).isSuffixOf path = true ∧ (s'.store? path source).1 = .error f ∧
        ∀ fault shown, f ≠ .access (.file fault shown) := by
  rw [writeFile_of_settings hloaded, hending]
  rcases hends : (RawText.ofString ending).isSuffixOf path with _ | _
  · simp [hends]
  · simp only [hends, Bool.not_true, Bool.false_eq_true, if_false, true_and]
    rcases hstore : s'.store? path source with ⟨failure | _, s''⟩
    · split
      · next heq => cases heq
      · next heq =>
        cases heq
        simp only [reduceCtorEq, Except.error.injEq, false_iff, not_and]
        intro hfailure hother
        exact hother _ _ hfailure.symm
      · next hfile heq =>
        cases heq
        simp only [Except.error.injEq, iff_self_and]
        rintro rfl fault shown rfl
        exact hfile fault shown rfl
    · simp

theorem ne_saved {text : String} (h : text.toList.head? = some 'E') (rest path : RawText) :
    text ++ rest ≠ "Saved: " ++ path := by
  intro heq
  have hhead := congrArg List.head? heq
  simp [RawText.ofString, RawText.ofList, h] at hhead

/-- A file is said to be saved just if it has been stored. -/
theorem writeFile_eq_saved {s s' : Session} {loaded : Loaded} {ending : String}
    (hloaded : s.settings none = (.ok loaded, s'))
    (hending : loaded.config.used "files" "extension" Setting.extension = .ok ending)
    {path source : RawText} :
    (writeFile path source s).1 = .ok ("Saved: " ++ path) ↔
      (RawText.ofString ending).isSuffixOf path = true ∧ (s'.store? path source).1 = .ok () := by
  rw [writeFile_of_settings hloaded, hending]
  rcases hends : (RawText.ofString ending).isSuffixOf path with _ | _
  · have hne : "Error: filepath must end with " ++ RawText.ofString ending ≠ "Saved: " ++ path :=
      ne_saved (by simp) _ _
    simp [hends, hne]
  · simp only [hends, Bool.not_true, Bool.false_eq_true, if_false, true_and]
    rcases s'.store? path source with ⟨failure | _, s''⟩
    · split
      · next heq => cases heq
      · next fault shown _ _ =>
        have hne : "Error writing file: " ++
            RawText.ofString (AccessFault.file fault shown).message ≠ "Saved: " ++ path :=
          ne_saved (by simp) _ _
        simp [hne]
      · simp
    · simp

/-- Writing a file fails for want of an ending, for a flaw that is met in the path, or for surrogates
in the program where an empty one would be saved. -/
theorem writeFile_eq_error {s : Session} {path source : RawText} {f : Failure} :
    (writeFile path source s).1 = .error f ↔
      SettingFailure s "files" "extension" Setting.extension f ∨
      (∃ flaw, FlawMet s path flaw ∧ f = .access (.path flaw)) ∨
      ∃ fault, source.encode = .error fault ∧
        (writeFile path [] s).1 = .ok ("Saved: " ++ path) ∧ f = .encoding fault := by
  rcases hsettings : s.settings none with ⟨failure | loaded, s'⟩
  · have hloaded : (s.settings none).1 = .error failure := by rw [hsettings]
    have hnot (flaw : PathFlaw) : ¬ FlawMet s path flaw := by
      rintro ⟨_, ⟨loaded, _, hok, _⟩, _⟩
      rw [hloaded] at hok
      cases hok
    rw [settingFailure_of_error hloaded]
    simp [writeFile, hsettings, hnot, eq_comm]
  · have hloaded : (s.settings none).1 = .ok loaded := by rw [hsettings]
    have hstore : s'.store = s.store := by simpa [hsettings] using store_settings s none
    rw [settingFailure_of_ok hloaded]
    rcases hused : loaded.config.used "files" "extension" Setting.extension with fault | ending
    · have hnot (flaw : PathFlaw) : ¬ FlawMet s path flaw := by
        rintro ⟨_, ⟨loaded', ending, hok, hending, _⟩, _⟩
        cases hok.symm.trans hloaded
        rw [hused] at hending
        cases hending
      simp [writeFile_of_settings hsettings, hused, hnot, eq_comm]
    · have hmet (flaw : PathFlaw) : FlawMet s path flaw ↔
          (RawText.ofString ending).isSuffixOf path = true ∧
            (s'.store? path source).1 = .error (.access (.path flaw)) := by
        rw [store?_eq_path, hstore]
        constructor
        · rintro ⟨hfirst, ⟨loaded', ending', hok, hending, hends⟩, hfolders⟩
          cases hok.symm.trans hloaded
          cases hending.symm.trans hused
          exact ⟨hends, hfirst, hfolders⟩
        · rintro ⟨hends, hfirst, hfolders⟩
          exact ⟨hfirst, ⟨loaded, ending, hloaded, hused, hends⟩, hfolders⟩
      rw [writeFile_of_ending hsettings hused, writeFile_eq_saved hsettings hused]
      constructor
      · rintro ⟨hends, hfailed, hfile⟩
        rcases store?_eq_error hfailed with ⟨flaw | ⟨fault, shown⟩, rfl⟩ | ⟨fault, rfl⟩
        · exact .inr (.inl ⟨flaw, (hmet flaw).2 ⟨hends, hfailed⟩, rfl⟩)
        · exact absurd rfl (hfile fault shown)
        · obtain ⟨hencode, hempty⟩ := store?_eq_encoding.1 hfailed
          exact .inr (.inr ⟨fault, hencode, ⟨hends, hempty⟩, rfl⟩)
      · rintro (⟨fault, hfault, _⟩ | ⟨flaw, hflaw, rfl⟩ | ⟨fault, hencode, ⟨hends, hempty⟩, rfl⟩)
        · cases hfault
        · obtain ⟨hends, hfailed⟩ := (hmet flaw).1 hflaw
          exact ⟨hends, hfailed, by simp⟩
        · exact ⟨hends, store?_eq_encoding.2 ⟨hencode, hempty⟩, by simp⟩

/-! ## The tools -/

/-- Showing a tree fails for want of an indentation alone. -/
theorem showTree_eq_error {s : Session} {f : Failure} (tree : Tree) :
    (match s.settings none with
      | (.error failure, s) => (.error failure, s)
      | (.ok loaded, s) => ((Command.dump loaded.config tree).map RawText.ofString, s) :
        Except Failure RawText × Session).1 = .error f ↔
      SettingFailure s "cli" "json_indent" Setting.indentation f := by
  rcases hsettings : s.settings none with ⟨failure | loaded, s'⟩
  · have hloaded : (s.settings none).1 = .error failure := by rw [hsettings]
    rw [settingFailure_of_error hloaded]
    simp [eq_comm]
  · have hloaded : (s.settings none).1 = .ok loaded := by rw [hsettings]
    rw [settingFailure_of_ok hloaded]
    exact map_eq_error.trans Command.dump_eq_error

/-- Exactly where the tools fail, and how.  Checking and laying out fail on the way to the program
alone, showing the tree of a program for want of an indentation as well, and writing for want of an
ending, for a flaw in the path, or for surrogates in the program. -/
theorem tool_fails_iff (s : Session) (path source : RawText) (f : Failure) :
    ((checkFile path s).1 = .error f ↔ ProgramFailure s path f) ∧
    ((formatFile path s).1 = .error f ↔ ProgramFailure s path f) ∧
    ((parseFile path s).1 = .error f ↔
      ProgramFailure s path f ∨
        (∃ program tree, s.Holds path program ∧ parseText program = .ok tree) ∧
          SettingFailure s "cli" "json_indent" Setting.indentation f) ∧
    ((writeFile path source s).1 = .error f ↔
      SettingFailure s "files" "extension" Setting.extension f ∨
      (∃ flaw, FlawMet s path flaw ∧ f = .access (.path flaw)) ∨
      ∃ fault, source.encode = .error fault ∧
        (writeFile path [] s).1 = .ok ("Saved: " ++ path) ∧ f = .encoding fault) := by
  refine ⟨?_, ?_, ?_, writeFile_eq_error⟩
  · rw [checkFile, withProgram_eq_error]
    simp
  · rw [formatFile, withProgram_eq_error, or_iff_left]
    rintro ⟨program, tree, _, hparse, hlayout⟩
    obtain ⟨text, htext⟩ := Command.layout_of_parse hparse
    rw [htext] at hlayout
    cases hlayout
  · rw [parseFile, withProgram_eq_error]
    refine or_congr Iff.rfl ⟨?_, ?_⟩
    · rintro ⟨program, tree, hholds, hparse, h⟩
      exact ⟨⟨program, tree, hholds, hparse⟩, (showTree_eq_error tree).1 h⟩
    · rintro ⟨⟨program, tree, hholds, hparse⟩, h⟩
      exact ⟨program, tree, hholds, hparse, (showTree_eq_error tree).2 h⟩

/-- A settings file that holds a list.  The tools that need a setting pass on the diagnostic which
the command line reports.  The others fail too, where a file is no text. -/
theorem tool_fails_on_settings_list :
    let place (name : String) : Place := [RawText.bytes name]
    let s := start Settings.documents "/work" ⟨[], [(place "nord.config", .file [0x5b, 0x5d]),
      (place "t.nord", .file [0x31]), (place "b.nord", .file [0xff])]⟩
    let failure : Failure := .settingsFile (.noMapping "/work/nord.config")
    (writeFile "t.nord" "1" s).1 = .error failure ∧
    (parseFile "t.nord" s).1 = .error failure ∧
    (CommandLine.call ["parse", "t.nord"] s).1 =
      CommandLine.refused ("Error: Line 0, Col 0: /work/nord.config must contain a mapping at the " ++
        "top level\n") ∧
    (checkFile "b.nord" s).1 = .error (.decoding ⟨0, [0xff], 1, .badStart⟩) ∧
    (formatFile "b.nord" s).1 = .error (.decoding ⟨0, [0xff], 1, .badStart⟩) := by
  intro place s failure
  have hlist : s.settingsOf "/work/nord.config" [0x5b, 0x5d] = .error failure := by
    have htext : decodeFile [0x5b, 0x5d] = .ok ['[', ']'] := rfl
    have hparse : Settings.documents.parse ['[', ']'] = .ok (.list []) := by with_unfolding_all rfl
    rw [settingsOf_of_text htext]
    simp only [s, start, hparse]
    rfl
  have hentry : s.store.entry? (settingsPath none) = some (.file [0x5b, 0x5d]) := rfl
  have hread : s.readSettings none = .error failure := by
    have hshown : s.shownSettingsPath none = "/work/nord.config" := by decide
    simp only [readSettings_of_entry, hentry, hshown, hlist]
  have hcache : s.cache = none := rfl
  have hsettings : s.settings none = (.error failure, s) := by
    simp only [settings, hcache, hread]
  refine ⟨?_, ?_, ?_, rfl, rfl⟩
  · rw [writeFile, hsettings]
  · have hholds : s.Holds "t.nord" ['1'] := ⟨[0x31], rfl, rfl⟩
    have hparse : parseText ['1'] = .ok (.constant ⟨1, 1⟩ (.num (.int 1))) := by
      with_unfolding_all rfl
    rw [parseFile, withProgram_of_holds hholds, hparse, hsettings]
  · have hcall : (CommandLine.call ["parse", "t.nord"] s).1 = CommandLine.broken "" failure := by
      simp [CommandLine.call, CommandLine.commands, hsettings]
    rw [hcall]
    rfl

end Session

end NordLang
