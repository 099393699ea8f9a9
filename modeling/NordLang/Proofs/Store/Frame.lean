import NordLang.Proofs.Store.Flaws

/-!
# What operations on files leave alone

Making folders changes nothing but that there are folders where nothing was, and these lie on the
way that the path goes (`keeps_makeFolders`).  Writing a file then changes the one place its path
leads to (`kept_of_write`).

`Kept` says this of one place and `Keeps` of all.  It can be followed through several operations
because a path which leads somewhere still leads there when folders have been added
(`resolve_of_keepsFolders`).
-/

namespace NordLang

namespace Store

/-- A place at which two stores have the same, or the second one a folder where nothing was before,
to which the first few of some names lead. -/
def Kept (names : List RawText) (s s' : Store) (place : Place) : Prop :=
  s'.find? place = s.find? place ∨
    s.find? place = none ∧ s'.find? place = some .folder ∧
      ∃ front, front <+: names ∧ s'.resolve (pathOf front) = .ok place

/-- A store differs from another one only by folders on the way that names lead. -/
structure Keeps (names : List RawText) (s s' : Store) : Prop where
  folder : s'.folder = s.folder
  kept : ∀ place, Kept names s s' place

section Keeps

variable {names : List RawText} {s s' s'' : Store}

/-- Where a store is kept, it has the same files. -/
theorem Kept.file_iff {place : Place} (h : Kept names s s' place) (bytes : List UInt8) :
    s'.find? place = some (.file bytes) ↔ s.find? place = some (.file bytes) := by
  rcases h with hsame | ⟨hnone, hfolder, _⟩
  · rw [hsame]
  · simp [hnone, hfolder]

theorem Keeps.refl (names : List RawText) (s : Store) : Keeps names s s :=
  ⟨rfl, fun _ => .inl rfl⟩

theorem Keeps.keepsFolders (h : Keeps names s s') : KeepsFolders s s' := by
  refine ⟨h.folder, fun place hplace => ?_⟩
  rcases h.kept place with hsame | ⟨hnone, _⟩
  · rw [hsame, hplace]
  · rw [hplace] at hnone
    cases hnone

theorem Keeps.mono {more : List RawText} (h : Keeps names s s') (hnames : names <+: more) :
    Keeps more s s' := by
  refine ⟨h.folder, fun place => ?_⟩
  rcases h.kept place with hsame | ⟨hnone, hfolder, front, hfront, hresolve⟩
  · exact .inl hsame
  · exact .inr ⟨hnone, hfolder, front, hfront.trans hnames, hresolve⟩

/-- A place that has been kept and is then left alone, or made a folder, is kept. -/
theorem Kept.trans {place : Place} (h : Kept names s s' place) (hkeeps : KeepsFolders s' s'')
    (h' : Kept names s' s'' place) : Kept names s s'' place := by
  rcases h with hsame | ⟨hnone, hfolder, front, hfront, hresolve⟩
  · rw [Kept, ← hsame]
    exact h'
  · refine .inr ⟨hnone, hkeeps.find? place hfolder, front, hfront, ?_⟩
    exact resolve_of_keepsFolders hkeeps hresolve

theorem Keeps.trans (h : Keeps names s s') (h' : Keeps names s' s'') : Keeps names s s'' :=
  ⟨h'.folder.trans h.folder, fun place => (h.kept place).trans h'.keepsFolders (h'.kept place)⟩

end Keeps

/-! ## Making folders -/

variable {s s' : Store}

theorem makeFolder_eq_ok {path : RawText} :
    s.makeFolder path = .ok s' ↔
      ∃ place, s.resolve path = .ok place ∧ s.find? place = none ∧ s' = s.set place .folder := by
  rcases hresolve : s.resolve path with fault | place
  · simp [makeFolder, hresolve, bind, Except.bind]
  · rcases hfind : s.find? place with _ | entry
    · simp [makeFolder, hresolve, hfind, bind, Except.bind, pure, Except.pure, eq_comm]
    · simp [makeFolder, hresolve, hfind, bind, Except.bind, throw, throwThe, MonadExceptOf.throw]

theorem keeps_makeFolder {names : List RawText} (h : s.makeFolder (pathOf names) = .ok s') :
    Keeps names s s' := by
  obtain ⟨place, hresolve, hnone, rfl⟩ := makeFolder_eq_ok.1 h
  have hnot : s.find? place ≠ some .folder := by
    rw [hnone]
    nofun
  refine ⟨rfl, fun other => ?_⟩
  by_cases hother : other = place
  · subst hother
    refine .inr ⟨hnone, find?_set_self hnot .folder, names, List.prefix_refl names, ?_⟩
    exact resolve_of_keepsFolders (keepsFolders_set hnot .folder) hresolve
  · exact .inl (find?_set_of_ne hother .folder)

theorem keeps_ensureFolder (s : Store) (names : List RawText) :
    Keeps names s (s.ensureFolder (pathOf names)).2 := by
  rw [ensureFolder]
  rcases hmake : s.makeFolder (pathOf names) with fault | made
  · simp only
    split
    · exact .refl names s
    · exact .refl names s
  · exact keeps_makeFolder hmake

/-- Making folders adds folders on the way and changes nothing else, also if it fails halfway. -/
theorem keeps_makeFolders (s : Store) (names : List RawText) :
    Keeps names s (s.makeFolders names).2 := by
  fun_induction makeFolders s names with
  | case1 => exact .refl _ _
  | case2 names => exact keeps_ensureFolder s names
  | case3 names _ _ parent _ fault s' hmake fault' _ ih =>
    rw [hmake] at ih
    exact ih.mono (parentNames_isPrefix names)
  | case4 names _ _ parent _ fault s' hmake _ _ ih =>
    rw [hmake] at ih
    exact ih.mono (parentNames_isPrefix names)
  | case5 names _ _ parent _ fault s' hmake _ _ ih =>
    rw [hmake] at ih
    exact (ih.mono (parentNames_isPrefix names)).trans (keeps_ensureFolder s' names)

/-! ## Writing -/

/-- A file that is written once the folders on its way are there is the only thing that changes
besides them. -/
theorem kept_of_write {names : List RawText} {s'' : Store} (h : Keeps names s s')
    {path : RawText} {bytes : List UInt8} (hwrite : s'.write path bytes = .ok s'') :
    ∃ place, s''.resolve path = .ok place ∧ s''.find? place = some (.file bytes) ∧
      ∀ other, other ≠ place → Kept names s s'' other := by
  obtain ⟨place, hresolve, hnot, rfl⟩ := write_eq_ok.1 hwrite
  have hkeeps := keepsFolders_set hnot (.file bytes)
  refine ⟨place, resolve_of_keepsFolders hkeeps hresolve, find?_set_self hnot _, ?_⟩
  intro other hother
  exact (h.kept other).trans hkeeps (.inl (find?_set_of_ne hother _))

end Store

end NordLang
