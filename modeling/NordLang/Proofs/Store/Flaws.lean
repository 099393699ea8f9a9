import NordLang.Proofs.Store.Access

/-!
# Flawed paths

A path names nothing if it holds a NUL or a surrogate that stands for no byte.  Every operation
refuses such a path.  When a file is written, the folders on the way to it come first, and they are
looked for and made from the shortest one on.  So if a path has several flaws, the one that is met is
that of the shortest part which has any.

* `FirstFlaw` says which flaw this is, by the names of the path alone.
* `firstFlaw_of_makeFolders` says that making folders refuses a path for this flaw, and
  `flawless_of_makeFolders` that it does not get past a flaw.
-/

namespace NordLang

/-! ## Code points of paths -/

/-- Whether a code point may stand in a path. -/
def CodePoint.isNameable : CodePoint → Bool
  | char c => c != '\x00'
  | surrogate index => standsForByte index

theorem RawText.refused?_eq_none {refuses : Fin 0x800 → Bool} {offset : Nat} {text : RawText} :
    text.refused? refuses offset = none ↔
      ∀ index, CodePoint.surrogate index ∈ text → refuses index = false := by
  induction text generalizing offset with
  | nil => simp [refused?]
  | cons c rest ih =>
    cases c with
    | char c => simp [refused?, ih]
    | surrogate index => cases hrefuses : refuses index <;> simp [refused?, hrefuses, ih]

theorem flaw?_eq_none {path : RawText} :
    flaw? path = none ↔ ∀ c ∈ path, c.isNameable = true := by
  unfold flaw?
  rcases hrefused : path.refused? (!CodePoint.standsForByte ·) 0 with _ | fault
  · rw [RawText.refused?_eq_none] at hrefused
    simp only [Bool.not_eq_false'] at hrefused
    by_cases hnul : CodePoint.char '\x00' ∈ path
    · simp only [List.contains_iff_mem, hnul, if_true, reduceCtorEq, false_iff]
      exact fun h => nomatch h _ hnul
    · simp only [List.contains_iff_mem, hnul, if_false, true_iff]
      intro c hc
      cases c with
      | char c =>
        have hne : c ≠ '\x00' := by
          rintro rfl
          exact hnul hc
        simpa [CodePoint.isNameable] using hne
      | surrogate index => exact hrefused index hc
  · simp only [reduceCtorEq, false_iff]
    intro h
    have hnone : path.refused? (!CodePoint.standsForByte ·) 0 = none := by
      rw [RawText.refused?_eq_none]
      intro index hindex
      simpa [CodePoint.isNameable] using h _ hindex
    rw [hnone] at hrefused
    cases hrefused

theorem forall_mem_pathOf {P : CodePoint → Prop} (hslash : P (.char '/')) {names : List RawText} :
    (∀ c ∈ pathOf names, P c) ↔ ∀ name ∈ names, ∀ c ∈ name, P c := by
  unfold pathOf
  induction names with
  | nil => simp [List.intercalate]
  | cons name names ih =>
    cases names with
    | nil => simp
    | cons next names =>
      simp only [List.intercalate_cons_cons, List.mem_append, List.mem_singleton, or_imp,
        forall_and, forall_eq, ih, List.forall_mem_cons]
      exact ⟨fun h => ⟨h.1.1, h.2⟩, fun h => ⟨⟨h.1, hslash⟩, h.2⟩⟩

/-- The slashes between names are no flaws. -/
theorem flaw?_pathOf_eq_none {names : List RawText} :
    flaw? (pathOf names) = none ↔ ∀ name ∈ names, ∀ c ∈ name, c.isNameable = true := by
  have hslash : (CodePoint.char '/').isNameable = true := rfl
  rw [flaw?_eq_none]
  exact forall_mem_pathOf hslash

theorem namesOf_ne_nil (path : RawText) : namesOf path ≠ [] := by
  cases path with
  | nil => simp [namesOf]
  | cons c rest =>
    rw [namesOf]
    split
    · simp
    · split <;> simp

theorem pathOf_namesOf (path : RawText) : pathOf (namesOf path) = path := by
  induction path with
  | nil => rfl
  | cons c rest ih =>
    rcases hnames : namesOf rest with _ | ⟨name, names⟩
    · exact absurd hnames (namesOf_ne_nil rest)
    · rw [hnames, pathOf] at ih
      by_cases hslash : c = .char '/'
      · simp [namesOf, hslash, hnames, pathOf, List.intercalate_cons_cons, ih]
      · cases names with
        | nil => simpa [namesOf, hslash, hnames, pathOf] using ih
        | cons next names =>
          simpa [namesOf, hslash, hnames, pathOf, List.intercalate_cons_cons] using ih

/-! ## Parents -/

theorem parentNames_isPrefix (names : List RawText) : parentNames names <+: names := by
  have hkept : (names.dropLast.reverse.dropWhile (·.isEmpty)).reverse <+:
      names.dropLast.reverse.reverse := List.reverse_prefix.2 (List.dropWhile_suffix _)
  rw [List.reverse_reverse] at hkept
  exact hkept.trans (List.dropLast_prefix names)

/-- Of the names in front of the last one, only empty ones are not names of the parent. -/
theorem mem_parentNames_of_mem_dropLast {names : List RawText} {name : RawText}
    (h : name ∈ names.dropLast) (hne : name ≠ []) : name ∈ parentNames names := by
  have hsplit := List.takeWhile_append_dropWhile (p := fun name : RawText => name.isEmpty)
    (l := names.dropLast.reverse)
  rw [← List.mem_reverse, ← hsplit, List.mem_append] at h
  rw [parentNames, List.mem_reverse]
  refine h.resolve_left fun htaken => hne ?_
  have hempty := (List.all_eq_true.1 List.all_takeWhile) name htaken
  simpa using hempty

/-! ## The first flaw -/

/-- The flaw of the shortest part of a path that has one, where the path is given by its names. -/
def FirstFlaw (names : List RawText) (flaw : PathFlaw) : Prop :=
  ∃ front, front <+: names ∧ flaw? (pathOf front) = some flaw ∧
    ∀ shorter, shorter <+: names → shorter.length < front.length → flaw? (pathOf shorter) = none

theorem FirstFlaw.mono {names more : List RawText} {flaw : PathFlaw} (h : FirstFlaw names flaw)
    (hmore : names <+: more) : FirstFlaw more flaw := by
  obtain ⟨front, hfront, hflaw, hshorter⟩ := h
  refine ⟨front, hfront.trans hmore, hflaw, fun shorter hbegins hlength => ?_⟩
  refine hshorter shorter (List.prefix_of_prefix_length_le hbegins hmore ?_) hlength
  have := hfront.length_le
  omega

theorem FirstFlaw.unique {names : List RawText} {flaw flaw' : PathFlaw} (h : FirstFlaw names flaw)
    (h' : FirstFlaw names flaw') : flaw = flaw' := by
  obtain ⟨front, hfront, hflaw, hshorter⟩ := h
  obtain ⟨front', hfront', hflaw', hshorter'⟩ := h'
  have hlength : front.length = front'.length := by
    rcases Nat.lt_trichotomy front.length front'.length with hlt | heq | hgt
    · rw [hshorter' front hfront hlt] at hflaw
      cases hflaw
    · exact heq
    · rw [hshorter front' hfront' hgt] at hflaw'
      cases hflaw'
  have hprefixes := List.prefix_of_prefix_length_le hfront hfront' (Nat.le_of_eq hlength)
  obtain rfl := hprefixes.eq_of_length hlength
  exact Option.some.inj (hflaw.symm.trans hflaw')

/-- If the parent has no flaw, the flaw of the path is the first one. -/
theorem firstFlaw_iff_of_parent {names : List RawText} {flaw : PathFlaw}
    (h : flaw? (pathOf (parentNames names)) = none) :
    FirstFlaw names flaw ↔ flaw? (pathOf names) = some flaw := by
  have hshorter : ∀ shorter, shorter <+: names → shorter.length < names.length →
      flaw? (pathOf shorter) = none := by
    intro shorter hbegins hlength
    have hinit : shorter <+: names.dropLast := by
      rw [List.dropLast_eq_take, List.prefix_take_iff]
      exact ⟨hbegins, by omega⟩
    rw [flaw?_pathOf_eq_none] at h ⊢
    intro name hname c hc
    exact h name (mem_parentNames_of_mem_dropLast (hinit.subset hname) (List.ne_nil_of_mem hc)) c hc
  constructor
  · rintro ⟨front, hfront, hflaw, _⟩
    rcases Nat.lt_or_eq_of_le hfront.length_le with hlt | heq
    · rw [hshorter front hfront hlt] at hflaw
      cases hflaw
    · rwa [← hfront.eq_of_length heq]
  · intro hflaw
    exact ⟨names, List.prefix_refl names, hflaw, hshorter⟩

/-! ## Making folders -/

namespace Store

variable {s : Store}

theorem flawless_of_exists? {path : RawText} (h : s.exists? path = true) : flaw? path = none := by
  rcases hflaw : flaw? path with _ | flaw
  · rfl
  · simp [exists?, entry?, resolve_of_flaw hflaw] at h

/-- A single folder is refused for a flaw exactly if its path has it. -/
theorem ensureFolder_eq_path {path : RawText} {flaw : PathFlaw} :
    (s.ensureFolder path).1 = some (.path flaw) ↔ flaw? path = some flaw := by
  rw [← makeFolder_eq_path (s := s), ensureFolder]
  rcases hmake : s.makeFolder path with fault | made
  · by_cases hfolder : s.entry? path = some .folder
    · have hflawless : flaw? path = none := flawless_of_exists? (by rw [exists?, hfolder]; rfl)
      have hno : fault ≠ .path flaw := by
        rintro rfl
        rw [makeFolder_eq_path, hflawless] at hmake
        cases hmake
      simp [hfolder, hno]
    · simp [hfolder]
  · simp

theorem flawless_of_ensureFolder {path : RawText}
    (h : (s.ensureFolder path).1.filter (!·.isInTheWay) = none) : flaw? path = none := by
  rcases hflaw : flaw? path with _ | flaw
  · rfl
  · rw [ensureFolder_eq_path.2 hflaw] at h
    cases h

/-- Folders that were made, or that something is in the way of, have no flaw in their path. -/
theorem flawless_of_makeFolders {names : List RawText}
    (h : (s.makeFolders names).1.filter (!·.isInTheWay) = none) : flaw? (pathOf names) = none := by
  fun_induction makeFolders s names with
  | case1 => rfl
  | case2 => exact flawless_of_ensureFolder h
  | case3 names _ _ parent _ fault s' hmake fault' hfault =>
    have hstop : fault'.isInTheWay = false := by simpa using (Option.filter_eq_some_iff.1 hfault).2
    simp [hstop] at h
  | case4 names _ _ parent _ fault s' hmake hfault hdot ih =>
    -- The last name is a dot, so what there is of other names belongs to the parent.
    rw [hmake] at ih
    have hparent := ih hfault
    rw [flaw?_pathOf_eq_none] at hparent ⊢
    intro name hname c hc
    obtain ⟨init, rfl⟩ := List.getLast?_eq_some_iff.1 hdot
    rcases List.mem_append.1 hname with hinit | hlast
    · have hmem : name ∈ (init ++ [[CodePoint.char '.']]).dropLast := by simpa using hinit
      exact hparent name (mem_parentNames_of_mem_dropLast hmem (List.ne_nil_of_mem hc)) c hc
    · cases List.mem_singleton.1 hlast
      cases List.mem_singleton.1 hc
      rfl
  | case5 => exact flawless_of_ensureFolder h

/-- Making folders refuses a path for its first flaw. -/
theorem firstFlaw_of_makeFolders {names : List RawText} {flaw : PathFlaw}
    (h : (s.makeFolders names).1 = some (.path flaw)) : FirstFlaw names flaw := by
  fun_induction makeFolders s names with
  | case1 => cases h
  | case2 names _ _ parent hparent =>
    have hflawless : flaw? (pathOf parent) = none := by
      rcases hparent with hnil | hexists
      · rw [hnil]
        rfl
      · exact flawless_of_exists? hexists
    exact (firstFlaw_iff_of_parent hflawless).2 (ensureFolder_eq_path.1 h)
  | case3 names _ _ parent _ fault s' hmake fault' hfault ih =>
    rw [hmake] at ih
    have hsame := (Option.filter_eq_some_iff.1 hfault).1
    exact (ih (hsame.trans h)).mono (parentNames_isPrefix names)
  | case4 => cases h
  | case5 names _ _ parent _ fault s' hmake hfault =>
    have hflawless : flaw? (pathOf parent) = none :=
      flawless_of_makeFolders (by rw [hmake]; exact hfault)
    exact (firstFlaw_iff_of_parent hflawless).2 (ensureFolder_eq_path.1 h)

end Store

end NordLang
