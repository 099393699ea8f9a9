import NordLang.Store

/-!
# Access to files

What the operations on files see of the store.

* A file that has been written is read as the bytes that were written (`read_of_write`).  Where a
  path leads depends only on the folders on its way, so it leads to the same place in every store
  that has at least the same folders (`resolve_of_keepsFolders`).
* An operation refuses a path for a flaw exactly if the path has one (`read_eq_path`,
  `write_eq_path`, `makeFolder_eq_path`).
-/

namespace NordLang

namespace Store

/-! ## Single places -/

theorem lookup_filter_of_ne {place other : Place} (hne : place ≠ other)
    (entries : List (Place × Entry)) :
    (entries.filter (·.1 != other)).lookup place = entries.lookup place := by
  induction entries with
  | nil => rfl
  | cons e rest ih =>
    obtain ⟨p, entry⟩ := e
    by_cases hp : p = other
    · have hplace : (place == p) = false := by
        rw [hp]
        exact beq_false_of_ne hne
      simp only [List.filter_cons, hp, bne_self_eq_false, Bool.false_eq_true, if_false, ih]
      rw [List.lookup_cons, ← hp, hplace]
    · have hkept : (p != other) = true := by simpa using hp
      simp only [List.filter_cons, hkept, if_true, List.lookup_cons, ih]

theorem find?_set_self {s : Store} {place : Place} (h : s.find? place ≠ some .folder)
    (entry : Entry) : (s.set place entry).find? place = some entry := by
  have hfolder : place.isPrefixOf s.folder = false := by
    rw [Bool.eq_false_iff]
    intro hprefix
    exact h (if_pos hprefix)
  simp [find?, set, hfolder]

theorem find?_set_of_ne {s : Store} {place other : Place} (hne : other ≠ place) (entry : Entry) :
    (s.set place entry).find? other = s.find? other := by
  have hplace : (other == place) = false := beq_false_of_ne hne
  simp only [find?, set, List.lookup_cons, hplace, lookup_filter_of_ne hne]

/-! ## Where paths lead -/

/-- All folders of a store are folders of another one, with the same working directory. -/
structure KeepsFolders (s s' : Store) : Prop where
  folder : s'.folder = s.folder
  find? : ∀ place, s.find? place = some .folder → s'.find? place = some .folder

theorem keepsFolders_set {s : Store} {place : Place} (h : s.find? place ≠ some .folder)
    (entry : Entry) : KeepsFolders s (s.set place entry) := by
  refine ⟨rfl, fun other hother => ?_⟩
  have hne : other ≠ place := by
    rintro rfl
    exact h hother
  rw [find?_set_of_ne hne, hother]

theorem walk_of_keepsFolders {s s' : Store} (h : KeepsFolders s s') {place target : Place}
    {names : List RawText} (hwalk : s.walk place names = .ok target) :
    s'.walk place names = .ok target := by
  induction names generalizing place with
  | nil => exact hwalk
  | cons name names ih =>
    rw [walk] at hwalk ⊢
    rcases hfind : s.find? place with _ | _ | _
    · simp [hfind] at hwalk
    · simp [hfind] at hwalk
    · simp only [hfind] at hwalk
      simp only [h.find? place hfind]
      by_cases hstay : name = [] ∨ name = [.char '.']
      · rw [if_pos hstay] at hwalk ⊢
        exact ih hwalk
      rw [if_neg hstay] at hwalk ⊢
      by_cases hup : name = [.char '.', .char '.']
      · rw [if_pos hup] at hwalk ⊢
        exact ih hwalk
      rw [if_neg hup] at hwalk ⊢
      by_cases hlong : maxNameSize < name.bytes.length
      · simp [hlong] at hwalk
      · rw [if_neg hlong] at hwalk ⊢
        exact ih hwalk

theorem resolve_of_flaw {s : Store} {path : RawText} {flaw : PathFlaw}
    (h : flaw? path = some flaw) : s.resolve path = .error (.path flaw) := by
  simp only [resolve, h]

/-- Where a path without a flaw leads. -/
theorem resolve_of_flawless {s : Store} {path : RawText} (h : flaw? path = none) :
    s.resolve path =
      (if maxPathSize < path.bytes.length then .error FileFault.nameTooLong
        else if path = [] then .error .notFound
        else s.walk (s.origin path) (namesOf path)).mapError (.file · path) := by
  simp only [resolve, h]

theorem resolve_of_keepsFolders {s s' : Store} (h : KeepsFolders s s') {path : RawText}
    {place : Place} (hresolve : s.resolve path = .ok place) : s'.resolve path = .ok place := by
  have horigin : s'.origin path = s.origin path := by rw [origin, origin, h.folder]
  rcases hflaw : flaw? path with _ | flaw
  · rw [resolve_of_flawless hflaw] at hresolve ⊢
    by_cases hlong : maxPathSize < path.bytes.length
    · rw [if_pos hlong] at hresolve
      cases hresolve
    by_cases hempty : path = []
    · rw [if_neg hlong, if_pos hempty] at hresolve
      cases hresolve
    rw [if_neg hlong, if_neg hempty] at hresolve ⊢
    rcases hwalk : s.walk (s.origin path) (namesOf path) with fault | target
    · rw [hwalk] at hresolve
      cases hresolve
    · rw [hwalk] at hresolve
      rw [horigin, walk_of_keepsFolders h hwalk]
      exact hresolve
  · rw [resolve_of_flaw hflaw] at hresolve
    cases hresolve

theorem resolve_cases (s : Store) (path : RawText) :
    (∃ flaw, flaw? path = some flaw ∧ s.resolve path = .error (.path flaw)) ∨
    flaw? path = none ∧
      ((∃ place, s.resolve path = .ok place) ∨
        ∃ fault, s.resolve path = .error (.file fault path)) := by
  rcases hflaw : flaw? path with _ | flaw
  · refine .inr ⟨rfl, ?_⟩
    rw [resolve_of_flawless hflaw]
    split
    · exact .inr ⟨_, rfl⟩
    · split
      · exact .inr ⟨_, rfl⟩
      · rcases s.walk (s.origin path) (namesOf path) with fault | place
        · exact .inr ⟨fault, rfl⟩
        · exact .inl ⟨place, rfl⟩
  · exact .inl ⟨flaw, rfl, resolve_of_flaw hflaw⟩

/-! ## Reading and writing -/

theorem read_of_resolve_eq_ok {s : Store} {path : RawText} {place : Place}
    (h : s.resolve path = .ok place) :
    s.read path =
      match s.find? place with
      | some (.file bytes) => .ok bytes
      | some .folder => .error (.file .isDirectory path)
      | none => .error (.file .notFound path) := by
  rw [read, h]
  rfl

theorem write_of_resolve_eq_ok {s : Store} {path : RawText} {place : Place}
    (h : s.resolve path = .ok place) (bytes : List UInt8) :
    s.write path bytes =
      match s.find? place with
      | some .folder => .error (.file .isDirectory path)
      | _ => .ok (s.set place (.file bytes)) := by
  rw [write, h]
  rfl

theorem write_eq_ok {s s' : Store} {path : RawText} {bytes : List UInt8} :
    s.write path bytes = .ok s' ↔
      ∃ place, s.resolve path = .ok place ∧ s.find? place ≠ some .folder ∧
        s' = s.set place (.file bytes) := by
  rcases hresolve : s.resolve path with fault | place
  · simp [write, hresolve, bind, Except.bind]
  · rw [write_of_resolve_eq_ok hresolve]
    rcases hfind : s.find? place with _ | _ | _
    · simp [hfind, eq_comm]
    · simp [hfind, eq_comm]
    · simp [hfind]

/-- What is read where a path leads to something. -/
theorem read_of_entry_eq_some {s : Store} {path : RawText} {entry : Entry}
    (h : s.entry? path = some entry) :
    s.read path =
      match entry with
      | .file bytes => .ok bytes
      | .folder => .error (.file .isDirectory path) := by
  unfold entry? at h
  split at h
  · next place hresolve =>
    rw [read_of_resolve_eq_ok hresolve, h]
    cases entry <;> rfl
  · cases h

theorem exists?_of_read_eq_ok {s : Store} {path : RawText} {bytes : List UInt8}
    (h : s.read path = .ok bytes) : s.exists? path = true := by
  unfold exists? entry?
  rcases hresolve : s.resolve path with fault | place
  · rw [read, hresolve] at h
    cases h
  · rw [read_of_resolve_eq_ok hresolve] at h
    rcases hfind : s.find? place with _ | entry
    · simp [hfind] at h
    · simp only [hfind, Option.isSome_some]

/-- A file that has been written is read as the bytes that were written. -/
theorem read_of_write {s s' : Store} {path : RawText} {bytes : List UInt8}
    (h : s.write path bytes = .ok s') : s'.read path = .ok bytes := by
  obtain ⟨place, hresolve, hnot, rfl⟩ := write_eq_ok.1 h
  have hkept := keepsFolders_set hnot (.file bytes)
  rw [read_of_resolve_eq_ok (resolve_of_keepsFolders hkept hresolve), find?_set_self hnot]

/-! ## Flawed paths -/

/-- An operation that first finds the place of its path, and has faults of its own only about files,
refuses a path for a flaw exactly if the path has it. -/
theorem resolve_bind_eq_path {α : Type} {s : Store} {path : RawText} {flaw : PathFlaw}
    {operation : Place → Except AccessFault α}
    (h : ∀ place, operation place ≠ .error (.path flaw)) :
    (s.resolve path >>= operation) = .error (.path flaw) ↔ flaw? path = some flaw := by
  rcases resolve_cases s path with
    ⟨flaw', hflaw, hresolve⟩ | ⟨hflaw, ⟨place, hresolve⟩ | ⟨fault, hresolve⟩⟩
  · rw [hresolve, hflaw]
    simp [bind, Except.bind]
  · rw [hresolve, hflaw]
    simpa [bind, Except.bind] using h place
  · rw [hresolve, hflaw]
    simp [bind, Except.bind]

theorem read_eq_path {s : Store} {path : RawText} {flaw : PathFlaw} :
    s.read path = .error (.path flaw) ↔ flaw? path = some flaw := by
  refine resolve_bind_eq_path fun place => ?_
  split <;> simp [throw, throwThe, MonadExceptOf.throw, pure, Except.pure]

theorem write_eq_path {s : Store} {path : RawText} {bytes : List UInt8} {flaw : PathFlaw} :
    s.write path bytes = .error (.path flaw) ↔ flaw? path = some flaw := by
  refine resolve_bind_eq_path fun place => ?_
  split <;> simp [throw, throwThe, MonadExceptOf.throw, pure, Except.pure]

theorem makeFolder_eq_path {s : Store} {path : RawText} {flaw : PathFlaw} :
    s.makeFolder path = .error (.path flaw) ↔ flaw? path = some flaw := by
  refine resolve_bind_eq_path fun place => ?_
  split <;> simp [throw, throwThe, MonadExceptOf.throw, pure, Except.pure]

end Store

end NordLang
