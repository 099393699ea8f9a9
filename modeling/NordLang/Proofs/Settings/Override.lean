import NordLang.Proofs.Settings.Lookup

/-!
# Laying mappings over each other

What is found in a mapping after another one has been laid over it, at any depth.

* `at?` follows a path of keys through nested mappings.  `Blocks` says that the path meets something
  that is no mapping before its end.
* On one level, the value of a key is the one on top laid over the one below (`find?_override`), and
  the keys of the upper mapping that are new stand behind those of the lower one (`keys_override`).
* Along a path, `at?_layOver_of_some` and `at?_layOver_of_none` follow from this by induction on the
  path.
* Laying the same mapping over the result changes nothing (`override_override`).

A mapping has every key once.  `KeysDistinct` says so of a setting and all mappings that a path can
reach in it.
-/

namespace NordLang

namespace Entries

/-- No two keys of a list are the same. -/
def Distinct (keys : List Key) : Prop := keys.Pairwise fun key key' => key.same key' = false

instance (keys : List Key) : Decidable (Distinct keys) :=
  inferInstanceAs (Decidable (List.Pairwise _ keys))

/-! ## Single levels -/

@[simp] theorem keys_cons (entry : Key × Setting) (rest : Entries) :
    Entries.keys (entry :: rest) = entry.1 :: rest.keys := rfl

theorem find?_of_same {key key' : Key} (h : key.same key' = true) (entries : Entries) :
    entries.find? key = entries.find? key' := by
  induction entries with
  | nil => rfl
  | cons entry rest ih =>
    obtain ⟨k, v⟩ := entry
    have hk : k.same key = k.same key' := by
      rw [Bool.eq_iff_iff]
      exact ⟨fun hsame => Key.same_trans hsame h,
        fun hsame => Key.same_trans hsame (Key.same_symm h)⟩
    rw [find?, find?, hk, ih]

theorem isSome_find? (key : Key) (entries : Entries) :
    (entries.find? key).isSome = entries.keys.any (·.same key) := by
  induction entries with
  | nil => rfl
  | cons entry rest ih =>
    obtain ⟨k, v⟩ := entry
    cases hk : k.same key with
    | true => simp [find?, hk]
    | false => simpa [find?, hk] using ih

theorem find?_eq_none {key : Key} {entries : Entries}
    (h : ∀ k ∈ entries.keys, k.same key = false) : entries.find? key = none := by
  rw [← Option.isNone_iff_eq_none, ← Option.not_isSome, isSome_find?, Bool.not_eq_true',
    List.any_eq_false]
  intro k hk
  simp [h k hk]

theorem exists_mem_of_find? {key : Key} {entries : Entries} {value : Setting}
    (h : entries.find? key = some value) : ∃ entry ∈ entries, entry.2 = value := by
  induction entries with
  | nil => cases h
  | cons entry rest ih =>
    rw [find?] at h
    split at h
    · cases h
      exact ⟨entry, List.mem_cons_self, rfl⟩
    · obtain ⟨e, he, hvalue⟩ := ih h
      exact ⟨e, List.mem_cons_of_mem entry he, hvalue⟩

theorem keys_insert (key : Key) (value : Setting) (entries : Entries) :
    (entries.insert key value).keys =
      if entries.keys.any (·.same key) then entries.keys else entries.keys ++ [key] := by
  induction entries with
  | nil => rfl
  | cons entry rest ih =>
    obtain ⟨k, v⟩ := entry
    cases hk : k.same key with
    | true => simp [insert, hk]
    | false =>
      simp only [insert, keys_cons, hk, ih, List.any_cons, Bool.false_or, Bool.false_eq_true,
        if_false]
      split <;> rfl

/-- Entries are determined by their keys and the values found for them. -/
theorem ext_of_distinct {as bs : Entries} (hdistinct : Distinct as.keys) (hkeys : as.keys = bs.keys)
    (h : ∀ key ∈ as.keys, as.find? key = bs.find? key) : as = bs := by
  induction as generalizing bs with
  | nil =>
    cases bs with
    | nil => rfl
    | cons b bs => cases hkeys
  | cons a as ih =>
    obtain ⟨k, v⟩ := a
    cases bs with
    | nil => cases hkeys
    | cons b bs =>
      obtain ⟨k', v'⟩ := b
      obtain ⟨rfl, hrest⟩ := List.cons.inj hkeys
      obtain ⟨hk, hdistinct⟩ := List.pairwise_cons.1 hdistinct
      have hv : v = v' := by
        have hhead := h k List.mem_cons_self
        simpa [find?] using hhead
      have htail : as = bs := by
        refine ih hdistinct hrest fun key hkey => ?_
        have hmem := h key (List.mem_cons_of_mem k hkey)
        simpa [find?, hk key hkey] using hmem
      rw [hv, htail]

end Entries

namespace Setting

open Entries

def isMapping : Setting → Bool
  | mapping _ => true
  | _ => false

/-- Unless both are mappings, the setting on top wins. -/
theorem layOver_of_clash {old : Option Setting} {new : Setting}
    (h : ∀ b o, ¬ (old = some (mapping b) ∧ new = mapping o)) : layOver old new = new := by
  cases new with
  | mapping o =>
    rcases old with _ | value | value | items | b
    · simp [layOver]
    · simp [layOver]
    · simp [layOver]
    · simp [layOver]
    · exact absurd ⟨rfl, rfl⟩ (h b o)
  | _ => simp [layOver]

/-- What a key stands for once a mapping has been laid over another one. -/
theorem find?_override {upper : Entries} (hupper : Distinct upper.keys) (base : Entries)
    (key : Key) :
    Entries.find? key (override base upper) =
      match upper.find? key with
      | none => base.find? key
      | some value => some (layOver (base.find? key) value) := by
  induction upper generalizing base with
  | nil => rw [override, Entries.find?]
  | cons entry rest ih =>
    obtain ⟨k, v⟩ := entry
    obtain ⟨hk, hrest⟩ := List.pairwise_cons.1 hupper
    rw [override, ih hrest]
    cases hsame : k.same key with
    | true =>
      -- The key is not met again behind this entry.
      have hnone : Entries.find? key rest = none := by
        rw [← find?_of_same hsame]
        refine find?_eq_none fun k' hk' => ?_
        rw [Bool.eq_false_iff]
        intro h
        have hdiffer : k.same k' = false := hk k' hk'
        rw [Key.same_symm h] at hdiffer
        cases hdiffer
      rw [hnone, Entries.find?, if_pos hsame]
      simp only [← find?_of_same hsame, find?_insert_self]
    | false =>
      simp only [Entries.find?, hsame, find?_insert_of_not_same hsame]
      rfl

/-- The keys below in their order, and behind them the new ones on top in their order. -/
theorem keys_override {upper : Entries} (hupper : Distinct upper.keys) (base : Entries) :
    Entries.keys (override base upper) =
      base.keys ++ upper.keys.filter fun key => !base.keys.any (·.same key) := by
  induction upper generalizing base with
  | nil =>
    rw [override]
    exact (List.append_nil _).symm
  | cons entry rest ih =>
    obtain ⟨k, v⟩ := entry
    obtain ⟨hk, hrest⟩ := List.pairwise_cons.1 hupper
    rw [override, ih hrest, keys_insert]
    cases hmem : base.keys.any (·.same k) with
    | true => simp [hmem]
    | false =>
      have hnew : ((Entries.keys rest).filter fun key => !(base.keys ++ [k]).any (·.same key)) =
          (Entries.keys rest).filter fun key => !base.keys.any (·.same key) :=
        List.filter_congr fun key hkey => by simp [hk key hkey]
      simp only [Bool.false_eq_true, if_false, hnew]
      simp [hmem]

theorem distinct_keys_override {base upper : Entries} (hbase : Distinct base.keys)
    (hupper : Distinct upper.keys) : Distinct (Entries.keys (override base upper)) := by
  rw [keys_override hupper]
  refine List.pairwise_append.2 ⟨hbase, hupper.filter _, fun key hkey key' hkey' => ?_⟩
  have hnew := (List.mem_filter.1 hkey').2
  rw [Bool.not_eq_true', List.any_eq_false] at hnew
  simpa using hnew key hkey

/-- Entries that are laid over others twice may be laid over them once, if this holds of the
values. -/
theorem override_again {base upper : Entries} (hbase : Distinct base.keys)
    (hupper : Distinct upper.keys)
    (hvalues : ∀ key value, upper.find? key = some value →
      layOver (some (layOver (base.find? key) value)) value = layOver (base.find? key) value) :
    override (override base upper) upper = override base upper := by
  have hkeys : Entries.keys (override (override base upper) upper) =
      Entries.keys (override base upper) := by
    -- All keys on top are there already.
    rw [keys_override hupper, List.append_right_eq_self, List.filter_eq_nil_iff]
    intro key hkey
    have hsome : (upper.find? key).isSome = true := by
      rw [isSome_find?, List.any_eq_true]
      exact ⟨key, hkey, Key.same_self key⟩
    obtain ⟨value, hvalue⟩ := Option.isSome_iff_exists.1 hsome
    rw [← isSome_find?, find?_override hupper, hvalue]
    simp
  refine ext_of_distinct ?_ hkeys fun key _ => ?_
  · rw [hkeys]
    exact distinct_keys_override hbase hupper
  · rw [find?_override hupper, find?_override hupper]
    cases hvalue : upper.find? key with
    | none => rfl
    | some value => exact congrArg some (hvalues key value hvalue)

theorem nil_override {upper : Entries} (hupper : Distinct upper.keys) :
    override [] upper = upper := by
  have hkeys : Entries.keys (override [] upper) = upper.keys := by
    rw [keys_override hupper]
    simp [Entries.keys]
  refine ext_of_distinct (hkeys ▸ hupper) hkeys fun key _ => ?_
  rw [find?_override hupper]
  cases upper.find? key with
  | none => rfl
  | some value => exact congrArg some (layOver_of_clash fun b o h => nomatch h.1)

/-! ## Nested mappings -/

/-- The keys of a setting are distinct if it is a mapping, and so are those of its values. -/
inductive KeysDistinct : Setting → Prop where
  | scalar (value : Scalar) : KeysDistinct (scalar value)
  | other (value : OtherValue) : KeysDistinct (other value)
  | list (items : List Setting) : KeysDistinct (list items)
  | mapping {entries : Entries} (hkeys : Distinct entries.keys)
      (hvalues : ∀ entry ∈ entries, KeysDistinct entry.2) : KeysDistinct (mapping entries)

theorem KeysDistinct.find? {entries : Entries} (h : KeysDistinct (.mapping entries)) {key : Key}
    {value : Setting} (hfind : entries.find? key = some value) : value.KeysDistinct := by
  cases h with
  | mapping _ hvalues =>
    obtain ⟨entry, hentry, rfl⟩ := exists_mem_of_find? hfind
    exact hvalues entry hentry

theorem KeysDistinct.keys {entries : Entries} (h : KeysDistinct (.mapping entries)) :
    Distinct entries.keys := by
  cases h with
  | mapping hkeys _ => exact hkeys

/-- The entries of a mapping; what is no mapping has none. -/
def entriesBelow : Option Setting → Entries
  | some (mapping entries) => entries
  | _ => []

/-- A mapping is laid over the entries that are there. -/
theorem layOver_mapping {entries : Entries} (h : Distinct entries.keys) (old : Option Setting) :
    layOver old (mapping entries) = mapping (override (entriesBelow old) entries) := by
  rcases old with _ | value | value | items | base
  all_goals simp [layOver, entriesBelow, nil_override h]

/-- Laying a setting over what it has been laid over before changes nothing. -/
theorem layOver_layOver {new : Setting} (hnew : new.KeysDistinct) {old : Option Setting}
    (hold : ∀ value, old = some value → value.KeysDistinct) :
    layOver (some (layOver old new)) new = layOver old new := by
  induction hnew generalizing old with
  | scalar value => simp [layOver]
  | other value => simp [layOver]
  | list items => simp [layOver]
  | @mapping upper hkeys _ ih =>
    have hbase : KeysDistinct (.mapping (entriesBelow old)) := by
      rcases old with _ | value | value | items | base
      · exact .mapping .nil nofun
      · exact .mapping .nil nofun
      · exact .mapping .nil nofun
      · exact .mapping .nil nofun
      · exact hold _ rfl
    rw [layOver_mapping hkeys, layOver_mapping hkeys]
    refine congrArg Setting.mapping (override_again hbase.keys hkeys fun key value hvalue => ?_)
    obtain ⟨entry, hentry, rfl⟩ := exists_mem_of_find? hvalue
    exact ih entry hentry fun u hu => hbase.find? hu

/-- Laying the same mapping over the result of laying it over another one changes nothing. -/
theorem override_override {base upper : Entries} (hbase : KeysDistinct (.mapping base))
    (hupper : KeysDistinct (.mapping upper)) :
    override (override base upper) upper = override base upper := by
  have hbelow : ∀ value, some (Setting.mapping base) = some value → value.KeysDistinct := by
    rintro value ⟨⟩
    exact hbase
  have htwice := layOver_layOver hupper hbelow
  simpa only [layOver_mapping hupper.keys, entriesBelow, Setting.mapping.injEq] using htwice

/-! ## Paths -/

/-- The value that a path of keys leads to through nested mappings. -/
def at? : List Key → Setting → Option Setting
  | [], value => some value
  | key :: path, mapping entries => (Entries.find? key entries).bind (at? path)
  | _ :: _, _ => none

/-- A path meets something that is no mapping before its end. -/
def Blocks (value : Setting) (path : List Key) : Prop :=
  ∃ front rest met, path = front ++ rest ∧ rest ≠ [] ∧ value.at? front = some met ∧
    met.isMapping = false

theorem blocks_of_not_mapping {value : Setting} (h : value.isMapping = false) (key : Key)
    (path : List Key) : value.Blocks (key :: path) :=
  ⟨[], key :: path, value, rfl, nofun, rfl, h⟩

theorem blocks_mapping_cons {entries : Entries} {key : Key} {path : List Key} :
    (mapping entries).Blocks (key :: path) ↔
      ∃ value, entries.find? key = some value ∧ value.Blocks path := by
  constructor
  · rintro ⟨front, rest, met, hpath, hrest, hmet, hno⟩
    cases front with
    | nil =>
      cases hmet
      cases hno
    | cons first front =>
      obtain ⟨rfl, rfl⟩ := List.cons.inj hpath
      obtain ⟨value, hvalue, hfront⟩ := Option.bind_eq_some_iff.1 hmet
      exact ⟨value, hvalue, front, rest, met, rfl, hrest, hfront, hno⟩
  · rintro ⟨value, hvalue, front, rest, met, rfl, hrest, hmet, hno⟩
    have hfront : (mapping entries).at? (key :: front) = some met :=
      Option.bind_eq_some_iff.2 ⟨value, hvalue, hmet⟩
    exact ⟨key :: front, rest, met, rfl, hrest, hfront, hno⟩

theorem KeysDistinct.at? {value : Setting} (h : value.KeysDistinct) {path : List Key}
    {met : Setting} (hmet : value.at? path = some met) : met.KeysDistinct := by
  induction path generalizing value with
  | nil =>
    cases hmet
    exact h
  | cons key path ih =>
    cases value with
    | mapping entries =>
      obtain ⟨next, hnext, hmet⟩ := Option.bind_eq_some_iff.1 hmet
      exact ih (h.find? hnext) hmet
    | _ => cases hmet

/-- The first step of a path goes to what is below a key. -/
theorem bind_at?_cons (old : Option Setting) (key : Key) (path : List Key) :
    old.bind (at? (key :: path)) = ((entriesBelow old).find? key).bind (at? path) := by
  rcases old with _ | value | value | items | base
  all_goals rfl

/-- Where there is a value on top, it is laid over the one below. -/
theorem at?_layOver_of_some {new value : Setting} (hnew : new.KeysDistinct) (old : Option Setting)
    {path : List Key} (h : new.at? path = some value) :
    (layOver old new).at? path = some (layOver (old.bind (at? path)) value) := by
  induction path generalizing old new with
  | nil =>
    cases h
    cases old <;> rfl
  | cons key path ih =>
    cases new with
    | mapping entries =>
      obtain ⟨next, hnext, hvalue⟩ := Option.bind_eq_some_iff.1 h
      rw [layOver_mapping hnew.keys, bind_at?_cons, at?, find?_override hnew.keys, hnext]
      exact ih (hnew.find? hnext) _ hvalue
    | _ => cases h

/-- Where there is nothing on top, the value below is found, unless something is in the way. -/
theorem at?_layOver_of_none {new : Setting} (hnew : new.KeysDistinct) (old : Option Setting)
    {path : List Key} (h : new.at? path = none) :
    (new.Blocks path → (layOver old new).at? path = none) ∧
    (¬ new.Blocks path → (layOver old new).at? path = old.bind (at? path)) := by
  induction path generalizing old new with
  | nil => cases h
  | cons key path ih =>
    cases hmapping : new.isMapping with
    | false =>
      have hclash : ∀ b o, ¬ (old = some (mapping b) ∧ new = mapping o) := by
        rintro b o ⟨_, rfl⟩
        cases hmapping
      rw [layOver_of_clash hclash, h]
      exact ⟨fun _ => rfl, fun hfree => absurd (blocks_of_not_mapping hmapping key path) hfree⟩
    | true =>
      cases new with
      | mapping entries =>
        rw [layOver_mapping hnew.keys, bind_at?_cons, at?, find?_override hnew.keys,
          blocks_mapping_cons]
        rw [at?] at h
        cases hnext : Entries.find? key entries with
        | none => simp
        | some next =>
          rw [hnext] at h
          simpa using ih (hnew.find? hnext) _ h
      | _ => cases hmapping

/-! ## The whole -/

/-- Laying a mapping over another one overrides its leaves.  A value on top is found at its path,
and where there are mappings on both sides they are merged.  Where there is nothing on top, the value
below is found, unless the path meets something on top that is no mapping.  The keys of merged
mappings keep their order, those below before the new ones, and a second time nothing changes. -/
theorem override_leafwise {base upper : Entries} (hbase : KeysDistinct (.mapping base))
    (hupper : KeysDistinct (.mapping upper)) :
    let below := mapping base
    let top := mapping upper
    let merged := mapping (override base upper)
    (∀ path value, top.at? path = some value →
      (∀ b o : Entries, below.at? path = some (mapping b) → value = mapping o →
        merged.at? path = some (mapping (override b o))) ∧
      ((∀ b o, ¬ (below.at? path = some (mapping b) ∧ value = mapping o)) →
        merged.at? path = some value)) ∧
    (∀ path, top.at? path = none →
      (top.Blocks path → merged.at? path = none) ∧
      (¬ top.Blocks path → merged.at? path = below.at? path)) ∧
    (∀ path, ∀ b o : Entries, below.at? path = some (mapping b) → top.at? path = some (mapping o) →
      ∃ m : Entries, merged.at? path = some (mapping m) ∧
        m.keys = b.keys ++ o.keys.filter (fun key => !b.keys.any (·.same key)) ∧
        Distinct m.keys) ∧
    override (override base upper) upper = override base upper := by
  intro below top merged
  have hmerged : merged = layOver (some below) top :=
    (layOver_mapping hupper.keys (some below)).symm
  have hsome : ∀ path value, top.at? path = some value →
      merged.at? path = some (layOver (below.at? path) value) := by
    intro path value h
    rw [hmerged, at?_layOver_of_some hupper _ h]
    rfl
  have hboth : ∀ path, ∀ b o : Entries, below.at? path = some (mapping b) →
      top.at? path = some (mapping o) → merged.at? path = some (mapping (override b o)) := by
    intro path b o hb ho
    rw [hsome path _ ho, hb, layOver_mapping (hupper.at? ho).keys]
    rfl
  refine ⟨fun path value h => ⟨?_, ?_⟩, fun path h => ?_, fun path b o hb ho => ?_,
    override_override hbase hupper⟩
  · rintro b o hb rfl
    exact hboth path b o hb h
  · intro hclash
    rw [hsome path value h, layOver_of_clash hclash]
  · rw [hmerged]
    exact at?_layOver_of_none hupper (some below) h
  · refine ⟨_, hboth path b o hb ho, keys_override (hupper.at? ho).keys b, ?_⟩
    exact distinct_keys_override (hbase.at? hb).keys (hupper.at? ho).keys

/-- Settings with a mapping where a value stood, a value where a mapping stood, and a new key. -/
theorem override_leafwise_defaults :
    let cli : Entries := [(.text "indent", scalar (.int 4)), (.text "silent", mapping [])]
    let upper : Entries := [(.text "cli", mapping cli), (.text "files", scalar .null)]
    let merged := mapping (override Settings.defaults upper)
    KeysDistinct (mapping Settings.defaults) ∧ KeysDistinct (mapping upper) ∧
    merged.at? [.text "cli", .text "silent"] = some (mapping []) ∧
    merged.at? [.text "cli", .text "json_indent"] = some (scalar (.int 2)) ∧
    merged.at? [.text "files", .text "extension"] = none ∧
    (∃ m : Entries, merged.at? [.text "cli"] = some (mapping m) ∧
      m.keys = [.text "silent", .text "json_indent", .text "indent"]) ∧
    override (override Settings.defaults upper) upper = override Settings.defaults upper := by
  intro cli upper merged
  have hdefaults : KeysDistinct (mapping Settings.defaults) := by
    refine .mapping (by decide) ?_
    simp only [Settings.defaults, List.forall_mem_cons]
    refine ⟨.mapping (by decide) ?_, .mapping (by decide) ?_, nofun⟩
    · simp [KeysDistinct.scalar]
    · simp [KeysDistinct.scalar]
  have hupper : KeysDistinct (mapping upper) := by
    refine .mapping (by decide) ?_
    simp only [upper, List.forall_mem_cons]
    refine ⟨.mapping (by decide) ?_, .scalar _, nofun⟩
    simp only [cli, List.forall_mem_cons]
    exact ⟨.scalar _, .mapping .nil nofun, nofun⟩
  obtain ⟨hsome, hnone, hkeys, hagain⟩ := override_leafwise hdefaults hupper
  refine ⟨hdefaults, hupper, (hsome _ _ rfl).2 ?_, (hnone _ rfl).2 ?_, (hnone _ rfl).1 ?_, ?_,
    hagain⟩
  · rintro b o ⟨hb, _⟩
    cases hb
  · intro hblocks
    obtain ⟨value, hvalue, hrest⟩ := blocks_mapping_cons.1 hblocks
    cases hvalue
    obtain ⟨next, hnext, _⟩ := blocks_mapping_cons.1 hrest
    cases hnext
  · exact ⟨[.text "files"], [.text "extension"], _, rfl, nofun, rfl, rfl⟩
  · obtain ⟨m, hm, hmkeys, _⟩ := hkeys [.text "cli"] _ _ rfl rfl
    exact ⟨m, hm, hmkeys⟩

end Setting

end NordLang
