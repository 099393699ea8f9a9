import NordLang.Proofs.Tree.Same
import NordLang.Settings

/-!
# Looking up settings

What an insertion into the entries of a mapping does to look-ups: the value of its key is found, and
those of all other keys are as before.
-/

namespace NordLang

namespace Key

@[simp] theorem same_self (key : Key) : key.same key = true := by
  cases key with
  | scalar value => exact Scalar.same_self value
  | other value => exact beq_self_eq_true value

theorem same_symm {a b : Key} (h : a.same b = true) : b.same a = true := by
  cases a with
  | scalar a =>
    cases b with
    | scalar b => exact Scalar.same_symm h
    | other b => cases h
  | other a =>
    cases b with
    | scalar b => cases h
    | other b => exact BEq.symm h

theorem same_trans {a b c : Key} (hab : a.same b = true) (hbc : b.same c = true) :
    a.same c = true := by
  cases a with
  | scalar a =>
    cases b with
    | scalar b =>
      cases c with
      | scalar c => exact Scalar.same_trans hab hbc
      | other c => cases hbc
    | other b => cases hab
  | other a =>
    cases b with
    | scalar b => cases hab
    | other b =>
      cases c with
      | scalar c => cases hbc
      | other c => exact BEq.trans hab hbc

theorem same_text {name name' : String} : (text name).same (text name') = (name == name') := by
  have hscalar : (text name).same (text name') = (Scalar.text name == Scalar.text name') := rfl
  rw [hscalar, Bool.eq_iff_iff]
  simp

end Key

namespace Entries

@[simp] theorem find?_insert_self (key : Key) (value : Setting) (entries : Entries) :
    (entries.insert key value).find? key = some value := by
  induction entries with
  | nil => simp [insert, find?]
  | cons entry rest ih =>
    obtain ⟨k, v⟩ := entry
    rcases hk : k.same key with _ | _
    · simp [insert, find?, hk, ih]
    · simp [insert, find?, hk]

theorem find?_insert_of_not_same {key key' : Key} (h : key.same key' = false) (value : Setting)
    (entries : Entries) : (entries.insert key value).find? key' = entries.find? key' := by
  induction entries with
  | nil => simp [insert, find?, h]
  | cons entry rest ih =>
    obtain ⟨k, v⟩ := entry
    rcases hk : k.same key with _ | _
    · simp [insert, find?, hk, ih]
    · have hk' : k.same key' = false := by
        rcases hsame : k.same key' with _ | _
        · rfl
        · rw [Key.same_trans (Key.same_symm hk) hsame] at h
          cases h
      simp [insert, find?, hk, hk']

end Entries

theorem Setting.member_insert_self (name : String) (value : Setting) (entries : Entries) :
    (mapping (entries.insert (.text name) value)).member name = .ok value := by
  rw [member, Entries.find?_insert_self]

theorem Setting.member_insert_of_ne {name name' : String} (h : name ≠ name') (value : Setting)
    (entries : Entries) :
    (mapping (entries.insert (.text name) value)).member name' =
      (mapping entries).member name' := by
  have hsame : (Key.text name).same (.text name') = false := by
    rw [Key.same_text]
    simpa using h
  rw [member, Entries.find?_insert_of_not_same hsame, member]

end NordLang
