import NordLang.Proofs.Layout.Canonical
import NordLang.Proofs.Layout.RoundTrip
import NordLang.Proofs.Layout.Source

/-!
# The layout as a normal form

Two programs are laid out alike exactly if they have the same tree up to locations
(`layout_eq_iff_same`).  One direction is that the layout does not depend on locations, the other
that it can be read again (`Tree.WellFormed.reread`).
-/

namespace NordLang

namespace Tree

/-- Trees with the same text are the same. -/
theorem same_of_textOf_eq {t u : Tree} (ht : t.WellFormed) (hu : u.WellFormed)
    (h : Piece.textOf t.written = Piece.textOf u.written) : t.same u = true := by
  have hblanks : ∀ c ∈ ([] : List Char), c ∈ blankChars := List.forall_mem_nil _
  obtain ⟨t', ht', hsame⟩ := ht.reread hblanks
  obtain ⟨u', hu', hsame'⟩ := hu.reread hblanks
  rw [h, hu'] at ht'
  cases ht'
  exact same_trans (same_symm hsame) hsame'

theorem layout_eq_of_same {t u : Tree} (ht : t.WellFormed) (hu : u.WellFormed)
    (h : t.same u = true) : t.layout = u.layout := by
  rw [ht.layout, hu.layout, (alike_of_same h ht hu).written]

end Tree

/-- Programs are laid out as the same text exactly if their trees are the same up to locations.  In
particular the layout of a program is its own layout when it is parsed again. -/
theorem layout_eq_iff_same {text text' : List Char} {t t' : Tree} (h : parseText text = .ok t)
    (h' : parseText text' = .ok t') :
    ∃ out out', t.layout = .ok (.text out) ∧ t'.layout = .ok (.text out') ∧
      (out = out' ↔ t.same t' = true) ∧
      ∃ u, parseText out.toList = .ok u ∧ u.layout = .ok (.text out) := by
  have ht := wellFormed_of_parse h
  have ht' := wellFormed_of_parse h'
  refine ⟨_, _, ht.layout, ht'.layout, ⟨fun heq => ?_, fun hsame => ?_⟩, ?_⟩
  · exact Tree.same_of_textOf_eq ht ht' (String.ofList_injective heq)
  · rw [(Tree.alike_of_same hsame ht ht').written]
  · obtain ⟨u, hu, hsame⟩ := ht.reread (List.forall_mem_nil _)
    rw [List.append_nil] at hu
    refine ⟨u, ?_, ?_⟩
    · rw [String.toList_ofList]
      exact hu
    · rw [Tree.layout_eq_of_same (wellFormed_of_parse hu) ht hsame, ht.layout]

/-- Two texts of one tree, with different blanks and parentheses. -/
theorem layout_eq_iff_same_subtractions :
    let name (w : String) (line column : Int) : Tree :=
      .constant ⟨line, column⟩ (.identifier (.text w))
    let t : Tree := .binary ⟨1, 6⟩ (name "a" 1 3) (some .sub)
      (.binary ⟨1, 11⟩ (name "b" 1 9) (some .sub) (name "c" 1 13))
    let t' : Tree := .binary ⟨1, 2⟩ (name "a" 1 1) (some .sub)
      (.binary ⟨2, 2⟩ (name "b" 2 1) (some .sub) (name "c" 2 3))
    parseText "((a) - (b - c))".toList = .ok t ∧ parseText "a-(\nb-c)".toList = .ok t' ∧
    ∃ out out', t.layout = .ok (.text out) ∧ t'.layout = .ok (.text out') ∧ out = out' ∧
      ∃ u, parseText out.toList = .ok u ∧ u.layout = .ok (.text out) := by
  intro name t t'
  have h : parseText "((a) - (b - c))".toList = .ok t := by with_unfolding_all rfl
  have h' : parseText "a-(\nb-c)".toList = .ok t' := by with_unfolding_all rfl
  obtain ⟨out, out', hout, hout', heq, hagain⟩ := layout_eq_iff_same h h'
  exact ⟨h, h', out, out', hout, hout', heq.2 (by decide), hagain⟩

end NordLang
