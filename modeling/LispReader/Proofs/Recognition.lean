import LispReader.Proofs.Run.Reading

/-!
# What the standard grammar accepts

A reading with the standard grammar accepts the documents, with the forms that
they spell, and nothing else. Since a reading has one result, no source spells two
documents: the notation is unambiguous, spans included.
-/

namespace LispReader

open Notation

namespace Notation

/-- A source spells its forms in one way only. -/
theorem Document.unique {settings : Settings} {s : Text} {fs gs : List Form}
    (h : Document settings s fs) (h' : Document settings s gs) : fs = gs := by
  have hg := Grammar.hasNotation_standard settings
  have := (hg.read_of_document h).symm.trans (hg.read_of_document h')
  exact Except.ok.inj (Option.some.inj this)

/-- No document meets an obstacle. -/
theorem Document.not_rejected {settings : Settings} {s : Text} {fs : List Form}
    (h : Document settings s fs) (ob : Obstacle) (o : Nat) : ¬ Rejected settings s ob o := by
  intro hrejected
  have hg := Grammar.hasNotation_standard settings
  exact absurd ((hg.read_of_document h).symm.trans (hg.read_of_rejected hrejected)) nofun

end Notation

namespace Grammar

/-- The reader accepts exactly the grammar of the notation, with all spans and so
with all contents; what a source derives is unique; and a source that derives
nothing gets a diagnostic. -/
theorem read_standard_iff_document (settings : Settings) (s : Text) :
    (∀ fs, (standard settings).read s = some (.ok fs) ↔ Document settings s fs) ∧
    (∀ fs, (∃ gs, (standard settings).read s = some (.ok gs) ∧
        Form.sameContents fs gs = true) ↔
      ∃ gs, Document settings s gs ∧ Form.sameContents fs gs = true) ∧
    (∀ fs gs, Document settings s fs → Document settings s gs → fs = gs) ∧
    ((∃ d, (standard settings).read s = some (.error d)) ↔ ∀ fs, ¬ Document settings s fs) := by
  have hg := hasNotation_standard settings
  have hiff : ∀ fs, (standard settings).read s = some (.ok fs) ↔ Document settings s fs :=
    fun fs => hg.read_eq_ok_iff
  refine ⟨hiff, ?_, ?_, ?_⟩
  · intro fs
    simp only [hiff]
  · intro fs gs hfs hgs
    exact hfs.unique hgs
  · constructor
    · rintro ⟨d, hd⟩ fs hfs
      exact absurd (hd.symm.trans ((hiff fs).mpr hfs)) nofun
    · intro hno
      rcases hg.exists_read s with ⟨fs, hfs⟩ | hd
      · exact absurd ((hiff fs).mp hfs) (hno fs)
      · exact hd

-- A comment is no part of the form in front of it.
example : (standard ⟨true, some 1⟩).read ['\x27', 'a', ';'] =
    some (.ok [quoted .quote 0 (.atom ['a'] ⟨1, 2⟩) 2]) := by
  rfl

end Grammar

end LispReader
