import LispReader.Proofs.Locality
import LispReader.Proofs.RoundTrip

/-!
# Writing what was read

Reading makes forms that the writer can represent: its atoms are filled, also the
symbols for quote operators, and a quote form is as deep as the list that it is
written as. So a source that is read can be formatted without conditions on it.
What is written is a function of the contents alone, which makes formatting
idempotent.
-/

namespace LispReader

open Notation

/-! ## What the writer depends on -/

namespace Form

theorem pieces_congr {f g : Form} (h : f.datum = g.datum) (isFirst : Bool) :
    f.pieces isFirst = g.pieces isFirst := by
  rw [pieces, pieces, render, render, h]

theorem flatMap_pieces_congr {fs gs : List Form} (h : data fs = data gs) :
    fs.flatMap (pieces false) = gs.flatMap (pieces false) := by
  induction fs generalizing gs with
  | nil =>
    cases gs with
    | nil => rfl
    | cons g gs => exact absurd h nofun
  | cons f fs ih =>
    cases gs with
    | nil => exact absurd h nofun
    | cons g gs =>
      obtain ⟨hf, hfs⟩ := List.cons.inj h
      rw [List.flatMap_cons, List.flatMap_cons, pieces_congr hf, ih hfs]

/-- Forms with the same contents are written alike. -/
theorem writeAll_congr {fs gs : List Form} (h : data fs = data gs) : writeAll fs = writeAll gs := by
  cases fs with
  | nil =>
    cases gs with
    | nil => rfl
    | cons g gs => exact absurd h nofun
  | cons f fs =>
    cases gs with
    | nil => exact absurd h nofun
    | cons g gs =>
      obtain ⟨hf, hfs⟩ := List.cons.inj h
      rw [writeAll, writeAll, allPieces, allPieces, pieces_congr hf, flatMap_pieces_congr hfs]

/-- What is written of filled forms is a document with the same contents, with or without
trivia behind it. -/
theorem exists_document_writeAll_append {settings : Settings} {fs : List Form} {t : Text}
    (hfilled : Filled (preorders 0 fs)) (hdepth : settings.depth.Admits (depths fs))
    (ht : Trivia t []) (hline : ¬ Alphabet.shebang <+: writeAll fs ++ t) :
    ∃ gs, Document settings (writeAll fs ++ t) gs ∧ data gs = data fs := by
  obtain ⟨k, hwrite, hk⟩ := exists_margin fs
  obtain ⟨gs, hgs, hspells⟩ := exists_spellsAll_lines_append fs hfilled k t
  rw [← hgs.depths] at hdepth
  rw [hwrite, List.append_assoc] at hline ⊢
  have hfront : Front settings k [] (lines fs ++ t) :=
    ⟨[], k, rfl, .absent fun _ => hline, .nil (hk _), Depth.admits_zero _⟩
  have hlines : Front settings (k ++ lines fs) gs (t ++ []) := by
    simpa using hfront.append hspells hdepth
  have hall := hlines.append (.nil ht) (Depth.admits_zero _)
  refine ⟨gs, ?_, hgs.data⟩
  simpa using front_nil_iff.mp hall

theorem exists_document_writeAll {settings : Settings} {fs : List Form}
    (hfilled : Filled (preorders 0 fs)) (hdepth : settings.depth.Admits (depths fs)) :
    ∃ gs, Document settings (writeAll fs) gs ∧ data gs = data fs := by
  have hline : ¬ Alphabet.shebang <+: writeAll fs ++ [] := by
    simpa using not_shebang_prefix_writeAll fs
  simpa using exists_document_writeAll_append hfilled hdepth .nil hline

end Form

/-! ## What the reader makes -/

namespace Notation

variable {settings : Settings} {s : Text} {fs : List Form}

theorem Constituents.ne_nil {reserved : Char → Bool} {v x : Text}
    (h : Constituents reserved v x) (hv : v ≠ []) : x ≠ [] := by
  cases h with
  | nil => exact absurd rfl hv
  | plain _ _ _ => exact nofun
  | escaped _ _ => exact nofun

theorem toList_name_ne_nil (op : QuoteOperator) : op.name.toList ≠ [] := by
  cases op <;> decide

/-- No atom of a document is empty. -/
theorem Document.filled (h : Document settings s fs) : Form.Filled (Form.preorders 0 fs) := by
  rintro ⟨level, f⟩ hp span hf
  cases h.located hp with
  | symbol _ _ => exact toList_name_ne_nil _ (Form.atom.inj hf).1
  | spelled _ hspells =>
    dsimp only at hf
    subst hf
    cases hspells with
    | atom hx hv _ => exact hx.ne_nil hv rfl

end Notation

/-! ## Sources -/

namespace Grammar

/-- What is written of the forms of a source is read with the same settings, whatever they are,
as forms with the same contents, and these are written in the same way again. -/
theorem read_writeAll_of_read (settings : Settings) (s : Text) (fs : List Form)
    (h : (standard settings).read s = some (.ok fs)) :
    ∃ gs, (standard settings).read (Form.writeAll fs) = some (.ok gs) ∧
      Form.sameContents fs gs = true ∧ Form.writeAll gs = Form.writeAll fs := by
  have hg := hasNotation_standard settings
  have hdocument := hg.document_of_read h
  obtain ⟨-, -, -, -, -, hdepth⟩ := id hdocument
  obtain ⟨gs, hgs, hdata⟩ := Form.exists_document_writeAll hdocument.filled hdepth
  exact ⟨gs, hg.read_of_document hgs, (Form.sameContents_iff fs gs).mpr hdata.symm,
    Form.writeAll_congr hdata⟩

/-- The first atom begins like an interpreter line, and the quote form is as deep as allowed. -/
theorem read_writeAll_of_read_quote :
    (standard ⟨true, some 1⟩).read [' ', '#', '!', '\x27', ';', '\n', 'a'] =
        some (.ok [.atom ['#', '!'] ⟨1, 3⟩, quoted .quote 3 (.atom ['a'] ⟨6, 7⟩) 7]) ∧
    ∃ gs, (standard ⟨true, some 1⟩).read (Form.writeAll
          [.atom ['#', '!'] ⟨1, 3⟩, quoted .quote 3 (.atom ['a'] ⟨6, 7⟩) 7]) = some (.ok gs) ∧
      Form.sameContents
        [.atom ['#', '!'] ⟨1, 3⟩, quoted .quote 3 (.atom ['a'] ⟨6, 7⟩) 7] gs = true ∧
      Form.writeAll gs =
        Form.writeAll [.atom ['#', '!'] ⟨1, 3⟩, quoted .quote 3 (.atom ['a'] ⟨6, 7⟩) 7] :=
  ⟨rfl, read_writeAll_of_read ⟨true, some 1⟩ [' ', '#', '!', '\x27', ';', '\n', 'a'] _ rfl⟩

end Grammar

end LispReader
