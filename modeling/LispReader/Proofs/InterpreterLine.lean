import LispReader.Proofs.Concatenation

/-!
# The interpreter line

A line that names an interpreter is skipped at the very beginning of a source, and has
no other effect. What follows the line is read as a source of its own, which has no such
line: its forms, or its diagnostic, are moved by the width of the line, and the position
of the diagnostic goes one line down. A source without the line is read as if it were not
allowed. Elsewhere the line is no line: what begins like it is an atom.
-/

namespace LispReader

open Alphabet Notation

namespace Position

/-- The same column one line further down. Behind the largest line, lines are not told apart. -/
def down (p : Position) : Position := ⟨min (p.line + 1) largest, p.column⟩

variable {t : Text}

theorem line_foldl_after (ht : '\n' ∉ t) (p : Position) : (t.foldl after p).line = p.line := by
  induction t generalizing p with
  | nil => rfl
  | cons c t ih =>
    simp only [List.mem_cons, not_or] at ht
    have hafter : (p.after c).line = p.line := by
      simp only [after, if_neg (Ne.symm ht.1)]
    simpa only [List.foldl_cons, hafter] using ih ht.2 (p.after c)

/-- Behind a line feed the columns begin anew. -/
theorem foldl_after_line (ht : '\n' ∉ t) (p : Position) :
    (t ++ ['\n']).foldl after p = ⟨p.line + 1, 1⟩ := by
  simp [after, line_foldl_after ht]

/-- Lines are counted on from wherever a text begins. -/
theorem advance_down (line column : Nat) (t : Text) (n : Nat) :
    advance ⟨line + 1, column⟩ t n =
      ⟨(advance ⟨line, column⟩ t n).line + 1, (advance ⟨line, column⟩ t n).column⟩ := by
  induction t generalizing line column n with
  | nil => rfl
  | cons c t ih =>
    simp only [advance]
    split
    · by_cases hc : c = '\n'
      · simpa only [after, if_pos hc] using ih (line + 1) 1 (n - c.utf8Size)
      · simpa only [after, if_neg hc] using ih line (column + 1) (n - c.utf8Size)
    · rfl

/-- A position behind a line is one line below the position that it has by itself. -/
theorem ofOffset_line (ht : '\n' ∉ t) (v : Text) (o : Nat) :
    ofOffset (t ++ ['\n'] ++ v) (Text.width (t ++ ['\n']) + o) = (ofOffset v o).down := by
  have hadvance := advance_append first (t ++ ['\n']) v o
  rw [foldl_after_line ht] at hadvance
  rw [ofOffset, hadvance.trans (advance_down 1 1 v o)]
  simp only [ofOffset, first, capped, down, Position.mk.injEq, and_true]
  omega

end Position

/-- A reading of what stands behind a line of so many bytes, as a reading of all. -/
def Reading.behindLine (k : Nat) :
    Except Diagnostic (List Form) → Except Diagnostic (List Form)
  | .ok fs => .ok (Form.shiftAll k fs)
  | .error d => .error ⟨d.cause, d.position.down, k + d.offset⟩

namespace Notation

/-! ## Sources behind an interpreter line -/

variable {settings : Settings} {line v x u : Text} {fs : List Form} {ob : Obstacle} {o : Nat}

/-- Forms at the beginning of a source follow an interpreter line as well. -/
theorem Front.behind_line (hline : InterpreterLine settings.allowShebang line (x ++ u))
    (h : Front { settings with allowShebang := false } x fs u) :
    Front settings (line ++ x) (Form.shiftAll (Text.width line) fs) u := by
  obtain ⟨none, y, rfl, hnone, hfs, hdepth⟩ := h
  obtain rfl := hnone.eq_nil
  have hmoved := hfs.shift (Text.width line)
  rw [Text.width_nil, Nat.zero_add] at hmoved
  rw [← Form.depths_shiftAll (Text.width line)] at hdepth
  exact ⟨line, y, rfl, hline, hmoved, hdepth⟩

theorem Document.behind_line (hline : InterpreterLine settings.allowShebang line v)
    (h : Document { settings with allowShebang := false } v fs) :
    Document settings (line ++ v) (Form.shiftAll (Text.width line) fs) := by
  refine front_nil_iff.mp (Front.behind_line ?_ (front_nil_iff.mpr h))
  simpa using hline

theorem Rejected.behind_line (hline : InterpreterLine settings.allowShebang line v)
    (h : Rejected { settings with allowShebang := false } v ob o) :
    Rejected settings (line ++ v) ob (Text.width line + o) := by
  obtain ⟨x, u, fs, rfl, hfront, hend⟩ := rejected_iff_front.mp h
  refine rejected_iff_front.mpr ⟨line ++ x, u, _, by simp, hfront.behind_line hline, ?_⟩
  rw [Text.width_append]
  rcases hend with hu | ⟨hu, hn, rfl, rfl⟩
  · left
    have hmoved := hu.shift (Text.width line)
    rwa [Nat.add_comm (Text.width x), Nat.add_comm o] at hmoved
  · exact Or.inr ⟨hu, hn, rfl, rfl⟩

theorem newline_notMem_shebang {t : Text} (ht : '\n' ∉ t) : '\n' ∉ shebang ++ t := by
  simp [shebang, ht]

/-- What begins like an interpreter line, but is none, begins with an atom. -/
theorem exists_spells_shebang (pos : Nat) (v : Text) :
    ∃ x y u, shebang ++ v = y ++ u ∧
      Spells pos y (.atom (shebang ++ x) ⟨pos, pos + Text.width y⟩) u := by
  obtain ⟨y, x, u, rfl, hy, hu⟩ := exists_constituents isReserved v
  have hatom : Constituents isReserved (shebang ++ y) (shebang ++ x) :=
    .plain (by decide) (by decide) (.plain (by decide) (by decide) hy)
  exact ⟨x, shebang ++ y, u, by simp, .atom hatom (by simp [shebang]) hu⟩

end Notation

namespace Grammar

variable {line t v : Text}

/-- Behind an interpreter line, forms are those of what follows the line. -/
theorem read_behind_line_of_ok (settings : Settings) {fs : List Form}
    (hline : InterpreterLine settings.allowShebang line v)
    (h : (standard { settings with allowShebang := false }).read v = some (.ok fs)) :
    (standard settings).read (line ++ v) = some (.ok (Form.shiftAll (Text.width line) fs)) := by
  have hg := hasNotation_standard { settings with allowShebang := false }
  have hdocument := Document.behind_line hline (hg.document_of_read h)
  exact (hasNotation_standard settings).read_of_document hdocument

theorem read_behind_line_of_error (settings : Settings) {d : Diagnostic}
    (hline : InterpreterLine settings.allowShebang line v)
    (h : (standard { settings with allowShebang := false }).read v = some (.error d)) :
    (standard settings).read (line ++ v) =
      some (.error (Fault.locate ⟨d.cause, Text.width line + d.offset⟩ (line ++ v))) := by
  have hg := hasNotation_standard { settings with allowShebang := false }
  obtain ⟨ob, o, hob, rfl⟩ := hg.rejected_of_read h
  exact (hasNotation_standard settings).read_of_rejected (Rejected.behind_line hline hob)

/-- Where the line ends with a line feed, positions go one line down. -/
theorem read_behind_newline (depth : Depth) (ht : '\n' ∉ t) (v : Text) :
    (standard ⟨true, depth⟩).read (Alphabet.shebang ++ t ++ ['\n'] ++ v) =
      ((standard ⟨false, depth⟩).read v).map
        (Reading.behindLine (Text.width (Alphabet.shebang ++ t ++ ['\n']))) := by
  have hline : InterpreterLine true (Alphabet.shebang ++ t ++ ['\n']) v := by
    simpa using InterpreterLine.line rfl ht
  rcases (hasNotation_standard ⟨false, depth⟩).exists_read v with ⟨fs, h⟩ | ⟨d, h⟩
  · have hread := read_behind_line_of_ok ⟨true, depth⟩ hline h
    simpa only [h, Option.map_some, Reading.behindLine] using hread
  · have hread := read_behind_line_of_error ⟨true, depth⟩ hline h
    obtain ⟨ob, o, -, rfl⟩ := (hasNotation_standard ⟨false, depth⟩).rejected_of_read h
    have hplace := Position.ofOffset_line (newline_notMem_shebang ht) v o
    simpa only [h, Option.map_some, Reading.behindLine, Fault.locate, hplace] using hread

/-- An atom is delivered first where a second interpreter line would begin. -/
theorem take_behind_newline (depth : Depth) (ht : '\n' ∉ t) (v : Text) :
    ∃ x stop, ((standard ⟨true, depth⟩).stream
        (Alphabet.shebang ++ t ++ ['\n'] ++ (Alphabet.shebang ++ v))).take 1 =
      some ([.ok (.atom (Alphabet.shebang ++ x)
        ⟨Text.width (Alphabet.shebang ++ t ++ ['\n']), stop⟩)], false) := by
  have hline : InterpreterLine true (Alphabet.shebang ++ t ++ ['\n']) (Alphabet.shebang ++ v) := by
    simpa using InterpreterLine.line rfl ht
  obtain ⟨x, y, u, hy, hatom⟩ :=
    exists_spells_shebang (Text.width (Alphabet.shebang ++ t ++ ['\n'])) v
  rw [hy] at hline ⊢
  have hr := (hasNotation_standard ⟨true, depth⟩).readsNotation
    (Alphabet.shebang ++ t ++ ['\n'] ++ (y ++ u))
  have hstart := hr.start_of_interpreterLine (k := []) rfl hline .nil (hatom.not_startsTrivia u)
  obtain ⟨k, w, e, -, -, -, -, hstep⟩ := hr.step_of_spells hatom
    (Source.suffix?_eq_some_iff.mpr ⟨_, rfl, rfl⟩)
    (Depth.admits_zero _) (Expectation.below_none _)
  rw [Text.width_nil, Nat.add_zero] at hstart
  exact ⟨x, _, FormStream.take_one hstart hstep⟩

/-- An interpreter line is transparent, and is one at the beginning of a source only. A source
that does not begin with it is read as if none were allowed. What follows its line feed is
read as by itself, but for the width of the line and the one line more. Without a line feed,
nothing follows. A second such line begins with an atom. -/
theorem read_interpreterLine (depth : Depth) :
    (∀ s, ¬ Alphabet.shebang <+: s →
      (standard ⟨true, depth⟩).read s = (standard ⟨false, depth⟩).read s) ∧
    (∀ t v, '\n' ∉ t →
      (standard ⟨true, depth⟩).read (Alphabet.shebang ++ t ++ ['\n'] ++ v) =
        ((standard ⟨false, depth⟩).read v).map
          (Reading.behindLine (Text.width (Alphabet.shebang ++ t ++ ['\n'])))) ∧
    (∀ t, '\n' ∉ t →
      (standard ⟨true, depth⟩).read (Alphabet.shebang ++ t) = some (.ok []) ∧
      (standard ⟨false, depth⟩).read [] = some (.ok [])) ∧
    ∀ t v, '\n' ∉ t → ∃ x stop,
      ((standard ⟨true, depth⟩).stream
          (Alphabet.shebang ++ t ++ ['\n'] ++ (Alphabet.shebang ++ v))).take 1 =
        some ([.ok (.atom (Alphabet.shebang ++ x)
          ⟨Text.width (Alphabet.shebang ++ t ++ ['\n']), stop⟩)], false) := by
  refine ⟨?_, ?_, ?_, ?_⟩
  · intro s hs
    have hline : InterpreterLine true [] s := .absent fun _ => hs
    rcases (hasNotation_standard ⟨false, depth⟩).exists_read s with ⟨fs, h⟩ | ⟨d, h⟩
    · have hread := read_behind_line_of_ok ⟨true, depth⟩ hline h
      simpa [h] using hread
    · have hread := read_behind_line_of_error ⟨true, depth⟩ hline h
      obtain ⟨ob, o, -, rfl⟩ := (hasNotation_standard ⟨false, depth⟩).rejected_of_read h
      simpa [h, Fault.locate] using hread
  · intro t v ht
    exact read_behind_newline depth ht v
  · intro t ht
    have hempty : (standard ⟨false, depth⟩).read [] = some (.ok []) :=
      (hasNotation_standard ⟨false, depth⟩).read_of_document
        ⟨[], [], rfl, .absent nofun, .nil .nil, Depth.admits_zero _⟩
    have hline : InterpreterLine true (Alphabet.shebang ++ t) [] := .lastLine rfl ht
    have hread := read_behind_line_of_ok ⟨true, depth⟩ hline hempty
    exact ⟨by simpa using hread, hempty⟩
  · intro t v ht
    exact take_behind_newline depth ht v

/-- A bracket that closes nothing, behind a second line that is none. -/
theorem read_interpreterLine_twice :
    (standard ⟨true, some 1⟩).read [' ', '#', '!'] =
      (standard ⟨false, some 1⟩).read [' ', '#', '!'] ∧
    (standard ⟨true, some 1⟩).read ['#', '!', ';', '\n', '#', '!', ')'] =
      some (.error ⟨(Obstacle.missing .source).cause, ⟨2, 3⟩, 6⟩) ∧
    (standard ⟨true, some 1⟩).read ['#', '!', ';'] = some (.ok []) ∧
    ∃ x stop, ((standard ⟨true, some 1⟩).stream ['#', '!', ';', '\n', '#', '!', ')']).take 1 =
      some ([.ok (.atom ('#' :: '!' :: x) ⟨4, stop⟩)], false) := by
  refine ⟨?_, ?_, ?_, ?_⟩
  · exact (read_interpreterLine (some 1)).1 _ (by decide)
  · exact (read_interpreterLine (some 1)).2.1 [';'] ['#', '!', ')'] (by decide)
  · exact ((read_interpreterLine (some 1)).2.2.1 [';'] (by decide)).1
  · exact (read_interpreterLine (some 1)).2.2.2 [';'] [')'] (by decide)

end Grammar

end LispReader
