import Mathlib.Data.List.Induction
import LispReader.Position
import LispReader.Proofs.Offset

/-!
# Lines, columns and offsets

The position of a character boundary tells the boundary. So many lines, each with its line feed,
and so many characters of the line behind them are the bytes in front of it. No two boundaries of
a text have the same position, and positions come in the order of their boundaries. Every other
offset has the position of the last boundary in front of it.

Lines and columns are not told apart behind the largest one. A text that is too short to have so
many of them is not affected, and nothing is claimed of others.
-/

namespace LispReader

namespace Text

/-- The lines of a text, each with its line feed. The last one has none, and may be empty. -/
def lines : Text → List Text
  | [] => [[]]
  | c :: t => if c = '\n' then [c] :: lines t else (lines t).modifyHead (List.cons c)

example : lines ['a', '\n', '\n', 'b', '\n'] = [['a', '\n'], ['\n'], ['b', '\n'], []] := by decide

/-- A line in front of the last one. -/
def IsFullLine (line : Text) : Prop := ∃ row, '\n' ∉ row ∧ line = row ++ ['\n']

variable {row t : Text} {full : List Text}

/-- What stands in front of the first line feed belongs to the first line. -/
theorem lines_append (hrow : '\n' ∉ row) (t : Text) :
    lines (row ++ t) = (lines t).modifyHead (row ++ ·) := by
  induction row with
  | nil =>
    rw [List.nil_append]
    cases lines t <;> rfl
  | cons c row ih =>
    rw [List.mem_cons, not_or] at hrow
    rw [List.cons_append, lines, if_neg (Ne.symm hrow.1), ih hrow.2]
    cases lines t <;> rfl

theorem lines_full_append (hfull : ∀ line ∈ full, IsFullLine line) (t : Text) :
    lines (full.flatten ++ t) = full ++ lines t := by
  induction full with
  | nil => rfl
  | cons line full ih =>
    obtain ⟨⟨row, hrow, rfl⟩, hrest⟩ := List.forall_mem_cons.mp hfull
    have hfirst : lines ('\n' :: (full.flatten ++ t)) = ['\n'] :: (full ++ lines t) := by
      rw [lines, if_pos rfl, ih hrest]
    rw [List.flatten_cons, List.append_assoc, List.append_assoc, lines_append hrow,
      List.singleton_append, hfirst]
    rfl

theorem lines_ne_nil (t : Text) : lines t ≠ [] := by
  cases t with
  | nil => exact nofun
  | cons c t =>
    rw [lines]
    split
    · exact nofun
    · cases h : lines t with
      | nil => exact absurd h (lines_ne_nil t)
      | cons line rest => exact nofun

theorem length_le_width (t : Text) : t.length ≤ width t := by
  induction t with
  | nil => exact Nat.le_refl 0
  | cons c t ih =>
    have hc := c.utf8Size_pos
    rw [List.length_cons, width_cons]
    omega

end Text

namespace Position

open Text (lines IsFullLine)

/-! ## The order of positions -/

/-- On a line above, or on the same line further to the left. -/
def Before (p q : Position) : Prop := p.line < q.line ∨ p.line = q.line ∧ p.column < q.column

variable {p q r : Position} {t u w : Text} {o o' : Nat}

theorem Before.trans (hpq : p.Before q) (hqr : q.Before r) : p.Before r := by
  rcases hpq with hpq | ⟨hpq, hpq'⟩ <;> rcases hqr with hqr | ⟨hqr, hqr'⟩
  · exact Or.inl (Nat.lt_trans hpq hqr)
  · exact Or.inl (hqr ▸ hpq)
  · exact Or.inl (hpq ▸ hqr)
  · exact Or.inr ⟨hpq.trans hqr, Nat.lt_trans hpq' hqr'⟩

theorem Before.ne (h : p.Before q) : p ≠ q := by
  rintro rfl
  rcases h with h | ⟨-, h⟩
  · exact Nat.lt_irrefl _ h
  · exact Nat.lt_irrefl _ h

/-- Every character moves the position on. -/
theorem before_after (p : Position) (c : Char) : p.Before (p.after c) := by
  rw [after]
  split
  · exact Or.inl (Nat.lt_succ_self _)
  · exact Or.inr ⟨rfl, Nat.lt_succ_self _⟩

theorem before_foldl_after (p : Position) (ht : t ≠ []) : p.Before (t.foldl after p) := by
  induction t generalizing p with
  | nil => exact absurd rfl ht
  | cons c t ih =>
    rw [List.foldl_cons]
    by_cases hnil : t = []
    · subst hnil
      exact p.before_after c
    · exact (p.before_after c).trans (ih (p.after c) hnil)

/-! ## Positions by lines and columns -/

/-- The place behind a text counts its lines, and the characters behind the last line feed. -/
theorem exists_lines (t : Text) :
    ∃ (full : List Text) (row : Text), t = full.flatten ++ row ∧
      (∀ line ∈ full, IsFullLine line) ∧ '\n' ∉ row ∧ full.length + row.length ≤ t.length ∧
      t.foldl after first = ⟨full.length + 1, row.length + 1⟩ := by
  induction t using List.reverseRecOn with
  | nil => exact ⟨[], [], rfl, List.forall_mem_nil _, List.not_mem_nil, Nat.le_refl 0, rfl⟩
  | append_singleton t c ih =>
    obtain ⟨full, row, rfl, hfull, hrow, hlength, hplace⟩ := ih
    simp only [List.length_append, List.length_singleton] at hlength ⊢
    rw [List.foldl_append, hplace, List.foldl_cons, List.foldl_nil, after]
    by_cases hc : c = '\n'
    · subst hc
      refine ⟨full ++ [row ++ ['\n']], [], by simp, ?_, List.not_mem_nil, ?_, by simp⟩
      · intro line hline
        rcases List.mem_append.mp hline with hline | hline
        · exact hfull line hline
        · exact ⟨row, hrow, List.mem_singleton.mp hline⟩
      · simp only [List.length_append, List.length_singleton, List.length_nil]
        omega
    · refine ⟨full, row ++ [c], by simp, hfull, ?_, ?_, ?_⟩
      · intro hmem
        rcases List.mem_append.mp hmem with hmem | hmem
        · exact hrow hmem
        · exact hc (List.mem_singleton.mp hmem).symm
      · rw [List.length_append, List.length_singleton]
        omega
      · rw [if_neg hc, List.length_append, List.length_singleton]

/-! ## Offsets -/

/-- An offset counts as the last boundary that is not behind it. -/
theorem exists_advance (p : Position) (t : Text) (n : Nat) :
    ∃ u w, t = u ++ w ∧ Text.width u ≤ n ∧ advance p t n = u.foldl after p ∧
      ∀ u' w', t = u' ++ w' → Text.width u' ≤ n → Text.width u' ≤ Text.width u := by
  induction t generalizing p n with
  | nil =>
    refine ⟨[], [], rfl, Nat.zero_le n, rfl, ?_⟩
    rintro u' w' h -
    exact Nat.le_of_eq (congrArg Text.width (List.append_eq_nil_iff.mp h.symm).1)
  | cons c t ih =>
    rw [advance]
    by_cases hc : c.utf8Size ≤ n
    · rw [if_pos hc]
      obtain ⟨u, w, rfl, hu, hadvance, hlast⟩ := ih (p.after c) (n - c.utf8Size)
      refine ⟨c :: u, w, rfl, ?_, hadvance, ?_⟩
      · rw [Text.width_cons]
        omega
      · intro u' w' h hu'
        cases u' with
        | nil => exact Nat.zero_le _
        | cons c' u' =>
          obtain ⟨rfl, hrest⟩ := List.cons.inj h
          rw [Text.width_cons] at hu'
          have hle := hlast u' w' hrest (by omega)
          rw [Text.width_cons, Text.width_cons]
          omega
    · rw [if_neg hc]
      refine ⟨[], c :: t, rfl, Nat.zero_le n, rfl, ?_⟩
      intro u' w' h hu'
      cases u' with
      | nil => exact Nat.le_refl 0
      | cons c' u' =>
        obtain ⟨rfl, -⟩ := List.cons.inj h
        rw [Text.width_cons] at hu'
        omega

/-- Short texts have no line or column that is cut off. -/
theorem capped_foldl_after (h : t.length < largest) :
    (t.foldl after first).capped = t.foldl after first := by
  obtain ⟨full, row, -, -, -, hlength, hplace⟩ := exists_lines t
  have hline : full.length + 1 ≤ largest := by omega
  have hcolumn : row.length + 1 ≤ largest := by omega
  simp only [hplace, capped, Nat.min_eq_left hline, Nat.min_eq_left hcolumn]

theorem ofOffset_of_append (h : Text.width t < largest) (ht : t = u ++ w) :
    ofOffset t (Text.width u) = u.foldl after first := by
  subst ht
  have hlength := Text.length_le_width u
  rw [Text.width_append] at h
  rw [ofOffset_width_append, capped_foldl_after (by omega)]

/-- The lines and the characters of a line that a position counts are the bytes in front of it. -/
theorem exists_line_of_isBoundary (h : Text.width t < largest)
    (ho : (Source.ofText t).IsBoundary o) :
    ∃ n k line, ofOffset t o = ⟨n + 1, k + 1⟩ ∧ (lines t)[n]? = some line ∧ k ≤ line.length ∧
      '\n' ∉ line.take k ∧
      Text.width ((lines t).take n).flatten + Text.width (line.take k) = o := by
  obtain ⟨u, w, ht, rfl⟩ := Source.isBoundary_ofText_iff.mp ho
  rw [ofOffset_of_append h ht]
  obtain ⟨full, row, rfl, hfull, hrow, -, hplace⟩ := exists_lines u
  obtain ⟨line, rest, hlines⟩ := List.exists_cons_of_ne_nil (Text.lines_ne_nil w)
  have hall : lines t = full ++ (row ++ line) :: rest := by
    rw [ht, List.append_assoc, Text.lines_full_append hfull, Text.lines_append hrow, hlines]
    rfl
  refine ⟨full.length, row.length, row ++ line, hplace, ?_, ?_, ?_, ?_⟩
  · rw [hall, List.getElem?_append_right (Nat.le_refl _), Nat.sub_self]
    rfl
  · rw [List.length_append]
    exact Nat.le_add_right _ _
  · rwa [List.take_left]
  · rw [hall, List.take_left, List.take_left, Text.width_append]

theorem before_ofOffset (h : Text.width t < largest) (ho : (Source.ofText t).IsBoundary o)
    (ho' : (Source.ofText t).IsBoundary o') (hlt : o < o') :
    (ofOffset t o).Before (ofOffset t o') := by
  obtain ⟨u, w, ht, rfl⟩ := Source.isBoundary_ofText_iff.mp ho
  obtain ⟨u', w', ht', rfl⟩ := Source.isBoundary_ofText_iff.mp ho'
  rw [ofOffset_of_append h ht, ofOffset_of_append h ht']
  obtain ⟨between, rfl, -⟩ := Text.exists_append_of_width_le (ht'.symm.trans ht) (by omega)
  rw [List.foldl_append]
  refine before_foldl_after _ ?_
  rintro rfl
  simp at hlt

/-- The position of a character boundary tells the boundary: the lines in front of its line, and
the characters in front of its column, are exactly the bytes in front of it, and no line feed is
among these characters. So different boundaries have different positions, in the same order. Any
other offset has the position of the last boundary in front of it, or of the end of the text. -/
theorem positions_tell_boundaries (t : Text) :
    (Text.width t < largest →
      (∀ o, (Source.ofText t).IsBoundary o →
        ∃ n k line, ofOffset t o = ⟨n + 1, k + 1⟩ ∧ (lines t)[n]? = some line ∧ k ≤ line.length ∧
          '\n' ∉ line.take k ∧
          Text.width ((lines t).take n).flatten + Text.width (line.take k) = o) ∧
      (∀ o o', (Source.ofText t).IsBoundary o → (Source.ofText t).IsBoundary o' →
        ofOffset t o = ofOffset t o' → o = o') ∧
      ∀ o o', (Source.ofText t).IsBoundary o → (Source.ofText t).IsBoundary o' → o < o' →
        (ofOffset t o).Before (ofOffset t o')) ∧
    ∀ offset, ∃ o, (Source.ofText t).IsBoundary o ∧ o ≤ min offset (Text.width t) ∧
      (∀ b, (Source.ofText t).IsBoundary b → b ≤ min offset (Text.width t) → b ≤ o) ∧
      ofOffset t offset = ofOffset t o := by
  constructor
  · intro h
    refine ⟨?_, ?_, ?_⟩
    · intro o ho
      exact exists_line_of_isBoundary h ho
    · intro o o' ho ho' heq
      rcases Nat.lt_trichotomy o o' with hlt | rfl | hlt
      · exact absurd heq (before_ofOffset h ho ho' hlt).ne
      · rfl
      · exact absurd heq.symm (before_ofOffset h ho' ho hlt).ne
    · intro o o' ho ho' hlt
      exact before_ofOffset h ho ho' hlt
  · intro offset
    obtain ⟨u, w, rfl, hu, hadvance, hlast⟩ := exists_advance first t offset
    refine ⟨Text.width u, Source.isBoundary_ofText_iff.mpr ⟨u, w, rfl, rfl⟩, ?_, ?_, ?_⟩
    · rw [Text.width_append]
      omega
    · intro b hb hle
      obtain ⟨u', w', ht, rfl⟩ := Source.isBoundary_ofText_iff.mp hb
      exact hlast u' w' ht (by omega)
    · rw [ofOffset_width_append, ofOffset, hadvance]

/-- Two lines with characters of one, two and four bytes. -/
def twoLines : Text := ['é', '\n', '😀', 'x']

/-- Behind the widest character, in front of it, and inside of it. -/
theorem positions_tell_boundaries_twoLines :
    Text.width twoLines < largest ∧ (Source.ofText twoLines).IsBoundary 3 ∧
      (Source.ofText twoLines).IsBoundary 7 ∧
      (∃ n k line, ofOffset twoLines 7 = ⟨n + 1, k + 1⟩ ∧ (lines twoLines)[n]? = some line ∧
        k ≤ line.length ∧ '\n' ∉ line.take k ∧
        Text.width ((lines twoLines).take n).flatten + Text.width (line.take k) = 7) ∧
      (ofOffset twoLines 3).Before (ofOffset twoLines 7) ∧
      ∃ o, (Source.ofText twoLines).IsBoundary o ∧ o ≤ min 5 (Text.width twoLines) ∧
        (∀ b, (Source.ofText twoLines).IsBoundary b → b ≤ min 5 (Text.width twoLines) → b ≤ o) ∧
        ofOffset twoLines 5 = ofOffset twoLines o := by
  obtain ⟨hboundary, hother⟩ := positions_tell_boundaries twoLines
  have hwidth : Text.width twoLines < largest := by decide
  have hfront : (Source.ofText twoLines).IsBoundary 3 := by rfl
  have hbehind : (Source.ofText twoLines).IsBoundary 7 := by rfl
  obtain ⟨hline, -, hbefore⟩ := hboundary hwidth
  exact ⟨hwidth, hfront, hbehind, hline 7 hbehind, hbefore 3 7 hfront hbehind (by decide), hother 5⟩

end Position

end LispReader
