import LispReader.Alphabet
import LispReader.Source

/-!
# Offsets and the texts behind them

A rule sees a source only through the text from some offset on. The statements
here move such a view forward over a piece that has been read, and turn equal
widths into equal pieces. Widths of the characters with a meaning are all one.
-/

namespace LispReader

namespace Text

theorem width_pos {t : Text} (h : t ≠ []) : 0 < width t := by
  cases t with
  | nil => exact absurd rfl h
  | cons c t =>
    have hc := c.utf8Size_pos
    rw [width_cons]
    omega

/-- What follows a text that is not empty does not change the first character. -/
theorem head?_append_congr (k : Text) {t : Text} (h : t ≠ []) (u v : Text) :
    (k ++ (t ++ u)).head? = (k ++ (t ++ v)).head? := by
  cases k with
  | nil =>
    cases t with
    | nil => exact absurd rfl h
    | cons c t => rfl
  | cons c k => rfl

/-- Two ways to cut a text at the same offset are the same. -/
theorem append_inj_of_width {a b c d : Text} (h : a ++ b = c ++ d) (hw : width a = width c) :
    a = c ∧ b = d := by
  have hb : some b = some d := by
    rw [← dropBytes?_width_append a b, ← dropBytes?_width_append c d, h, hw]
  have hbd : b = d := Option.some.inj hb
  subst hbd
  exact ⟨List.append_cancel_right h, rfl⟩

/-- A text begins with everything that is no wider than another beginning of it. -/
theorem exists_append_of_width_le {a b c d : Text} (h : a ++ b = c ++ d)
    (hw : width c ≤ width a) : ∃ e, a = c ++ e ∧ d = e ++ b := by
  rcases List.append_eq_append_iff.mp h with ⟨e, rfl, rfl⟩ | ⟨e, rfl, rfl⟩
  · cases e with
    | nil => exact ⟨[], by simp, rfl⟩
    | cons c e =>
      have hpos := width_pos (List.cons_ne_nil c e)
      rw [width_append] at hw
      omega
  · exact ⟨e, rfl, rfl⟩

end Text

namespace Alphabet

@[simp] theorem utf8Size_quotation : quotation.utf8Size = 1 := rfl

@[simp] theorem utf8Size_escape : escape.utf8Size = 1 := rfl

@[simp] theorem utf8Size_openParen : openParen.utf8Size = 1 := rfl

@[simp] theorem utf8Size_closeParen : closeParen.utf8Size = 1 := rfl

end Alphabet

namespace Source

variable {s : Source} {p : Nat} {t u : Text}

/-- A view at an offset is a text behind a beginning of that width. -/
theorem suffix?_eq_some_iff : s.suffix? p = some u ↔ ∃ t, s.text = t ++ u ∧ Text.width t = p := by
  rw [suffix?_eq, Text.dropBytes?_eq_some_iff]

theorem suffix?_zero (s : Source) : s.suffix? 0 = some s.text :=
  suffix?_eq_some_iff.mpr ⟨[], rfl, rfl⟩

/-- Behind a piece of the view, the view is what follows the piece. -/
theorem suffix?_add (h : s.suffix? p = some (t ++ u)) :
    s.suffix? (p + Text.width t) = some u := by
  obtain ⟨r, hr, hp⟩ := suffix?_eq_some_iff.mp h
  exact suffix?_eq_some_iff.mpr ⟨r ++ t, by rw [hr, List.append_assoc], by
    rw [Text.width_append, hp]⟩

theorem suffix?_cons {c : Char} (h : s.suffix? p = some (c :: u)) :
    s.suffix? (p + c.utf8Size) = some u := by
  have hs : s.suffix? p = some ([c] ++ u) := h
  simpa using suffix?_add hs

theorem rest_of_suffix? (h : s.suffix? p = some u) : s.rest p = u := by
  rw [rest, h, Option.getD_some]

/-- A view is as wide as what is missing to the end of the source. -/
theorem width_of_suffix? (h : s.suffix? p = some u) : s.width = p + Text.width u := by
  obtain ⟨t, ht, hp⟩ := suffix?_eq_some_iff.mp h
  rw [width, ht, Text.width_append, hp]

/-! ## Boundaries -/

/-- An offset at which a character begins, or the end of the source. -/
def IsBoundary (s : Source) (pos : Nat) : Prop := (s.suffix? pos).isSome

/-- A boundary that does not lie in front of an offset. -/
def BoundaryFrom (s : Source) (pos next : Nat) : Prop := pos ≤ next ∧ s.IsBoundary next

variable {q pos next : Nat} {k : Text}

theorem isBoundary_zero (s : Source) : s.IsBoundary 0 := by
  rw [IsBoundary, suffix?_zero]
  rfl

theorem isBoundary_ofText_iff {t : Text} :
    (ofText t).IsBoundary pos ↔ ∃ u w, t = u ++ w ∧ Text.width u = pos := by
  rw [IsBoundary, Option.isSome_iff_exists]
  simp only [suffix?_eq_some_iff, text_ofText]
  exact exists_comm

theorem IsBoundary.le_width (h : s.IsBoundary pos) : pos ≤ s.width := by
  obtain ⟨t, ht⟩ := Option.isSome_iff_exists.mp h
  have hw := width_of_suffix? ht
  omega

theorem IsBoundary.from_self (h : s.IsBoundary pos) : s.BoundaryFrom pos pos :=
  ⟨Nat.le_refl pos, h⟩

theorem BoundaryFrom.mono (hle : p ≤ q) (h : s.BoundaryFrom q next) : s.BoundaryFrom p next :=
  ⟨Nat.le_trans hle h.1, h.2⟩

/-- Behind a piece of the view there is a boundary again. -/
theorem IsBoundary.add_width (h : s.IsBoundary pos) (hk : k <+: s.rest pos) :
    s.IsBoundary (pos + Text.width k) := by
  obtain ⟨t, ht⟩ := Option.isSome_iff_exists.mp h
  obtain ⟨u, hu⟩ := hk
  rw [rest_of_suffix? ht] at hu
  rw [← hu] at ht
  rw [IsBoundary, suffix?_add ht]
  rfl

end Source

namespace Span

/-- The piece that lies between two others is what the span of its ends delimits. -/
theorem slice?_of_append {a b c t : Text} {s : Span} (ht : t = a ++ (b ++ c))
    (hstart : s.start = Text.width a) (hstop : s.stop = Text.width a + Text.width b) :
    s.slice? t = some b := by
  obtain ⟨start, stop⟩ := s
  dsimp only at hstart hstop
  rw [ht, hstart, hstop]
  exact slice?_append a b c

end Span

end LispReader
