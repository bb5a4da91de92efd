import LispReader.Rule.Token
import LispReader.Proofs.Notation.Obstacle

/-!
# Scanning tokens

The scanners against the grammar of tokens: what each of them replies at a token,
and at a text that has no token of its kind. The loops carry what was read so far
in front; the statements are about any such beginning.
-/

namespace LispReader

namespace Token

open Alphabet Notation

variable {reserved : Char → Bool} {v w x t line : Text}

/-! ## Lines -/

theorem lineWidth_go (hline : '\n' ∉ line) (t : Text) (n : Nat) :
    lineWidth.go (line ++ '\n' :: t) n = n + Text.width line + 1 := by
  induction line generalizing n with
  | nil => rfl
  | cons c line ih =>
    rw [List.mem_cons, not_or] at hline
    rw [List.cons_append, lineWidth.go, if_neg (Ne.symm hline.1), ih hline.2, Text.width_cons]
    omega

theorem lineWidth_go_of_notMem (hline : '\n' ∉ line) (n : Nat) :
    lineWidth.go line n = n + Text.width line := by
  induction line generalizing n with
  | nil => rfl
  | cons c line ih =>
    rw [List.mem_cons, not_or] at hline
    rw [lineWidth.go, if_neg (Ne.symm hline.1), ih hline.2, Text.width_cons]
    omega

theorem lineWidth_append (hline : '\n' ∉ line) (t : Text) :
    lineWidth (line ++ '\n' :: t) = Text.width line + 1 := by
  rw [lineWidth, lineWidth_go hline, Nat.zero_add]

theorem lineWidth_of_notMem (hline : '\n' ∉ line) : lineWidth line = Text.width line := by
  rw [lineWidth, lineWidth_go_of_notMem hline, Nat.zero_add]

/-! ## Trivia -/

/-- Blank characters are skipped as far as they go, or there are none. -/
theorem whitespace_cases (t : Text) (pos : Nat) :
    (∃ k u, t = k ++ u ∧ k ≠ [] ∧ Trivia k u ∧ whitespace t pos = .done () (pos + Text.width k)) ∨
    (∀ c u, t = c :: u → Text.isBlank c = false) ∧
      whitespace t pos = .missing pos Wanted.whitespace := by
  have htrivia : ∀ k w : Text, (∀ c ∈ k, Text.isBlank c = true) → Trivia k w := by
    intro k w hk
    induction k with
    | nil => exact .nil
    | cons c k ih =>
      exact .blank (hk c List.mem_cons_self) (ih fun e he => hk e (List.mem_cons_of_mem c he))
  cases t with
  | nil => exact Or.inr ⟨nofun, rfl⟩
  | cons c t =>
    by_cases hc : Text.isBlank c = true
    · refine Or.inl ⟨(c :: t).takeWhile Text.isBlank, (c :: t).dropWhile Text.isBlank,
        List.takeWhile_append_dropWhile.symm, ?_, ?_, ?_⟩
      · rw [List.takeWhile_cons, if_pos hc]
        exact nofun
      · apply htrivia
        intro e he
        exact List.all_eq_true.mp List.all_takeWhile e he
      · rw [whitespace, if_neg]
        rw [List.takeWhile_cons, if_pos hc, Text.width_cons]
        have := c.utf8Size_pos
        omega
    · right
      constructor
      · rintro e u he
        obtain ⟨rfl, -⟩ := List.cons.inj he
        exact Bool.not_eq_true _ ▸ hc
      · rw [whitespace, List.takeWhile_cons, if_neg hc]
        rfl

/-- A comment is skipped with its line, or there is none. -/
theorem comment_cases (t : Text) (pos : Nat) :
    (∃ k u, t = k ++ u ∧ k ≠ [] ∧ Trivia k u ∧ comment t pos = .done () (pos + Text.width k)) ∨
    (∀ c u, t = c :: u → c ≠ semicolon) ∧ comment t pos = .missing pos Wanted.comment := by
  by_cases h : ∃ u, t = semicolon :: u
  · obtain ⟨u, rfl⟩ := h
    have hp : [semicolon].isPrefixOf (semicolon :: u) = true := by simp
    left
    rw [comment, if_pos hp]
    rcases exists_line u with ⟨line, u, rfl, hline⟩ | hline
    · refine ⟨semicolon :: (line ++ ['\n']), u, by simp, by simp, .comment hline .nil, ?_⟩
      have hs : '\n' ∉ semicolon :: line := by
        rw [List.mem_cons, not_or]
        exact ⟨by decide, hline⟩
      rw [← List.cons_append, lineWidth_append hs, Text.width_cons, Text.width_cons,
        Text.width_append]
      rfl
    · refine ⟨semicolon :: u, [], by simp, by simp, .lastComment hline, ?_⟩
      have hs : '\n' ∉ semicolon :: u := by
        rw [List.mem_cons, not_or]
        exact ⟨by decide, hline⟩
      rw [lineWidth_of_notMem hs]
  · right
    constructor
    · rintro c u rfl rfl
      exact h ⟨u, rfl⟩
    · rw [comment, if_neg]
      cases t with
      | nil => simp
      | cons c u =>
        have hc : semicolon ≠ c := by
          rintro rfl
          exact h ⟨u, rfl⟩
        simp [List.isPrefixOf, hc]

/-! ## Atoms -/

theorem scanAtom_of_not_startsConstituent (hw : ¬ StartsConstituent reserved w) (pos : Nat)
    (content : Text) : scanAtom reserved w pos content = (content.reverse, pos) := by
  cases w with
  | nil => rfl
  | cons c t =>
    by_cases hc : c = escape
    · subst hc
      cases t with
      | nil => rw [scanAtom.eq_def]; simp
      | cons e t =>
        have he : reserved e = false := by
          rw [← Bool.not_eq_true]
          exact fun hr => hw (.escaped hr)
        rw [scanAtom.eq_def]
        simp [he]
    · have hr : reserved c = true := by
        rw [← Bool.not_eq_false]
        exact fun hr => hw (.plain hc hr)
      rw [scanAtom.eq_def]
      simp [hc, hr]

theorem scanAtom_of_constituents (h : Constituents reserved v x)
    (hw : ¬ StartsConstituent reserved w) (pos : Nat) (content : Text) :
    scanAtom reserved (v ++ w) pos content = (content.reverse ++ x, pos + Text.width v) := by
  induction h generalizing pos content with
  | nil =>
    rw [List.nil_append, scanAtom_of_not_startsConstituent hw, List.append_nil]
    rfl
  | @plain c v x hc hr _ ih =>
    rw [List.cons_append, scanAtom.eq_def]
    simp only [if_neg hc, hr, Bool.false_eq_true, if_false]
    rw [ih, List.reverse_cons, List.append_assoc, Text.width_cons, Nat.add_assoc]
    rfl
  | @escaped c v x hr _ ih =>
    rw [List.cons_append, List.cons_append, scanAtom.eq_def]
    simp only [if_true, hr]
    rw [ih, List.reverse_cons, List.append_assoc, Text.width_cons, Text.width_cons,
      Nat.add_assoc, Nat.add_assoc]
    rfl

theorem atom_of_constituents (h : Constituents reserved v x) (hv : v ≠ [])
    (hw : ¬ StartsConstituent reserved w) (pos : Nat) :
    atom reserved (v ++ w) pos =
      .done (.atom x ⟨pos, pos + Text.width v⟩) (pos + Text.width v) := by
  have := Text.width_pos hv
  rw [atom, scanAtom_of_constituents h hw]
  simp only [List.reverse_nil, List.nil_append]
  rw [if_neg (by omega)]

theorem atom_of_not_startsConstituent (ht : ¬ StartsConstituent reserved t) (pos : Nat) :
    atom reserved t pos = .missing pos Wanted.atom := by
  rw [atom, scanAtom_of_not_startsConstituent ht]
  exact if_pos rfl

/-! ## String literals -/

theorem scanString_of_literal (h : Literal v x) (w : Text) (pos : Nat) (content : Text) :
    scanString (v ++ w) pos content =
      scanString w (pos + Text.width v) (x.reverse ++ content) := by
  induction h generalizing pos content with
  | nil => rfl
  | @plain c v x hq he _ ih =>
    rw [List.cons_append, scanString.eq_def]
    simp only [if_neg hq, if_neg he]
    rw [ih, List.reverse_cons, List.append_assoc, Text.width_cons, Nat.add_assoc]
    rfl
  | @escaped e c v x he _ ih =>
    have hne : escape ≠ quotation := by decide
    rw [List.cons_append, List.cons_append, scanString.eq_def]
    simp only [if_neg hne, if_true, he]
    rw [ih, List.reverse_cons, List.append_assoc, Text.width_cons, Text.width_cons,
      Nat.add_assoc, Nat.add_assoc]
    rfl

theorem string_of_literal (h : Literal v x) (w : Text) (pos : Nat) :
    string (quotation :: (v ++ quotation :: w)) pos =
      .done (.string x ⟨pos, pos + Text.width v + 2⟩) (pos + Text.width v + 2) := by
  have hstop : pos + quotation.utf8Size + Text.width v + quotation.utf8Size =
      pos + Text.width v + 2 := by
    rw [utf8Size_quotation]
    omega
  rw [string, if_pos rfl, scanString_of_literal h, scanString.eq_def]
  simp only [if_true]
  rw [hstop, List.append_nil, List.reverse_reverse]

theorem string_of_badEscape {e : Char} (h : Literal v x) (he : escaped? e = none) (w : Text)
    (pos : Nat) :
    string (quotation :: (v ++ escape :: e :: w)) pos =
      .abortAt (pos + 1 + Text.width v + 1) (.invalidEscape e) := by
  have hne : escape ≠ quotation := by decide
  rw [string, if_pos rfl, scanString_of_literal h, scanString.eq_def]
  simp only [if_neg hne, if_true, he]
  rfl

theorem string_of_unclosed (h : Unclosed v) (pos : Nat) :
    string (quotation :: v) pos =
      .reject ((Expectation.one (pos + 1 + Text.width v) Wanted.stringContent).merge
        (Expectation.one (pos + 1 + Text.width v) Wanted.stringTerminator)) := by
  have hne : escape ≠ quotation := by decide
  rw [string, if_pos rfl]
  cases h with
  | @plain v x h =>
    have hs := scanString_of_literal h [] (pos + quotation.utf8Size) []
    rw [List.append_nil] at hs
    rw [hs, scanString]
    rfl
  | @escaping v x h =>
    rw [scanString_of_literal h, scanString.eq_def]
    simp only [if_neg hne, if_true]
    rw [Text.width_append, ← Nat.add_assoc]
    rfl

theorem string_of_ne (ht : ∀ u, t ≠ quotation :: u) (pos : Nat) :
    string t pos = .missing pos Wanted.stringLiteral := by
  cases t with
  | nil => rfl
  | cons c u =>
    rw [string, if_neg]
    rintro rfl
    exact ht u rfl

end Token

end LispReader
