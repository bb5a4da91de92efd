import LispReader.Alphabet

/-!
# The tokens of the notation

What trivia, atoms and string literals look like, apart from how they are
scanned. A token is a piece of a source, and two of the rules look at what
follows it: a comment without a line feed ends the source, and an atom is not
followed by another character that could belong to it. So each rule is about a
piece in front of a text.
-/

namespace LispReader

namespace Notation

open Alphabet

/-! ## Trivia -/

/-- A text has a first line, or no line feed at all. -/
theorem exists_line (t : Text) :
    (∃ line u, t = line ++ '\n' :: u ∧ '\n' ∉ line) ∨ '\n' ∉ t := by
  by_cases h : '\n' ∈ t
  · obtain ⟨line, u, ht, hline⟩ := List.eq_append_cons_of_mem h
    exact Or.inl ⟨line, u, ht, hline⟩
  · exact Or.inr h

/-- Blank characters and comments in any order and number, in front of a text. -/
inductive Trivia : Text → Text → Prop where
  | nil {w : Text} : Trivia [] w
  | blank {c : Char} {k w : Text} (hc : Text.isBlank c = true) (h : Trivia k w) :
      Trivia (c :: k) w
  | comment {line k w : Text} (hline : '\n' ∉ line) (h : Trivia k w) :
      Trivia (semicolon :: (line ++ '\n' :: k)) w
  | lastComment {line : Text} (hline : '\n' ∉ line) : Trivia (semicolon :: line) []

/-- The texts that begin with a blank character or a comment. -/
inductive StartsTrivia : Text → Prop where
  | blank {c : Char} {t : Text} (hc : Text.isBlank c = true) : StartsTrivia (c :: t)
  | comment {t : Text} : StartsTrivia (semicolon :: t)

theorem isBlank_semicolon : Text.isBlank semicolon = false := by decide

namespace Trivia

variable {k k' u w : Text}

theorem append (h : Trivia k (k' ++ u)) (h' : Trivia k' u) : Trivia (k ++ k') u := by
  generalize hw : k' ++ u = w at h
  induction h with
  | nil => exact h'
  | blank hc _ ih => exact .blank hc (ih hw)
  | comment hline _ ih =>
    rw [List.cons_append, List.append_assoc, List.cons_append]
    exact .comment hline (ih hw)
  | lastComment hline =>
    obtain ⟨rfl, rfl⟩ := List.append_eq_nil_iff.mp hw
    rw [List.append_nil]
    exact .lastComment hline

/-- Only a comment that ends the source depends on what follows. -/
theorem follow (h : Trivia k u) (hw : u = [] → w = []) : Trivia k w := by
  induction h with
  | nil => exact .nil
  | blank hc _ ih => exact .blank hc (ih hw)
  | comment hline _ ih => exact .comment hline (ih hw)
  | lastComment hline =>
    rw [hw rfl]
    exact .lastComment hline

/-- A line feed ends the last comment, whatever follows then. -/
theorem snoc_newline (h : Trivia k u) (w : Text) : Trivia (k ++ ['\n']) w := by
  induction h with
  | nil => exact .blank (by decide) .nil
  | blank hc _ ih => exact .blank hc ih
  | comment hline _ ih =>
    rw [List.cons_append, List.append_assoc, List.cons_append]
    exact .comment hline ih
  | lastComment hline => exact .comment hline .nil

theorem startsTrivia (h : Trivia k u) (hk : k ≠ []) (w : Text) : StartsTrivia (k ++ w) := by
  cases h with
  | nil => exact absurd rfl hk
  | blank hc _ => exact .blank hc
  | comment _ _ => exact .comment
  | lastComment _ => exact .comment

theorem eq_nil_of_append (h : Trivia k w) (hw : ¬ StartsTrivia (k ++ w)) : k = [] := by
  by_cases hk : k = []
  · exact hk
  · exact absurd (h.startsTrivia hk w) hw

theorem of_blank {c : Char} {t : Text} (h : Trivia k w) (hw : ¬ StartsTrivia w)
    (hc : Text.isBlank c = true) (he : c :: t = k ++ w) :
    ∃ k', k = c :: k' ∧ Trivia k' w ∧ t = k' ++ w := by
  cases h with
  | nil =>
    rw [List.nil_append] at he
    subst he
    exact absurd (.blank hc) hw
  | blank _ h =>
    obtain ⟨rfl, rfl⟩ := List.cons.inj he
    exact ⟨_, rfl, h, rfl⟩
  | comment _ _ =>
    obtain ⟨rfl, -⟩ := List.cons.inj he
    exact absurd (isBlank_semicolon.symm.trans hc) (by decide)
  | lastComment _ =>
    obtain ⟨rfl, -⟩ := List.cons.inj he
    exact absurd (isBlank_semicolon.symm.trans hc) (by decide)

theorem of_comment {line t : Text} (h : Trivia k w) (hw : ¬ StartsTrivia w)
    (hline : '\n' ∉ line) (he : semicolon :: (line ++ '\n' :: t) = k ++ w) :
    ∃ k', k = semicolon :: (line ++ '\n' :: k') ∧ Trivia k' w ∧ t = k' ++ w := by
  cases h with
  | nil =>
    rw [List.nil_append] at he
    subst he
    exact absurd .comment hw
  | blank hc _ =>
    obtain ⟨rfl, -⟩ := List.cons.inj he
    exact absurd (isBlank_semicolon.symm.trans hc) (by decide)
  | @comment line' k' w hline' h =>
    rw [List.cons_append, List.append_assoc, List.cons_append] at he
    obtain ⟨rfl, rfl⟩ := Text.divide_unique hline hline' (List.cons.inj he).2
    exact ⟨k', rfl, h, rfl⟩
  | lastComment hline' =>
    rw [List.append_nil] at he
    exact absurd (by rw [← (List.cons.inj he).2]; simp) hline'

theorem of_lastComment {line : Text} (h : Trivia k w) (hw : ¬ StartsTrivia w)
    (hline : '\n' ∉ line) (he : semicolon :: line = k ++ w) :
    k = semicolon :: line ∧ w = [] := by
  cases h with
  | nil =>
    rw [List.nil_append] at he
    subst he
    exact absurd .comment hw
  | blank hc _ =>
    obtain ⟨rfl, -⟩ := List.cons.inj he
    exact absurd (isBlank_semicolon.symm.trans hc) (by decide)
  | comment _ _ =>
    rw [List.cons_append, List.append_assoc, List.cons_append] at he
    exact absurd (by rw [(List.cons.inj he).2]; simp) hline
  | lastComment _ =>
    rw [List.append_nil] at he
    exact ⟨he.symm, rfl⟩

/-- Trivia up to a text that does not begin with trivia is as long as it can be. -/
theorem unique (h : Trivia k u) (h' : Trivia k' w) (hu : ¬ StartsTrivia u)
    (hw : ¬ StartsTrivia w) (he : k ++ u = k' ++ w) : k = k' ∧ u = w := by
  induction h generalizing k' with
  | nil =>
    rw [List.nil_append] at he
    have hk := h'.eq_nil_of_append (he ▸ hu)
    subst hk
    exact ⟨rfl, he⟩
  | blank hc _ ih =>
    obtain ⟨k', rfl, h', he⟩ := h'.of_blank hw hc he
    obtain ⟨rfl, rfl⟩ := ih h' hu he
    exact ⟨rfl, rfl⟩
  | comment hline _ ih =>
    rw [List.cons_append, List.append_assoc, List.cons_append] at he
    obtain ⟨k', rfl, h', he⟩ := h'.of_comment hw hline he
    obtain ⟨rfl, rfl⟩ := ih h' hu he
    exact ⟨rfl, rfl⟩
  | lastComment hline =>
    rw [List.append_nil] at he
    obtain ⟨rfl, rfl⟩ := h'.of_lastComment hw hline he
    exact ⟨rfl, rfl⟩

end Trivia

/-- All trivia can go on with a piece in front of a text, whatever it was in front of. -/
def ResumesTrivia (k u : Text) : Prop := ∀ {k' w : Text}, Trivia k' w → Trivia (k' ++ k) u

theorem resumesTrivia_nil : ResumesTrivia [] [] := by
  intro k' w h
  rw [List.append_nil]
  exact h.follow fun _ => rfl

theorem resumesTrivia_newline (u : Text) : ResumesTrivia ['\n'] u :=
  fun h => h.snoc_newline u

/-- Every text divides into trivia and a text that does not begin with trivia. -/
theorem exists_trivia (t : Text) : ∃ k u, t = k ++ u ∧ Trivia k u ∧ ¬ StartsTrivia u := by
  induction hn : t.length using Nat.strongRecOn generalizing t with
  | ind n ih =>
    by_cases ht : StartsTrivia t
    · cases ht with
      | @blank c t hc =>
        obtain ⟨k, u, rfl, hk, hu⟩ := ih t.length (by rw [← hn]; simp) t rfl
        exact ⟨c :: k, u, rfl, .blank hc hk, hu⟩
      | @comment t =>
        rcases exists_line t with ⟨line, t', rfl, hline⟩ | hline
        · obtain ⟨k, u, rfl, hk, hu⟩ := ih t'.length (by rw [← hn]; simp; omega) t' rfl
          exact ⟨semicolon :: (line ++ '\n' :: k), u, by simp, .comment hline hk, hu⟩
        · exact ⟨semicolon :: t, [], by simp, .lastComment hline, nofun⟩
    · exact ⟨[], t, rfl, .nil, ht⟩

/-! ## Atoms -/

variable {reserved : Char → Bool}

/-- The characters of an atom, and what they say: an unreserved character is
itself, and so is a reserved one behind an escape. -/
inductive Constituents (reserved : Char → Bool) : Text → Text → Prop where
  | nil : Constituents reserved [] []
  | plain {c : Char} {v x : Text} (hc : c ≠ escape) (hr : reserved c = false)
      (h : Constituents reserved v x) : Constituents reserved (c :: v) (c :: x)
  | escaped {c : Char} {v x : Text} (hr : reserved c = true)
      (h : Constituents reserved v x) : Constituents reserved (escape :: c :: v) (c :: x)

/-- The texts that begin with a character that can belong to an atom. -/
inductive StartsConstituent (reserved : Char → Bool) : Text → Prop where
  | plain {c : Char} {t : Text} (hc : c ≠ escape) (hr : reserved c = false) :
      StartsConstituent reserved (c :: t)
  | escaped {c : Char} {t : Text} (hr : reserved c = true) :
      StartsConstituent reserved (escape :: c :: t)

/-- A text with an escape in front of every reserved character. -/
def escapeReserved (reserved : Char → Bool) (w : Text) : Text :=
  w.flatMap fun c => if reserved c then [escape, c] else [c]

theorem Constituents.startsConstituent {v x : Text} (h : Constituents reserved v x)
    (hv : v ≠ []) (w : Text) : StartsConstituent reserved (v ++ w) := by
  cases h with
  | nil => exact absurd rfl hv
  | plain hc hr _ => exact .plain hc hr
  | escaped hr _ => exact .escaped hr

/-- Every text divides into characters of an atom and a text that begins with none. -/
theorem exists_constituents (reserved : Char → Bool) (t : Text) :
    ∃ v x w, t = v ++ w ∧ Constituents reserved v x ∧ ¬ StartsConstituent reserved w := by
  induction hn : t.length using Nat.strongRecOn generalizing t with
  | ind n ih =>
    by_cases ht : StartsConstituent reserved t
    · cases ht with
      | @plain c t hc hr =>
        obtain ⟨v, x, w, rfl, hv, hw⟩ := ih t.length (by rw [← hn]; simp) t rfl
        exact ⟨c :: v, c :: x, w, rfl, .plain hc hr hv, hw⟩
      | @escaped c t hr =>
        have hlt : t.length < n := by
          rw [← hn, List.length_cons, List.length_cons]
          omega
        obtain ⟨v, x, w, rfl, hv, hw⟩ := ih t.length hlt t rfl
        exact ⟨escape :: c :: v, c :: x, w, rfl, .escaped hr hv, hw⟩
    · exact ⟨[], [], t, rfl, .nil, ht⟩

/-- What a text that is written with an escape in front of every reserved character says. -/
theorem constituents_escapeReserved (he : reserved escape = true) (w : Text) :
    Constituents reserved (escapeReserved reserved w) w := by
  induction w with
  | nil => exact .nil
  | cons c w ih =>
    rw [escapeReserved, List.flatMap_cons]
    by_cases hc : reserved c = true
    · rw [if_pos hc]
      exact .escaped hc ih
    · rw [if_neg hc]
      refine .plain ?_ (Bool.not_eq_true _ ▸ hc) ih
      rintro rfl
      exact hc he

/-! ## String literals -/

/-- What stands between the marks of a string literal, and what it says. -/
inductive Literal : Text → Text → Prop where
  | nil : Literal [] []
  | plain {c : Char} {v x : Text} (hq : c ≠ quotation) (he : c ≠ escape) (h : Literal v x) :
      Literal (c :: v) (c :: x)
  | escaped {e c : Char} {v x : Text} (he : escaped? e = some c) (h : Literal v x) :
      Literal (escape :: e :: v) (c :: x)

theorem Literal.append {v v' x x' : Text} (h : Literal v x) (h' : Literal v' x') :
    Literal (v ++ v') (x ++ x') := by
  induction h with
  | nil => exact h'
  | plain hq he _ ih => exact .plain hq he ih
  | escaped he _ ih => exact .escaped he ih

/-- The texts that never come to the mark behind a string literal. -/
inductive Unclosed : Text → Prop where
  | plain {v x : Text} (h : Literal v x) : Unclosed v
  | escaping {v x : Text} (h : Literal v x) : Unclosed (v ++ [escape])

theorem Unclosed.cons_plain {c : Char} {v : Text} (hq : c ≠ quotation) (he : c ≠ escape)
    (h : Unclosed v) : Unclosed (c :: v) := by
  cases h with
  | plain h => exact .plain (.plain hq he h)
  | escaping h => exact .escaping (.plain hq he h)

theorem Unclosed.cons_escaped {e c : Char} {v : Text} (he : escaped? e = some c)
    (h : Unclosed v) : Unclosed (escape :: e :: v) := by
  cases h with
  | plain h => exact .plain (.escaped he h)
  | escaping h => exact .escaping (.escaped he h)

/-- Behind the opening mark, a text closes the literal, has an escape without
meaning, or is unclosed. -/
theorem exists_literal (t : Text) :
    (∃ v x w, t = v ++ quotation :: w ∧ Literal v x) ∨
    (∃ v x e w, t = v ++ escape :: e :: w ∧ Literal v x ∧ escaped? e = none) ∨
    Unclosed t := by
  induction hn : t.length using Nat.strongRecOn generalizing t with
  | ind n ih =>
    cases t with
    | nil => exact Or.inr (Or.inr (.plain .nil))
    | cons c t =>
      by_cases hq : c = quotation
      · exact Or.inl ⟨[], [], t, by rw [hq, List.nil_append], .nil⟩
      by_cases he : c = escape
      · subst he
        cases t with
        | nil => exact Or.inr (Or.inr (.escaping .nil))
        | cons e t =>
          cases hm : escaped? e with
          | none => exact Or.inr (Or.inl ⟨[], [], e, t, rfl, .nil, hm⟩)
          | some m =>
            have hlt : t.length < n := by
              rw [← hn, List.length_cons, List.length_cons]
              omega
            rcases ih t.length hlt t rfl with
              ⟨v, x, w, rfl, hv⟩ | ⟨v, x, e', w, rfl, hv, he'⟩ | hu
            · exact Or.inl ⟨_, _, w, rfl, .escaped hm hv⟩
            · exact Or.inr (Or.inl ⟨_, _, e', w, rfl, .escaped hm hv, he'⟩)
            · exact Or.inr (Or.inr (hu.cons_escaped hm))
      · rcases ih t.length (by rw [← hn]; simp) t rfl with
          ⟨v, x, w, rfl, hv⟩ | ⟨v, x, e', w, rfl, hv, he'⟩ | hu
        · exact Or.inl ⟨_, _, w, rfl, .plain hq he hv⟩
        · exact Or.inr (Or.inl ⟨_, _, e', w, rfl, .plain hq he hv, he'⟩)
        · exact Or.inr (Or.inr (hu.cons_plain hq he))

end Notation

end LispReader
