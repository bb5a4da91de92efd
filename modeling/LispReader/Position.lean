import LispReader.Text.Basic

/-!
# Positions for people

A position names a place in a source by line and column, both counted from one.
Columns count characters, not bytes, and only a line feed ends a line. Both
numbers stop growing at `Position.largest`.
-/

namespace LispReader

/-- A line and a column of that line. -/
structure Position where
  line : Nat
  column : Nat
  deriving DecidableEq, Repr, Inhabited

namespace Position

/-- The place of the first character. -/
def first : Position := ⟨1, 1⟩

/-- The place behind a character. -/
def after (p : Position) (c : Char) : Position :=
  if c = '\n' then ⟨p.line + 1, 1⟩ else ⟨p.line, p.column + 1⟩

/-- The place behind those characters of a text that lie wholly within its first `n` bytes. -/
def advance : Position → Text → Nat → Position
  | p, [], _ => p
  | p, c :: t, n => if c.utf8Size ≤ n then advance (p.after c) t (n - c.utf8Size) else p

/-- The largest line or column that is told apart from the ones behind it. -/
def largest : Nat := 4294967295

/-- Both numbers cut off at the largest one. -/
def capped (p : Position) : Position := ⟨min p.line largest, min p.column largest⟩

/-- The place of a byte offset. An offset inside a character counts as the start
of that character, one past the end as the end. -/
def ofOffset (t : Text) (offset : Nat) : Position := (advance first t offset).capped

/-- The place in words. -/
def render (p : Position) : String := s!"at line {p.line}, column {p.column}"

theorem advance_append (p : Position) (t u : Text) (n : Nat) :
    advance p (t ++ u) (Text.width t + n) = advance (t.foldl after p) u n := by
  induction t generalizing p with
  | nil => simp
  | cons c t ih =>
    rw [List.cons_append, advance, Text.width_cons, if_pos (by omega), List.foldl_cons, ← ih]
    congr 1
    omega

@[simp] theorem advance_zero (p : Position) (t : Text) : advance p t 0 = p := by
  cases t with
  | nil => rfl
  | cons c t => exact if_neg (Nat.not_le.mpr c.utf8Size_pos)

/-- The position behind the first part of a text is the place behind the characters of that part. -/
theorem ofOffset_width_append (t u : Text) :
    ofOffset (t ++ u) (Text.width t) = (t.foldl after first).capped := by
  have hplace := advance_append first t u 0
  rw [Nat.add_zero, advance_zero] at hplace
  rw [ofOffset, hplace]

end Position

end LispReader
