import LispReader.Text.Basic

/-!
# Spans

A span is a pair of byte offsets that delimits a piece of a source, the end not
included. It is plain data: nothing here requires that the start comes before
the end, or that either offset belongs to the source at hand.
-/

namespace LispReader

/-- The bytes from `start` up to, and not including, `stop`. -/
structure Span where
  start : Nat
  stop : Nat
  deriving DecidableEq, Repr, Inhabited

namespace Span

/-- The number of bytes; a span whose end precedes its start has none. -/
def width? (s : Span) : Option Nat :=
  if s.start ≤ s.stop then some (s.stop - s.start) else none

/-- Whether start and end coincide. -/
def isEmpty (s : Span) : Bool := s.start == s.stop

/-- Whether another span neither starts before this one nor ends behind it. -/
def contains (s other : Span) : Bool := s.start ≤ other.start && other.stop ≤ s.stop

/-- The piece of a text that the span delimits, provided that both ends are
character boundaries of the text, in order. -/
def slice? (s : Span) (t : Text) : Option Text := do
  let n ← s.width?
  (← Text.dropBytes? t s.start).takeBytes? n

/-- The span in mathematical notation, as a half-open interval. -/
def render (s : Span) : String := s!"[{s.start}, {s.stop})"

@[simp] theorem contains_iff {s other : Span} :
    s.contains other = true ↔ s.start ≤ other.start ∧ other.stop ≤ s.stop := by
  simp [contains]

theorem slice?_append (t u v : Text) :
    slice? ⟨Text.width t, Text.width t + Text.width u⟩ (t ++ (u ++ v)) = some u := by
  simp [slice?, width?]

end Span

end LispReader
