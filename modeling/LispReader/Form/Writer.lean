import LispReader.Form.Basic

/-!
# Writing forms

Forms are written one per line, so that reading the output gives them back. A
first form that begins like a line naming an interpreter is moved one column to
the right, where nothing takes it for such a line.

Writing goes to a sink, which may have limited room. A sink accepts what fits and
refuses the rest; what it has accepted stays there. The pieces are handed over one
at a time, and nothing is handed over after a refusal.
-/

namespace LispReader

/-- Takes bytes as long as there is room. -/
structure Sink where
  /-- How many bytes it still takes; without a number there is no limit. -/
  room : Option Nat
  /-- The bytes accepted so far. -/
  accepted : Array UInt8 := #[]
  deriving DecidableEq, Repr

namespace Sink

/-- An empty sink without limit. -/
def unlimited : Sink := ⟨none, #[]⟩

/-- An empty sink for so many bytes. -/
def limited (n : Nat) : Sink := ⟨some n, #[]⟩

/-- Hands over a piece, and tells whether all of it was accepted. -/
def put (s : Sink) (piece : List UInt8) : Sink × Bool :=
  match s.room with
  | none => ({ s with accepted := s.accepted ++ piece }, true)
  | some n =>
    if piece.length ≤ n then (⟨some (n - piece.length), s.accepted ++ piece⟩, true)
    else (⟨some 0, s.accepted ++ piece.take n⟩, false)

/-- Hands over pieces up to the first that is not accepted as a whole. -/
def putAll (s : Sink) : List (List UInt8) → Sink × Bool
  | [] => (s, true)
  | piece :: pieces =>
    match s.put piece with
    | (s', true) => s'.putAll pieces
    | (s', false) => (s', false)

end Sink

namespace Form

/-- The pieces that one form is written in: itself and the end of its line, behind
a space for a first form that needs it. -/
def pieces (isFirst : Bool) (f : Form) : List Text :=
  let line := [f.render, ['\n']]
  if isFirst && Alphabet.shebang.isPrefixOf f.render then [' '] :: line else line

/-- The pieces that forms are written in, in order. -/
def allPieces : List Form → List Text
  | [] => []
  | f :: fs => f.pieces true ++ fs.flatMap (pieces false)

/-- The written form of several forms as one text. -/
def writeAll (fs : List Form) : Text := (allPieces fs).flatten

/-- Writes several forms to a sink, and tells whether the sink took them all. -/
def writeTo (fs : List Form) (s : Sink) : Sink × Bool :=
  s.putAll ((allPieces fs).map Text.bytes)

end Form

end LispReader
