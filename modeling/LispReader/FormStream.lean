import LispReader.Reading

/-!
# Forms one at a time

A stream delivers the forms of a source one by one, and nothing is read before it
is asked for. It ends behind the last form, or behind the diagnostic that it
delivers in place of a form that cannot be read.
-/

namespace LispReader

/-- How far a stream has come. -/
inductive FormStream.Place where
  /-- Nothing was read yet. -/
  | fresh
  /-- The next form is to be read at an offset. -/
  | next (pos : Nat) (expected : Expectation)
  /-- There is nothing more to deliver. -/
  | ended
  deriving DecidableEq, Repr

/-- The forms of a reading that were not delivered yet. -/
structure FormStream where
  reading : Reading
  place : FormStream.Place := .fresh

namespace FormStream

variable (s : FormStream)

/-- Delivers a diagnostic as the last item. -/
def fail (fault : Fault) : Option (Except Diagnostic Form) × FormStream :=
  (some (.error (fault.locate s.reading.source.text)), { s with place := .ended })

/-- Delivers what is at an offset. -/
def nextAt (pos : Nat) (expected : Expectation) :
    Option (Option (Except Diagnostic Form) × FormStream) :=
  match s.reading.step pos expected with
  | some (.form f next expected) => some (some (.ok f), { s with place := .next next expected })
  | some .finished => some (none, { s with place := .ended })
  | some (.failed fault) => some (s.fail fault)
  | none => none

/-- Delivers the next item, if there is one, and the rest of the stream. The whole
result is absent if the reading does not come to an end. -/
def next : Option (Option (Except Diagnostic Form) × FormStream) :=
  match s.place with
  | .fresh =>
    match s.reading.start with
    | some (.ok pos) => s.nextAt pos Expectation.none
    | some (.error fault) => some (s.fail fault)
    | none => none
  | .next pos expected => s.nextAt pos expected
  | .ended => some (none, s)

/-- Delivers at most so many items, and tells whether the stream ended before. -/
def take : Nat → FormStream → Option (List (Except Diagnostic Form) × Bool)
  | 0, _ => some ([], false)
  | n + 1, s =>
    match s.next with
    | some (some item, s) => (take n s).map fun (items, ended) => (item :: items, ended)
    | some (none, _) => some ([], true)
    | none => none

end FormStream

namespace Grammar

/-- The forms of a text, one at a time. -/
def stream (g : Grammar) (t : Text) : FormStream := ⟨g.reading t, .fresh⟩

end Grammar

end LispReader
