import LispReader.Expectation
import LispReader.Position
import LispReader.Text.Basic

/-!
# Diagnostics

Why a source cannot be read, and where. A cause says what is wrong, a fault adds
the offset, and a diagnostic the position for people.
-/

namespace LispReader

/-! ## What the rules of the notation say they expect -/

namespace Wanted

def atom : String := "atom"

def stringLiteral : String := "string literal"

def stringContent : String := "string content"

def stringTerminator : String := "string terminator"

def openingParen : String := "opening paren"

def closingParen : String := "closing paren"

def quote : String := "quote"

def endOfInput : String := "end of input"

def whitespace : String := "whitespace"

def comment : String := "comment"

def shebang : String := "shebang"

end Wanted

/-! ## Causes, faults and diagnostics -/

/-- What is wrong with a source. -/
inductive Cause where
  /-- None of these things was found. -/
  | unexpected (wanted : List String)
  /-- Nothing was found, and nothing in particular was expected. -/
  | unexpectedInput
  /-- A string literal has no end. -/
  | unterminatedString
  /-- A string literal has a backslash in front of a character without meaning there. -/
  | invalidEscape (c : Char)
  /-- Lists are nested deeper than allowed. -/
  | nestingTooDeep
  deriving DecidableEq, Repr

namespace Cause

/-- The cause in words. -/
def message : Cause → String
  | unexpected wanted => "expected " ++ " or ".intercalate wanted
  | unexpectedInput => "unexpected input"
  | unterminatedString => "unterminated string literal"
  | invalidEscape c => "invalid escaped character '" ++ c.toString ++ "' in string literal"
  | nestingTooDeep => "nesting too deep"

/-- The cause that unmet expectations amount to. A missing end of a string says
more than the list of all that could have stood there. -/
def ofExpectation (e : Expectation) : Cause :=
  if e.contains Wanted.stringTerminator then unterminatedString
  else if e.isNone then unexpectedInput
  else unexpected e.items

end Cause

/-- A cause at an offset. -/
structure Fault where
  cause : Cause
  offset : Nat
  deriving DecidableEq, Repr

/-- A cause at an offset, with the position that the offset has in its source. -/
structure Diagnostic where
  cause : Cause
  position : Position
  offset : Nat
  deriving DecidableEq, Repr

namespace Fault

/-- The fault that unmet expectations amount to. -/
def ofExpectation (e : Expectation) : Fault := ⟨Cause.ofExpectation e, e.offset⟩

/-- Looks up the position of a fault. -/
def locate (f : Fault) (t : Text) : Diagnostic :=
  ⟨f.cause, Position.ofOffset t f.offset, f.offset⟩

end Fault

namespace Diagnostic

/-- The cause in words. -/
def message (d : Diagnostic) : String := d.cause.message

/-- Cause and position in words. -/
def render (d : Diagnostic) : String := s!"{d.message} {d.position.render}"

end Diagnostic

end LispReader
