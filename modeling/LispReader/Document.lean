import LispReader.Origin
import LispReader.Reading
import LispReader.Text.Utf8

/-!
# Documents

A document is a source that was read as a whole: its text and its forms, whose
spans refer to the text. Loading one from bytes can fail for what is wrong with
the bytes, with the text, or with the request itself.
-/

namespace LispReader

/-- A text and the forms read from it. -/
structure Document where
  text : Text
  forms : List Form
  deriving DecidableEq, Repr

/-- Why there is no document, or no form. -/
inductive ReadError where
  | parse (diagnostic : Diagnostic)
  | decode (error : DecodeError)
  | registry (error : RegistryError)
  deriving DecidableEq, Repr

namespace ReadError

/-- The error in words. -/
def message : ReadError → String
  | parse d => d.render
  | decode e => e.message
  | registry e => e.message

/-- The error in words, with the origin of the source. An error with a position
has the origin behind it; any other error, in front. -/
def messageFrom (origin : Origin) : ReadError → String
  | parse d => s!"{d.message} {origin.renderAt d.position}"
  | decode (.illFormed bytes position _) =>
    s!"{DecodeError.illFormedMessage bytes} {origin.renderAt position}"
  | e => s!"{origin.render}: {e.message}"

/-- The error that a slot does not read a source. -/
def ofSlotError : SlotError → ReadError
  | .registry e => registry e
  | .source d => parse d

end ReadError

namespace Document

/-- The text at a span, or nothing if the span does not fit the document. -/
def textAt (d : Document) (span : Span) : Text := (span.slice? d.text).getD []

end Document

namespace Grammar

/-- Decodes a byte stream and reads all forms of its text. -/
def load (g : Grammar) (stream : ByteStream) : Option (Except ReadError Document) :=
  match Utf8.decode stream with
  | .error e => some (.error (.decode e))
  | .ok text =>
    (g.read text).map fun
      | .ok forms => .ok ⟨text, forms⟩
      | .error d => .error (.parse d)

end Grammar

end LispReader
