import LispReader.Reply

/-!
# Tokens

The rules that run no other rule. Each looks at the text from some offset on and
replies; offsets in the reply are absolute. None of them skips what follows its
token, so a span covers exactly the text of its token.
-/

namespace LispReader

namespace Token

/-- The bytes up to and including the first line feed, or all of them without one. -/
def lineWidth (t : Text) : Nat := go t 0
where
  go : Text → Nat → Nat
  | [], n => n
  | c :: t, n => if c = '\n' then n + c.utf8Size else go t (n + c.utf8Size)

/-- One or more blank characters. -/
def whitespace (t : Text) (pos : Nat) : Reply Unit :=
  let n := Text.width (t.takeWhile Text.isBlank)
  if n = 0 then .missing pos Wanted.whitespace else .done () (pos + n)

/-- A semicolon and the rest of its line, the line feed included. -/
def comment (t : Text) (pos : Nat) : Reply Unit :=
  if [Alphabet.semicolon].isPrefixOf t then .done () (pos + lineWidth t)
  else .missing pos Wanted.comment

/-- A line that names an interpreter, the line feed included. -/
def shebang (t : Text) (pos : Nat) : Reply Unit :=
  if Alphabet.shebang.isPrefixOf t then .done () (pos + lineWidth t)
  else .missing pos Wanted.shebang

/-- Reads characters of an atom for as long as there are any: unreserved ones, and
reserved ones behind an escape. Gives the content, to which the characters read
so far are put in front, and the offset behind the last character. -/
def scanAtom (reserved : Char → Bool) : Text → Nat → Text → Text × Nat
  | [], pos, content => (content.reverse, pos)
  | c :: t, pos, content =>
    if c = Alphabet.escape then
      match t with
      | [] => (content.reverse, pos)
      | e :: t =>
        if reserved e then
          scanAtom reserved t (pos + Alphabet.escape.utf8Size + e.utf8Size) (e :: content)
        else (content.reverse, pos)
    else if reserved c then (content.reverse, pos)
    else scanAtom reserved t (pos + c.utf8Size) (c :: content)

/-- A longest run of at least one character that is not reserved or is escaped. -/
def atom (reserved : Char → Bool) (t : Text) (pos : Nat) : Reply Form :=
  let (content, stop) := scanAtom reserved t pos []
  if stop = pos then .missing pos Wanted.atom
  else .done (.atom content ⟨pos, stop⟩) stop

/-- How the characters behind an opening quotation mark go on. -/
inductive StringEnd where
  /-- Up to a closing mark, behind which the literal stops. -/
  | closed (content : Text) (stop : Nat)
  /-- Up to an escaped character without meaning. -/
  | badEscape (c : Char) (offset : Nat)
  /-- Up to the end of the source. -/
  | missing (stop : Nat)
  deriving DecidableEq, Repr

/-- Reads the characters of a string literal, escapes resolved, until something
ends it; those read so far are put in front. -/
def scanString : Text → Nat → Text → StringEnd
  | [], pos, _ => .missing pos
  | c :: t, pos, content =>
    if c = Alphabet.quotation then .closed content.reverse (pos + Alphabet.quotation.utf8Size)
    else if c = Alphabet.escape then
      match t with
      | [] => .missing (pos + Alphabet.escape.utf8Size)
      | e :: t =>
        match Alphabet.escaped? e with
        | some meant =>
          scanString t (pos + Alphabet.escape.utf8Size + e.utf8Size) (meant :: content)
        | none => .badEscape e (pos + Alphabet.escape.utf8Size)
    else scanString t (pos + c.utf8Size) (c :: content)

/-- A string literal. A literal without end rejects at the end of the source,
where more content or a closing mark was expected. -/
def string (t : Text) (pos : Nat) : Reply Form :=
  match t with
  | [] => .missing pos Wanted.stringLiteral
  | c :: t =>
    if c = Alphabet.quotation then
      match scanString t (pos + Alphabet.quotation.utf8Size) [] with
      | .closed content stop => .done (.string content ⟨pos, stop⟩) stop
      | .badEscape e offset => .abortAt offset (.invalidEscape e)
      | .missing stop =>
        .reject ((Expectation.one stop Wanted.stringContent).merge
          (Expectation.one stop Wanted.stringTerminator))
    else .missing pos Wanted.stringLiteral

end Token

end LispReader
