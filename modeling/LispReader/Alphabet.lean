import LispReader.Text.Basic
import LispReader.Text.Blank

/-!
# The characters of the notation

Which characters have a meaning in the notation, the quote operators with the
symbols that they abbreviate, and the letters that stand for characters inside a
string literal.
-/

namespace LispReader

namespace Alphabet

/-- The mark at both ends of a string literal. -/
def quotation : Char := '\x22'

/-- Takes away the meaning of a character in an atom, gives one to a letter in a string. -/
def escape : Char := '\\'

def openParen : Char := '('

def closeParen : Char := ')'

/-- Starts a comment, which runs to the end of its line. -/
def semicolon : Char := ';'

/-- The beginning of a line that names an interpreter. -/
def shebang : Text := ['#', '!']

/-- Whether a character ends an atom of the standard notation unless it is escaped. -/
def isReserved (c : Char) : Bool :=
  Text.isBlank c ||
    c ∈ ['\x27', '\x60', ',', openParen, closeParen, quotation, escape, semicolon]

/-- The character that a letter means behind an escape in a string literal. -/
def escaped? (letter : Char) : Option Char :=
  if letter = quotation then some quotation
  else if letter = escape then some escape
  else if letter = 'b' then some '\x08'
  else if letter = 'f' then some '\x0c'
  else if letter = 'n' then some '\n'
  else if letter = 'r' then some '\r'
  else if letter = 't' then some '\t'
  else if letter = 'v' then some '\x0b'
  else if letter = '0' then some '\x00'
  else none

/-- The letter that means a character behind an escape, for those that a written
string literal does not hold as they are. -/
def letter? (c : Char) : Option Char :=
  if c = quotation then some quotation
  else if c = escape then some escape
  else if c = '\x08' then some 'b'
  else if c = '\x0c' then some 'f'
  else if c = '\n' then some 'n'
  else if c = '\r' then some 'r'
  else if c = '\t' then some 't'
  else if c = '\x0b' then some 'v'
  else if c = '\x00' then some '0'
  else none

theorem escaped?_eq_some_iff {letter c : Char} :
    escaped? letter = some c ↔ letter? c = some letter := by
  constructor
  · intro h
    unfold escaped? at h
    repeat' split at h
    all_goals first | (cases h; subst_vars; rfl) | cases h
  · intro h
    unfold letter? at h
    repeat' split at h
    all_goals first | (cases h; subst_vars; rfl) | cases h

end Alphabet

/-- The operators that abbreviate a list of two items. -/
inductive QuoteOperator where
  | quote
  | quasiquote
  | unquote
  | unquoteSplicing
  deriving DecidableEq, Repr

namespace QuoteOperator

/-- How an operator is written. -/
def sign : QuoteOperator → Text
  | quote => ['\x27']
  | quasiquote => ['\x60']
  | unquote => [',']
  | unquoteSplicing => [',', '@']

/-- The first item of the list that an operator abbreviates. -/
def name : QuoteOperator → String
  | quote => "quote"
  | quasiquote => "quasiquote"
  | unquote => "unquote"
  | unquoteSplicing => "unquote-splicing"

/-- The operator at the start of a text. A comma followed by `@` is one operator. -/
def ofText? : Text → Option QuoteOperator
  | ',' :: '@' :: _ => some unquoteSplicing
  | ',' :: _ => some unquote
  | '\x27' :: _ => some quote
  | '\x60' :: _ => some quasiquote
  | _ => none

/-- A recognized operator is what the text starts with. -/
theorem sign_isPrefix_of_ofText? {t : Text} {op : QuoteOperator} (h : ofText? t = some op) :
    op.sign <+: t := by
  unfold ofText? at h
  split at h <;> cases h <;> simp [sign]

end QuoteOperator

end LispReader
