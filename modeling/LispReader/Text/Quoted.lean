import LispReader.Text.Basic
import LispReader.Text.Printable

/-!
# Quoted texts

Texts between quotation marks, for outlines and error messages. Quotation mark
and backslash are escaped, the common controls have letters, and every other
unprintable character is written by its code point in lower-case hexadecimal.
An apostrophe stays as it is.
-/

namespace LispReader

namespace Text

/-- One character as it stands between quotation marks. -/
def quotedChar (c : Char) : Text :=
  if c = '\x00' then ['\\', '0']
  else if c = '\t' then ['\\', 't']
  else if c = '\n' then ['\\', 'n']
  else if c = '\r' then ['\\', 'r']
  else if c = '\x22' then ['\\', '\x22']
  else if c = '\\' then ['\\', '\\']
  else if isPrintable c then [c]
  else ['\\', 'u', '\x7b'] ++ Nat.toDigits 16 c.toNat ++ ['\x7d']

/-- A text between quotation marks. -/
def quoted (t : Text) : Text := '\x22' :: t.flatMap quotedChar ++ ['\x22']

end Text

end LispReader
