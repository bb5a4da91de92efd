import LispReader.Position
import LispReader.Text.Basic

/-!
# Decoding UTF-8

A source arrives as bytes, in chunks of any size, and is decoded byte by byte. The
bytes of an unfinished character are kept until it is complete or cannot become
one; then the bytes kept are what is reported, or the new byte if there are none.
The result does not depend on where chunks begin and end.

An empty chunk is an end of input: nothing behind it is looked at. A stream can
also end in a failure to read, which outranks an unfinished character.
-/

namespace LispReader

/-- Bytes in the chunks in which they can be read, and how reading ends. -/
structure ByteStream where
  chunks : List (List UInt8)
  /-- Why nothing can be read behind the last chunk, unless it is the end of input. -/
  failure : Option String := none
  deriving DecidableEq, Repr

/-- Why a byte stream has no text. -/
inductive DecodeError where
  /-- The stream could not be read. -/
  | io (reason : String)
  /-- Some bytes are not UTF-8; the position is the end of the text in front of them. -/
  | illFormed (bytes : List UInt8) (position : Position) (offset : Nat)
  deriving DecidableEq, Repr

namespace Utf8

/-- Whether a byte can go on with a character of several bytes. -/
def isContinuation (b : UInt8) : Bool := 0x80 ≤ b && b ≤ 0xbf

/-- Whether a byte can begin a character of several bytes. -/
def isLead (b : UInt8) : Bool := 0xc2 ≤ b && b ≤ 0xf4

/-- Whether a byte can be the second of a character. Some leading bytes allow only
a part of the continuation bytes: the others would spell a character that has a
shorter form, a surrogate, or a number too large. -/
def isSecond (lead b : UInt8) : Bool :=
  if lead = 0xe0 then 0xa0 ≤ b && b ≤ 0xbf
  else if lead = 0xed then 0x80 ≤ b && b ≤ 0x9f
  else if lead = 0xf0 then 0x90 ≤ b && b ≤ 0xbf
  else if lead = 0xf4 then 0x80 ≤ b && b ≤ 0x8f
  else isContinuation b

/-- The low six bits of a continuation byte, behind the bits of the bytes before it. -/
def shiftIn (bits : Nat) (b : UInt8) : Nat := bits * 64 + b.toNat % 64

/-- What some bytes are, of which all but the last can begin a character. -/
inductive Kind where
  /-- A whole character. -/
  | complete (c : Char)
  /-- The beginning of characters. -/
  | incomplete
  /-- Neither. -/
  | illFormed
  deriving DecidableEq, Repr

/-- What bytes are, given that all but the last are the beginning of a character. -/
def classify : List UInt8 → Kind
  | [a] =>
    if a < 0x80 then .complete (Char.ofNat a.toNat)
    else if isLead a then .incomplete
    else .illFormed
  | [a, b] =>
    if isSecond a b then
      if a < 0xe0 then .complete (Char.ofNat (shiftIn (a.toNat % 32) b))
      else .incomplete
    else .illFormed
  | [a, b, c] =>
    if isContinuation c then
      if a < 0xf0 then .complete (Char.ofNat (shiftIn (shiftIn (a.toNat % 16) b) c))
      else .incomplete
    else .illFormed
  | [a, b, c, d] =>
    if isContinuation d then
      .complete (Char.ofNat (shiftIn (shiftIn (shiftIn (a.toNat % 8) b) c) d))
    else .illFormed
  | _ => .illFormed

/-- A decoder between two bytes. -/
structure State where
  /-- The characters so far, the last one first. -/
  decoded : Text
  /-- The bytes of an unfinished character. -/
  pending : List UInt8
  deriving DecidableEq, Repr

namespace State

/-- Before the first byte. -/
def initial : State := ⟨[], []⟩

/-- The text so far. -/
def text (s : State) : Text := s.decoded.reverse

/-- The error that some bytes behind the text so far are not UTF-8. -/
def illFormed (s : State) (bytes : List UInt8) : DecodeError :=
  .illFormed bytes (Position.ofOffset s.text (Text.width s.text)) (Text.width s.text)

/-- Takes a byte. -/
def push (s : State) (b : UInt8) : Except DecodeError State :=
  match classify (s.pending ++ [b]) with
  | .complete c => .ok ⟨c :: s.decoded, []⟩
  | .incomplete => .ok ⟨s.decoded, s.pending ++ [b]⟩
  | .illFormed => .error (s.illFormed (if s.pending = [] then [b] else s.pending))

/-- Takes bytes up to the first that rules out a text. -/
def pushAll (s : State) : List UInt8 → Except DecodeError State
  | [] => .ok s
  | b :: bs =>
    match s.push b with
    | .ok s => s.pushAll bs
    | .error e => .error e

/-- The text, if nothing is unfinished at the end of input. -/
def finish (s : State) : Except DecodeError Text :=
  if s.pending = [] then .ok s.text else .error (s.illFormed s.pending)

/-- Takes chunks up to the first empty one, then the end of the stream. -/
def drain (s : State) (failure : Option String) : List (List UInt8) → Except DecodeError Text
  | [] =>
    match failure with
    | some reason => .error (.io reason)
    | none => s.finish
  | [] :: _ => s.finish
  | (b :: bs) :: chunks =>
    match s.pushAll (b :: bs) with
    | .ok s => s.drain failure chunks
    | .error e => .error e

end State

/-- The text of a byte stream. -/
def decode (stream : ByteStream) : Except DecodeError Text :=
  State.initial.drain stream.failure stream.chunks

namespace State

theorem pushAll_append (s : State) (bs cs : List UInt8) :
    s.pushAll (bs ++ cs) = (s.pushAll bs).bind (·.pushAll cs) := by
  induction bs generalizing s with
  | nil => rfl
  | cons b bs ih =>
    rw [List.cons_append, pushAll, pushAll]
    cases s.push b with
    | ok s => exact ih s
    | error e => rfl

end State

end Utf8

namespace DecodeError

/-- A byte in lower-case hexadecimal, without leading zeros. -/
def hex (b : UInt8) : String := String.ofList (Nat.toDigits 16 b.toNat)

/-- The complaint about bytes that are not UTF-8, without their place. -/
def illFormedMessage (bytes : List UInt8) : String :=
  "invalid UTF-8 byte sequence [" ++ ", ".intercalate (bytes.map hex) ++ "]"

/-- The error in words. -/
def message : DecodeError → String
  | io reason => reason
  | illFormed bytes position _ => s!"{illFormedMessage bytes} {position.render}"

end DecodeError

end LispReader
