import LispReader.Command

/-!
# The program

The only part that touches the outside: arguments, the input file or the standard
input, and the output streams.
-/

namespace LispReader

namespace Command

/-- The reason for a failure of the system, with its number. Opening a file gives
the number negated, and is short about long names. -/
def reason (code : UInt32) (details : String) : String :=
  let number := if code < 0x80000000 then code else 0 - code
  let words := if number = 36 then "File name too long" else details.capitalize
  s!"{words} (os error {number})"

/-- The failures that opening or reading a file can come to. -/
def reasonOf : IO.Error → String
  | .noFileOrDirectory _ code details => reason code details
  | .permissionDenied _ code details => reason code details
  | .inappropriateType _ code details => reason code details
  | .invalidArgument _ code details => reason code details
  | e => toString e

/-- Reads chunks up to the first empty one; those read so far come in reverse. -/
partial def readChunks (input : IO.FS.Stream) (chunks : List (List UInt8)) :
    IO (List (List UInt8)) := do
  let chunk ← input.read 8192
  if chunk.isEmpty then return chunks.reverse else readChunks input (chunk.toList :: chunks)

/-- The input of a request. -/
def Request.fetch (r : Request) : IO (Except String ByteStream) := do
  try
    if r.path = "-" then return .ok ⟨← readChunks (← IO.getStdin) [], none⟩
    else return .ok ⟨[(← IO.FS.readBinFile r.path).toList], none⟩
  catch e => return .error (reasonOf e)

end Command

end LispReader

/-- Carries out the request that the arguments make. -/
def main (args : List String) : IO UInt32 := do
  let outcome ←
    match LispReader.Command.Request.ofArguments args with
    | .ok request =>
      let input ← request.fetch
      pure ((request.run input).getD
        (LispReader.Command.failure [] "the rules do not come to an end"))
    | .error message => pure (LispReader.Command.usage message)
  (← IO.getStdout).putStr (String.ofList outcome.stdout)
  (← IO.getStderr).putStr (String.ofList outcome.stderr)
  return outcome.code
