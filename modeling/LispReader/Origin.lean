import LispReader.Position
import LispReader.Text.Quoted

/-!
# Origins

Where a source came from, for messages: a file, or something else with a name. An
origin is named in front of a reason, or together with a position behind it.
-/

namespace LispReader

/-- Where a source came from. -/
inductive Origin where
  | file (path : String)
  | named (name : String)
  deriving DecidableEq, Repr

namespace Origin

/-- The origin by itself, to be put in front of a colon and the reason. -/
def render : Origin → String
  | file path => String.ofList (Text.quoted path.toList)
  | named name => s!"({name})"

/-- The origin with a position, to be put behind the reason. For files this is the
form that editors recognize. -/
def renderAt (p : Position) : Origin → String
  | file path => s!"in {path}:{p.line}:{p.column}"
  | named name => s!"from ({name}) {p.render}"

end Origin

end LispReader
