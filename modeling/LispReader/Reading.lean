import LispReader.Grammar.Run

/-!
# Reading

A reading is a grammar at work on a source. It reads all forms at once, one form
at a time, or a single slot over the whole source. A source begins with an
optional line that names an interpreter, then trivia; after that come forms, each
of which skips the trivia behind it, up to the end. Everything is consumed, or
there is one diagnostic.

Results are optional because a grammar may have rules that never come to an end;
the result is absent when the fuel of the reading does not suffice.
-/

namespace LispReader

/-- A grammar at work on a source. -/
structure Reading where
  grammar : Grammar
  source : Source
  fuel : Nat

/-- What comes next at some offset. -/
inductive Step where
  /-- A form. The next one is to be read behind it, with these expectations so far. -/
  | form (f : Form) (next : Nat) (expected : Expectation)
  /-- The end of the source. -/
  | finished
  /-- Neither. -/
  | failed (fault : Fault)
  deriving DecidableEq, Repr

/-- Why a single slot does not read a source. -/
inductive SlotError where
  | registry (error : RegistryError)
  | source (diagnostic : Diagnostic)
  deriving DecidableEq, Repr

namespace Reading

variable (r : Reading)

/-- The reply of a slot for forms. -/
def node (slot : NodeHandle) (depth : Depth) (pos : Nat) : Option (Reply Form) :=
  r.grammar.runNode r.source r.fuel slot depth pos

/-- The reply of a slot for text to be skipped. -/
def skip (slot : SkipHandle) (depth : Depth) (pos : Nat) : Option (Reply Unit) :=
  r.grammar.runSkip r.source r.fuel slot depth pos

/-- The offset behind the text that a slot skips, if it skips any. -/
def skipOptional (slot : SkipHandle) (depth : Depth) (pos : Nat) : Option (Except Fault Nat) :=
  match r.skip slot depth pos with
  | some (.accept _ next _) => some (.ok next)
  | some (.reject _) => some (.ok pos)
  | some (.abort fault) => some (.error fault)
  | none => none

/-- The nesting that the source begins with. -/
def depth : Depth := r.grammar.settings.depth

/-- Where the first form is to be read. -/
def start : Option (Except Fault Nat) :=
  if r.grammar.settings.allowShebang then
    match r.skipOptional Grammar.shebang r.depth 0 with
    | some (.ok pos) => r.skipOptional Grammar.trivia r.depth pos
    | other => other
  else r.skipOptional Grammar.trivia r.depth 0

/-- The fault that neither what was expected nor the end of the source is there. -/
def notEnded (expected : Expectation) (pos : Nat) : Fault :=
  .ofExpectation (expected.merge (Expectation.one pos Wanted.endOfInput))

/-- Reads the form at an offset. A form that takes no text is an error, because
the next one would be read at the same offset again. -/
def step (pos : Nat) (expected : Expectation) : Option Step :=
  match r.node Grammar.expression r.depth pos with
  | some (.accept f next e) =>
    if next = pos then some (.failed (notEnded (expected.merge e) pos))
    else some (.form f next (expected.merge e))
  | some (.reject e) =>
    if pos = r.source.width then some .finished
    else some (.failed (notEnded (expected.merge e) pos))
  | some (.abort fault) => some (.failed fault)
  | none => none

/-- Reads forms from an offset to the end, given those in front of it in reverse.
The number limits how many more are tried. -/
def formsFrom : Nat → List Form → Nat → Expectation → Option (Except Fault (List Form))
  | 0, _, _, _ => none
  | rounds + 1, forms, pos, expected =>
    match r.step pos expected with
    | some (.form f next expected) => formsFrom rounds (f :: forms) next expected
    | some .finished => some (.ok forms.reverse)
    | some (.failed fault) => some (.error fault)
    | none => none

/-- Looks up the position of a fault in the source. -/
def locate {α : Type} (result : Except Fault α) : Except Diagnostic α :=
  result.mapError (Fault.locate · r.source.text)

/-- Reads all forms. -/
def forms : Option (Except Diagnostic (List Form)) :=
  match r.start with
  | some (.ok pos) => (r.formsFrom r.fuel [] pos Expectation.none).map r.locate
  | some (.error fault) => some (.error (fault.locate r.source.text))
  | none => none

/-- Reads one form with some slot, and trivia around it, over the whole source. -/
def formBy (handle : NodeHandle) : Option (Except Fault Form) :=
  match r.skipOptional Grammar.trivia r.depth 0 with
  | some (.ok pos) =>
    match r.node handle r.depth pos with
    | some (.accept f next expected) =>
      match r.skipOptional Grammar.trivia r.depth next with
      | some (.ok stop) =>
        if stop = r.source.width then some (.ok f) else some (.error (notEnded expected stop))
      | some (.error fault) => some (.error fault)
      | none => none
    | some (.reject expected) => some (.error (.ofExpectation expected))
    | some (.abort fault) => some (.error fault)
    | none => none
  | some (.error fault) => some (.error fault)
  | none => none

/-- Reads the whole source as one form of some slot. -/
def slot (handle : NodeHandle) : Option (Except Diagnostic Form) :=
  (r.formBy handle).map r.locate

end Reading

namespace Grammar

variable (g : Grammar)

/-- A reading with fuel for all rules that go forward. -/
def reading (t : Text) : Reading :=
  let source := Source.ofText t
  ⟨g, source, g.enoughFuel source⟩

/-- Reads all forms of a text. -/
def read (t : Text) : Option (Except Diagnostic (List Form)) := (g.reading t).forms

/-- Reads a text as one form of the slot with some name. -/
def readSlot (name : String) (t : Text) : Option (Except SlotError Form) :=
  match g.nodeHandle name with
  | .error error => some (.error (.registry error))
  | .ok handle => ((g.reading t).slot handle).map (·.mapError .source)

end Grammar

end LispReader
