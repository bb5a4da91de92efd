import LispReader.Rule.Basic
import LispReader.Text.Quoted

/-!
# Grammars

A grammar is a collection of named slots, each of which holds a rule of a fixed
kind. Rules refer to each other by slot, so putting another rule into a slot
changes what every rule that uses the slot does, while a rule taken out of a slot
does not notice later replacements. Slots are only ever added: names and handles
keep their meaning.
-/

namespace LispReader

/-- What holds for all readings with a grammar, whatever its rules are. -/
structure Settings where
  /-- Whether a source may begin with a line that names an interpreter. -/
  allowShebang : Bool
  /-- How many lists may lie around a form. -/
  depth : Depth
  deriving DecidableEq, Repr

namespace Settings

/-- For whole files. -/
def standard : Settings := ⟨true, some 500⟩

/-- For whole files, with no limit on nesting. -/
def unlimited : Settings := ⟨true, none⟩

/-- For pieces inside other texts, where an interpreter line has no business. -/
def fragment : Settings := ⟨false, some 500⟩

end Settings

/-- The number of a slot among those of its kind. -/
inductive Slot where
  | node (handle : NodeHandle)
  | skip (handle : SkipHandle)
  deriving DecidableEq, Repr

namespace Slot

def kind : Slot → RuleKind
  | node _ => .node
  | skip _ => .skip

end Slot

/-- Why a grammar refuses a request. -/
inductive RegistryError where
  | unknown (name : String)
  | duplicate (name : String)
  | kindMismatch (name : String) (expected got : RuleKind)
  deriving DecidableEq, Repr

namespace RegistryError

/-- The refusal in words. -/
def message : RegistryError → String
  | unknown name => s!"no rule named '{name}'"
  | duplicate name => s!"a rule named '{name}' already exists"
  | kindMismatch name expected got =>
    s!"rule '{name}': expected a {expected.name} rule, got a {got.name} rule"

end RegistryError

/-- Rules by slot, slots by name, and settings. -/
structure Grammar where
  nodeRules : Array NodeRule
  skipRules : Array SkipRule
  slots : List (String × Slot)
  settings : Settings

namespace Grammar

/-! ## The slots of the notation

Every grammar begins with the same nine slots, so their handles are the same for
all grammars. -/

def whitespace : SkipHandle := ⟨0⟩

def comment : SkipHandle := ⟨1⟩

def trivia : SkipHandle := ⟨2⟩

def shebang : SkipHandle := ⟨3⟩

def atom : NodeHandle := ⟨0⟩

def string : NodeHandle := ⟨1⟩

def list : NodeHandle := ⟨2⟩

def quote : NodeHandle := ⟨3⟩

def expression : NodeHandle := ⟨4⟩

/-- The nine slots with their names. -/
def builtins : List (String × Slot) :=
  [("whitespace", .skip whitespace), ("comment", .skip comment), ("trivia", .skip trivia),
   ("shebang", .skip shebang), ("atom", .node atom), ("string", .node string),
   ("list", .node list), ("quote", .node quote), ("expression", .node expression)]

/-- The grammar of the notation. -/
def standard (settings : Settings) : Grammar where
  nodeRules := #[.atom Alphabet.isReserved, .string, .list expression trivia,
    .quote expression trivia, .alternation [list, atom, string, quote] trivia]
  skipRules := #[.whitespace, .comment, .trivia [comment, whitespace], .shebang]
  slots := builtins
  settings := settings

/-! ## Slots by name -/

variable (g : Grammar)

/-- The slot with a name. -/
def slot? (name : String) : Option Slot := g.slots.lookup name

/-- The handle of a slot for forms. -/
def nodeHandle (name : String) : Except RegistryError NodeHandle :=
  match g.slot? name with
  | some (.node handle) => .ok handle
  | some (.skip _) => .error (.kindMismatch name .node .skip)
  | none => .error (.unknown name)

/-- The handle of a slot for text to be skipped. -/
def skipHandle (name : String) : Except RegistryError SkipHandle :=
  match g.slot? name with
  | some (.skip handle) => .ok handle
  | some (.node _) => .error (.kindMismatch name .skip .node)
  | none => .error (.unknown name)

/-- The names of all slots in ascending order. -/
def names : List String := (g.slots.map Prod.fst).mergeSort

/-- The rule that a slot holds now. -/
def ruleOf (name : String) : Except RegistryError Rule :=
  match g.slot? name with
  | some (.node handle) =>
    match g.nodeRules[handle.index]? with
    | some rule => .ok (.node rule)
    | none => .error (.unknown name)
  | some (.skip handle) =>
    match g.skipRules[handle.index]? with
    | some rule => .ok (.skip rule)
    | none => .error (.unknown name)
  | none => .error (.unknown name)

/-- Puts a rule into an existing slot of its kind. -/
def replace (name : String) (rule : Rule) : Except RegistryError Grammar :=
  match g.slot? name, rule with
  | none, _ => .error (.unknown name)
  | some (.node handle), .node rule =>
    .ok { g with nodeRules := g.nodeRules.setIfInBounds handle.index rule }
  | some (.skip handle), .skip rule =>
    .ok { g with skipRules := g.skipRules.setIfInBounds handle.index rule }
  | some slot, rule => .error (.kindMismatch name slot.kind rule.kind)

/-- Adds a slot that holds a rule. -/
def define (name : String) (rule : Rule) : Except RegistryError Grammar :=
  match g.slot? name, rule with
  | some _, _ => .error (.duplicate name)
  | none, .node rule =>
    .ok { g with
      nodeRules := g.nodeRules.push rule
      slots := g.slots ++ [(name, .node ⟨g.nodeRules.size⟩)] }
  | none, .skip rule =>
    .ok { g with
      skipRules := g.skipRules.push rule
      slots := g.slots ++ [(name, .skip ⟨g.skipRules.size⟩)] }

end Grammar

/-! ## Descriptions -/

namespace NodeHandle

def render (h : NodeHandle) : String := s!"NodeHandle({h.index})"

end NodeHandle

namespace SkipHandle

def render (h : SkipHandle) : String := s!"SkipHandle({h.index})"

end SkipHandle

namespace Slot

def render : Slot → String
  | node handle => handle.render
  | skip handle => handle.render

end Slot

namespace Settings

def render (s : Settings) : String :=
  let depth :=
    match s.depth with
    | some n => s!"Some({n})"
    | none => "None"
  s!"Settings \x7b allow_shebang: {s.allowShebang}, depth_fuel: {depth} \x7d"

end Settings

namespace Grammar

/-- The slots that every grammar begins with. -/
def renderBuiltins : String :=
  let fields := builtins.map fun b => b.1 ++ ": " ++ b.2.render
  "Builtins \x7b " ++ ", ".intercalate fields ++ " \x7d"

/-- The names and settings of a grammar; rules are not shown. -/
def render (g : Grammar) : String :=
  let names := g.names.map fun name => String.ofList (Text.quoted name.toList)
  "Grammar \x7b slots: [" ++ ", ".intercalate names ++ "], settings: " ++ g.settings.render ++
    " \x7d"

end Grammar

end LispReader
