import LispReader.Rule.Script
import LispReader.Rule.Token
import LispReader.Source

/-!
# Rules

The rules that the slots of a grammar hold. The rules of the notation are a closed
choice; a dialect adds rules of its own as scripts. Rules that need others hold
the handles of their slots, so they run whatever the grammar at hand has there.

Rules with a loop take the number of rounds after which they are cut off.
-/

namespace LispReader

/-- What a rule sees while it runs: the source, and how much deeper it may nest. -/
structure View where
  source : Source
  depth : Depth

namespace View

/-- The text from an offset on. -/
def rest (v : View) (pos : Nat) : Text := v.source.rest pos

end View

/-- A rule that makes a form. -/
inductive NodeRule where
  /-- An atom of characters that are not reserved. -/
  | atom (reserved : Char → Bool)
  /-- A string literal. -/
  | string
  /-- Parentheses around any number of expressions. -/
  | list (expression : NodeHandle) (trivia : SkipHandle)
  /-- A quote operator in front of an expression. -/
  | quote (expression : NodeHandle) (trivia : SkipHandle)
  /-- The first of several rules that applies, and trivia behind it. -/
  | alternation (alternatives : List NodeHandle) (trivia : SkipHandle)
  /-- A rule of a dialect. -/
  | custom (script : View → Nat → Script Form)

/-- A rule that skips text. -/
inductive SkipRule where
  /-- Blank characters. -/
  | whitespace
  /-- A comment with its line feed. -/
  | comment
  /-- A line that names an interpreter. -/
  | shebang
  /-- Any mix of several rules. -/
  | trivia (parts : List SkipHandle)
  /-- A rule of a dialect. -/
  | custom (script : View → Nat → Script Unit)

open Script

namespace SkipRule

/-- Skips what each of several slots accepts, one behind the other. -/
def eachPart (depth : Depth) : List SkipHandle → Nat → (Nat → Script Unit) → Script Unit
  | [], pos, resume => resume pos
  | part :: parts, pos, resume =>
    skipOptional part depth pos fun next => eachPart depth parts next resume

/-- Goes through the parts of trivia until a round skips nothing. It never rejects,
and expects nothing: no message should ask for trivia. -/
def triviaFrom (parts : List SkipHandle) (depth : Depth) : Nat → Nat → Script Unit
  | 0, _ => unfinished
  | rounds + 1, pos =>
    eachPart depth parts pos fun next =>
      if next = pos then answer (.done () pos) else triviaFrom parts depth rounds next

/-- The rule at work on an offset. -/
def script (rounds : Nat) (v : View) (pos : Nat) : SkipRule → Script Unit
  | whitespace => answer (Token.whitespace (v.rest pos) pos)
  | comment => answer (Token.comment (v.rest pos) pos)
  | shebang => answer (Token.shebang (v.rest pos) pos)
  | trivia parts => triviaFrom parts v.depth rounds pos
  | custom rule => rule v pos

end SkipRule

namespace NodeRule

/-- Reads the items of a list until an expression is rejected, or one takes no
text and so is the last. Items come with the last one first, and with the merged
expectations of all attempts. -/
def itemsFrom (expression : NodeHandle) (inner : Depth)
    (finish : List Form → Nat → Expectation → Script Form) :
    Nat → List Form → Nat → Expectation → Script Form
  | 0, _, _, _ => unfinished
  | rounds + 1, items, pos, expected =>
    askNode expression inner pos fun
      | .accept item next e =>
        if next = pos then finish (item :: items) pos (expected.merge e)
        else itemsFrom expression inner finish rounds (item :: items) next (expected.merge e)
      | .reject e => finish items pos (expected.merge e)
      | .abort fault => answer (.abort fault)

/-- Ends a list that began at an offset, with its items in reverse. -/
def closeList (v : View) (start : Nat) (items : List Form) (pos : Nat) (expected : Expectation) :
    Script Form :=
  if [Alphabet.closeParen].isPrefixOf (v.rest pos) then
    let stop := pos + Alphabet.closeParen.utf8Size
    answer (.accept (.list items.reverse ⟨start, stop⟩) stop expected)
  else answer (.reject (expected.merge (Expectation.one pos Wanted.closingParen)))

/-- An opening parenthesis, trivia, expressions and a closing parenthesis. -/
def listScript (expression : NodeHandle) (trivia : SkipHandle) (rounds : Nat) (v : View)
    (pos : Nat) : Script Form :=
  if [Alphabet.openParen].isPrefixOf (v.rest pos) then
    match v.depth.inner? with
    | none => answer (.abortAt pos .nestingTooDeep)
    | some inner =>
      skipOptional trivia v.depth (pos + Alphabet.openParen.utf8Size) fun next =>
        itemsFrom expression inner (closeList v pos) rounds [] next Expectation.none
  else answer (.missing pos Wanted.openingParen)

/-- The list that a quote operator at an offset abbreviates. The symbol for the
operator has the span of the operator. -/
def quoteForm (op : QuoteOperator) (pos : Nat) (quoted : Form) : Form :=
  .list [.atom op.name.toList ⟨pos, pos + Text.width op.sign⟩, quoted] ⟨pos, quoted.span.stop⟩

/-- A quote operator, trivia and one expression, nested like a list. -/
def quoteScript (expression : NodeHandle) (trivia : SkipHandle) (v : View) (pos : Nat) :
    Script Form :=
  match QuoteOperator.ofText? (v.rest pos) with
  | none => answer (.missing pos Wanted.quote)
  | some op =>
    match v.depth.inner? with
    | none => answer (.abortAt pos .nestingTooDeep)
    | some inner =>
      skipOptional trivia v.depth (pos + Text.width op.sign) fun next =>
        askNode expression inner next fun reply => answer (reply.map (quoteForm op pos))

/-- Tries slots in order at one offset. The first that accepts is followed by
trivia; when all reject, their expectations are merged. -/
def firstOf (trivia : SkipHandle) (depth : Depth) (pos : Nat) :
    List NodeHandle → Expectation → Script Form
  | [], expected => answer (.reject expected)
  | slot :: slots, expected =>
    askNode slot depth pos fun
      | .accept value next e =>
        skipOptional trivia depth next fun stop =>
          answer (.accept value stop (expected.merge e))
      | .reject e => firstOf trivia depth pos slots (expected.merge e)
      | .abort fault => answer (.abort fault)

/-- The rule at work on an offset. -/
def script (rounds : Nat) (v : View) (pos : Nat) : NodeRule → Script Form
  | atom reserved => answer (Token.atom reserved (v.rest pos) pos)
  | string => answer (Token.string (v.rest pos) pos)
  | list expression trivia => listScript expression trivia rounds v pos
  | quote expression trivia => quoteScript expression trivia v pos
  | alternation alternatives trivia =>
    firstOf trivia v.depth pos alternatives Expectation.none
  | custom rule => rule v pos

end NodeRule

/-- The two kinds of rules, and of the slots that hold them. -/
inductive RuleKind where
  | node
  | skip
  deriving DecidableEq, Repr

namespace RuleKind

def name : RuleKind → String
  | node => "node"
  | skip => "skip"

end RuleKind

/-- A rule of either kind. -/
inductive Rule where
  | node (rule : NodeRule)
  | skip (rule : SkipRule)

namespace Rule

def kind : Rule → RuleKind
  | node _ => .node
  | skip _ => .skip

/-- A description of a rule, which shows its kind and not its workings. -/
def render : Rule → String
  | node _ => "Rule::Node(..)"
  | skip _ => "Rule::Skip(..)"

end Rule

end LispReader
