import LispReader.Diagnostic
import LispReader.Form.Basic

/-!
# Replies

What a rule answers when it is run at an offset of a source. A rule that rejects
leaves the choice of another rule to its caller; a rule that aborts ends the
reading. Accepting and rejecting both carry what was expected on the way.
-/

namespace LispReader

/-- The answer of a rule. -/
inductive Reply (α : Type) where
  /-- The rule applies, and its text ends in front of `next`. -/
  | accept (value : α) (next : Nat) (expected : Expectation)
  /-- The rule does not apply. -/
  | reject (expected : Expectation)
  /-- The source is wrong, whichever rule is tried. -/
  | abort (fault : Fault)
  deriving DecidableEq, Repr

namespace Reply

variable {α β : Type}

/-- Accepts without any expectation. -/
def done (value : α) (next : Nat) : Reply α := accept value next Expectation.none

/-- Rejects because one thing is missing at an offset. -/
def missing (offset : Nat) (what : String) : Reply α := reject (Expectation.one offset what)

/-- Aborts with a cause at an offset. -/
def abortAt (offset : Nat) (cause : Cause) : Reply α := abort ⟨cause, offset⟩

/-- Changes the value that is accepted. -/
def map (f : α → β) : Reply α → Reply β
  | accept value next expected => accept (f value) next expected
  | reject expected => reject expected
  | abort fault => abort fault

end Reply

end LispReader
