import LispReader.Reply

/-!
# Scripts

A script is a rule at work on one offset of a source. It either answers, or asks
for the reply of some slot of its grammar and goes on with that reply. A script
knows slots by their handles only: what a slot holds is the business of whoever
runs the script. Every script asks finitely often, whatever the replies are; one
that had to stop before its answer ends in `unfinished`.
-/

namespace LispReader

/-- Refers to the slot with this number among those that make forms. -/
structure NodeHandle where
  index : Nat
  deriving DecidableEq, Repr

/-- Refers to the slot with this number among those that skip text. -/
structure SkipHandle where
  index : Nat
  deriving DecidableEq, Repr

/-- How many more lists may be opened; without a number there is no limit. -/
abbrev Depth := Option Nat

/-- What is left inside one more list, if one may be opened. -/
def Depth.inner? : Depth → Option Depth
  | none => some none
  | some 0 => none
  | some (n + 1) => some (some n)

/-- A rule at work. -/
inductive Script (α : Type) where
  /-- The rule is done. -/
  | answer (reply : Reply α)
  /-- The rule waits for a form at an offset. -/
  | askNode (slot : NodeHandle) (depth : Depth) (pos : Nat) (resume : Reply Form → Script α)
  /-- The rule waits for text to be skipped at an offset. -/
  | askSkip (slot : SkipHandle) (depth : Depth) (pos : Nat) (resume : Reply Unit → Script α)
  /-- The rule was cut off. -/
  | unfinished

namespace Script

variable {α : Type}

/-- Follows a script to its answer, given how slots reply. There is no answer if
the script was cut off, or if a slot that it asks has no reply. -/
def run (node : NodeHandle → Depth → Nat → Option (Reply Form))
    (skip : SkipHandle → Depth → Nat → Option (Reply Unit)) : Script α → Option (Reply α)
  | answer reply => some reply
  | askNode slot depth pos resume =>
    match node slot depth pos with
    | some reply => run node skip (resume reply)
    | none => none
  | askSkip slot depth pos resume =>
    match skip slot depth pos with
    | some reply => run node skip (resume reply)
    | none => none
  | unfinished => none

theorem run_askNode (node : NodeHandle → Depth → Nat → Option (Reply Form))
    (skip : SkipHandle → Depth → Nat → Option (Reply Unit)) (slot : NodeHandle) (depth : Depth)
    (pos : Nat) (resume : Reply Form → Script α) :
    (askNode slot depth pos resume).run node skip =
      (node slot depth pos).bind fun reply => (resume reply).run node skip := by
  rw [run]
  cases node slot depth pos <;> rfl

theorem run_askSkip (node : NodeHandle → Depth → Nat → Option (Reply Form))
    (skip : SkipHandle → Depth → Nat → Option (Reply Unit)) (slot : SkipHandle) (depth : Depth)
    (pos : Nat) (resume : Reply Unit → Script α) :
    (askSkip slot depth pos resume).run node skip =
      (skip slot depth pos).bind fun reply => (resume reply).run node skip := by
  rw [run]
  cases skip slot depth pos <;> rfl

/-- Skips text if the slot accepts any, and goes on behind it; an abort is the answer. -/
def skipOptional (slot : SkipHandle) (depth : Depth) (pos : Nat) (resume : Nat → Script α) :
    Script α :=
  askSkip slot depth pos fun
    | .accept _ next _ => resume next
    | .reject _ => resume pos
    | .abort fault => answer (.abort fault)

theorem run_skipOptional (node : NodeHandle → Depth → Nat → Option (Reply Form))
    (skip : SkipHandle → Depth → Nat → Option (Reply Unit)) (slot : SkipHandle) (depth : Depth)
    (pos : Nat) (resume : Nat → Script α) :
    (skipOptional slot depth pos resume).run node skip =
      match skip slot depth pos with
      | some (.accept _ next _) => (resume next).run node skip
      | some (.reject _) => (resume pos).run node skip
      | some (.abort fault) => some (.abort fault)
      | none => none := by
  rw [skipOptional, run]
  cases skip slot depth pos with
  | none => rfl
  | some reply => cases reply <;> rfl

end Script

end LispReader
