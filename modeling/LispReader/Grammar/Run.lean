import LispReader.Grammar.Basic

/-!
# Running the slots of a grammar

A slot is run by following the script of the rule it holds, and running in turn
the slots that the script asks for. Nothing keeps the rules of a grammar from
calling each other forever, so runs are limited by fuel: it bounds how many runs
may be open at once, and the rounds of every loop. A run that needs more has no
reply. A handle without a slot rejects and expects nothing.
-/

namespace LispReader

namespace Grammar

variable (g : Grammar) (source : Source)

mutual
/-- The reply of the slot for forms with some handle. -/
def runNode : Nat → NodeHandle → Depth → Nat → Option (Reply Form)
  | 0, _, _, _ => none
  | fuel + 1, slot, depth, pos =>
    match g.nodeRules[slot.index]? with
    | some rule => (rule.script fuel ⟨source, depth⟩ pos).run (runNode fuel) (runSkip fuel)
    | none => some (.reject Expectation.none)

/-- The reply of the slot for text to be skipped with some handle. -/
def runSkip : Nat → SkipHandle → Depth → Nat → Option (Reply Unit)
  | 0, _, _, _ => none
  | fuel + 1, slot, depth, pos =>
    match g.skipRules[slot.index]? with
    | some rule => (rule.script fuel ⟨source, depth⟩ pos).run (runNode fuel) (runSkip fuel)
    | none => some (.reject Expectation.none)
end

/-- Fuel for rules that always go forward. Of runs that are open at once, no two
at the same offset and depth are of the same slot. -/
def enoughFuel : Nat :=
  (g.nodeRules.size + g.skipRules.size + 1) * (source.width + g.settings.depth.getD 0 + 4)

end Grammar

end LispReader
