import LispReader.Reading

/-!
# Visits

The slots that a script asks on its way, each with its reply. The rule in a slot that is
visited visits further slots, so the visits of a reading form a tree, and its history
lists the tree in the order in which the replies were given.

To have visits, a reading of all forms, or of a single slot, is a script here, too: it
asks the slots of its grammar as rules do. These scripts come to the results of the
readings.
-/

namespace LispReader

/-! ## Replies -/

namespace Reply

variable {α : Type}

/-- What was expected on the way to the reply. -/
def expected : Reply α → Expectation
  | accept _ _ e => e
  | reject e => e
  | abort _ => Expectation.none

/-- The fault of a reply that aborts. -/
def fault? : Reply α → Option Fault
  | abort fault => some fault
  | accept _ _ _ => none
  | reject _ => none

/-- What a reply amounts to where no other rule can be tried. -/
def outcome : Reply α → Except Fault α
  | accept value _ _ => .ok value
  | reject e => .error (.ofExpectation e)
  | abort fault => .error fault

@[simp] theorem expected_map {β : Type} (f : α → β) (reply : Reply α) :
    (reply.map f).expected = reply.expected := by
  cases reply <;> rfl

theorem fault?_eq_some_iff {reply : Reply α} {fault : Fault} :
    reply.fault? = some fault ↔ reply = abort fault := by
  cases reply with
  | accept _ _ _ => exact iff_of_false nofun nofun
  | reject _ => exact iff_of_false nofun nofun
  | abort fault' => rw [fault?, Option.some.injEq, abort.injEq]

end Reply

/-! ## Visits of a script -/

/-- A slot that was asked, and its reply, if it came to one. -/
inductive Visit where
  | node (slot : NodeHandle) (depth : Depth) (pos : Nat) (reply : Option (Reply Form))
  | skip (slot : SkipHandle) (depth : Depth) (pos : Nat) (reply : Option (Reply Unit))
  deriving DecidableEq, Repr

namespace Visit

/-- The fault of a visit that aborts. -/
def fault? : Visit → Option Fault
  | node _ _ _ reply => reply.bind Reply.fault?
  | skip _ _ _ reply => reply.bind Reply.fault?

/-- The reply of a visit is what slots reply there. -/
def Made (node : NodeHandle → Depth → Nat → Option (Reply Form))
    (skip : SkipHandle → Depth → Nat → Option (Reply Unit)) : Visit → Prop
  | .node slot depth pos reply => node slot depth pos = reply
  | .skip slot depth pos reply => skip slot depth pos = reply

end Visit

namespace Script

variable {α : Type} {node : NodeHandle → Depth → Nat → Option (Reply Form)}
  {skip : SkipHandle → Depth → Nat → Option (Reply Unit)} {script : Script α} {reply : Reply α}

/-- The slots that a script asks one after the other. One without a reply is the last. -/
def visits (node : NodeHandle → Depth → Nat → Option (Reply Form))
    (skip : SkipHandle → Depth → Nat → Option (Reply Unit)) : Script α → List Visit
  | answer _ => []
  | askNode slot depth pos resume =>
    .node slot depth pos (node slot depth pos) ::
      match node slot depth pos with
      | some reply => visits node skip (resume reply)
      | none => []
  | askSkip slot depth pos resume =>
    .skip slot depth pos (skip slot depth pos) ::
      match skip slot depth pos with
      | some reply => visits node skip (resume reply)
      | none => []
  | unfinished => []

theorem made_of_mem_visits {visit : Visit} (h : visit ∈ script.visits node skip) :
    visit.Made node skip := by
  induction script with
  | answer _ => exact absurd h List.not_mem_nil
  | unfinished => exact absurd h List.not_mem_nil
  | askNode slot depth pos resume ih =>
    rw [visits] at h
    rcases List.mem_cons.mp h with rfl | h
    · rfl
    · split at h
      next reply _ => exact ih reply h
      next => exact absurd h List.not_mem_nil
  | askSkip slot depth pos resume ih =>
    rw [visits] at h
    rcases List.mem_cons.mp h with rfl | h
    · rfl
    · split at h
      next reply _ => exact ih reply h
      next => exact absurd h List.not_mem_nil

/-- A script comes to its answer by these visits. -/
inductive Comes (node : NodeHandle → Depth → Nat → Option (Reply Form))
    (skip : SkipHandle → Depth → Nat → Option (Reply Unit)) :
    Script α → List Visit → Reply α → Prop where
  | answer {reply : Reply α} : Comes node skip (answer reply) [] reply
  | askNode {slot : NodeHandle} {depth : Depth} {pos : Nat} {resume : Reply Form → Script α}
      {found : Reply Form} {visits : List Visit} {reply : Reply α}
      (hfound : node slot depth pos = some found)
      (h : Comes node skip (resume found) visits reply) :
      Comes node skip (askNode slot depth pos resume)
        (.node slot depth pos (some found) :: visits) reply
  | askSkip {slot : SkipHandle} {depth : Depth} {pos : Nat} {resume : Reply Unit → Script α}
      {found : Reply Unit} {visits : List Visit} {reply : Reply α}
      (hfound : skip slot depth pos = some found)
      (h : Comes node skip (resume found) visits reply) :
      Comes node skip (askSkip slot depth pos resume)
        (.skip slot depth pos (some found) :: visits) reply

theorem comes_of_run (h : script.run node skip = some reply) :
    script.Comes node skip (script.visits node skip) reply := by
  induction script with
  | answer _ =>
    obtain rfl := Option.some.inj h
    exact .answer
  | unfinished => exact absurd h nofun
  | askNode slot depth pos resume ih =>
    rw [run] at h
    rw [visits]
    cases hfound : node slot depth pos with
    | none =>
      rw [hfound] at h
      exact absurd h nofun
    | some found =>
      rw [hfound] at h
      exact .askNode hfound (ih found h)
  | askSkip slot depth pos resume ih =>
    rw [run] at h
    rw [visits]
    cases hfound : skip slot depth pos with
    | none =>
      rw [hfound] at h
      exact absurd h nofun
    | some found =>
      rw [hfound] at h
      exact .askSkip hfound (ih found h)

/-- A script that comes to its answer has a reply of each slot that it asks. -/
theorem Comes.exists_found {visits : List Visit} (h : script.Comes node skip visits reply)
    {slot : NodeHandle} {depth : Depth} {pos : Nat} {found : Option (Reply Form)}
    (hvisit : .node slot depth pos found ∈ visits) : ∃ reply, found = some reply := by
  induction h with
  | answer => exact absurd hvisit List.not_mem_nil
  | askNode _ _ ih =>
    rcases List.mem_cons.mp hvisit with heq | hvisit
    · obtain ⟨-, -, -, rfl⟩ := Visit.node.inj heq
      exact ⟨_, rfl⟩
    · exact ih hvisit
  | askSkip _ _ ih =>
    rcases List.mem_cons.mp hvisit with heq | hvisit
    · exact absurd heq nofun
    · exact ih hvisit

/-- Where a script goes on behind text that is skipped if possible, nothing has aborted. -/
theorem comes_skipOptional {slot : SkipHandle} {depth : Depth} {pos : Nat}
    {resume : Nat → Script α} {visits : List Visit}
    (h : (skipOptional slot depth pos resume).Comes node skip visits reply)
    (hreply : reply.fault? = none) :
    ∃ found next rest, visits = .skip slot depth pos found :: rest ∧
      (resume next).Comes node skip rest reply := by
  cases h with
  | @askSkip _ _ _ _ found rest _ _ h =>
    cases found with
    | accept value next e => exact ⟨_, next, rest, rfl, h⟩
    | reject e => exact ⟨_, pos, rest, rfl, h⟩
    | abort fault =>
      cases h with
      | answer => exact absurd hreply nofun

end Script

/-! ## Visits of the slots of a grammar -/

namespace Grammar

variable (g : Grammar) (source : Source)

/-- The slots that the rule in a visited slot asks, if it is run with so much fuel. -/
def visits : Nat → Visit → List Visit
  | 0, _ => []
  | fuel + 1, .node slot depth pos _ =>
    match g.nodeRules[slot.index]? with
    | some rule =>
      (rule.script fuel ⟨source, depth⟩ pos).visits (g.runNode source fuel) (g.runSkip source fuel)
    | none => []
  | fuel + 1, .skip slot depth pos _ =>
    match g.skipRules[slot.index]? with
    | some rule =>
      (rule.script fuel ⟨source, depth⟩ pos).visits (g.runNode source fuel) (g.runSkip source fuel)
    | none => []

/-- A visit behind all visits that it leads to, in the order of the replies. -/
def history : Nat → Visit → List Visit
  | 0, visit => [visit]
  | fuel + 1, visit => (g.visits source (fuel + 1) visit).flatMap (history fuel) ++ [visit]

end Grammar

/-! ## Readings as scripts -/

namespace Reading

variable (r : Reading) {α : Type}

/-- Skips an interpreter line, where one is allowed, and trivia. -/
def startScript (resume : Nat → Script α) : Script α :=
  if r.grammar.settings.allowShebang then
    .skipOptional Grammar.shebang r.depth 0 fun pos =>
      .skipOptional Grammar.trivia r.depth pos resume
  else .skipOptional Grammar.trivia r.depth 0 resume

/-- The answer where neither what was expected is there nor the end of the source. -/
def notEndedScript (expected : Expectation) (pos : Nat) : Script α :=
  .answer (.reject (expected.merge (Expectation.one pos Wanted.endOfInput)))

/-- Asks for forms from an offset to the end, given those in front of it in reverse. -/
def formsScript : Nat → List Form → Nat → Expectation → Script (List Form)
  | 0, _, _, _ => .unfinished
  | rounds + 1, forms, pos, expected =>
    .askNode Grammar.expression r.depth pos fun
      | .accept f next e =>
        if next = pos then notEndedScript (expected.merge e) pos
        else formsScript rounds (f :: forms) next (expected.merge e)
      | .reject e =>
        if pos = r.source.width then .answer (.done forms.reverse pos)
        else notEndedScript (expected.merge e) pos
      | .abort fault => .answer (.abort fault)

/-- The reading of all forms, at work. -/
def script : Script (List Form) :=
  r.startScript fun pos => r.formsScript r.fuel [] pos Expectation.none

/-- The reading of a single slot, at work. -/
def slotScript (handle : NodeHandle) : Script Form :=
  .skipOptional Grammar.trivia r.depth 0 fun pos =>
    .askNode handle r.depth pos fun
      | .accept f next expected =>
        .skipOptional Grammar.trivia r.depth next fun stop =>
          if stop = r.source.width then .answer (.done f stop) else notEndedScript expected stop
      | .reject expected => .answer (.reject expected)
      | .abort fault => .answer (.abort fault)

variable {r}

/-- A script goes on behind what a slot skips, or ends in the fault of the slot. -/
theorem run_skipOptional (slot : SkipHandle) (depth : Depth) (pos : Nat)
    (resume : Nat → Script α) :
    (Script.skipOptional slot depth pos resume).run r.node r.skip =
      (r.skipOptional slot depth pos).bind fun
        | .ok next => (resume next).run r.node r.skip
        | .error fault => some (.abort fault) := by
  rw [Script.run_skipOptional, skipOptional]
  cases r.skip slot depth pos with
  | none => rfl
  | some reply => cases reply <;> rfl

theorem run_startScript (resume : Nat → Script α) :
    (r.startScript resume).run r.node r.skip =
      r.start.bind fun
        | .ok pos => (resume pos).run r.node r.skip
        | .error fault => some (.abort fault) := by
  rw [startScript, start]
  split
  · rw [run_skipOptional]
    cases r.skipOptional Grammar.shebang r.depth 0 with
    | none => rfl
    | some first =>
      cases first with
      | error fault => rfl
      | ok pos => exact run_skipOptional _ _ _ _
  · exact run_skipOptional _ _ _ _

theorem run_formsScript (rounds : Nat) (forms : List Form) (pos : Nat) (e : Expectation) :
    ((r.formsScript rounds forms pos e).run r.node r.skip).map Reply.outcome =
      r.formsFrom rounds forms pos e := by
  induction rounds generalizing forms pos e with
  | zero => rfl
  | succ rounds ih =>
    rw [formsScript, Script.run_askNode, formsFrom, step]
    cases r.node Grammar.expression r.depth pos with
    | none => rfl
    | some reply =>
      cases reply with
      | abort fault => rfl
      | accept f next e' =>
        dsimp only [Option.bind_some]
        split
        · rfl
        · exact ih _ _ _
      | reject e' =>
        dsimp only [Option.bind_some]
        split <;> rfl

/-- The script of a reading comes to its result. -/
theorem forms_eq_script :
    r.forms = (r.script.run r.node r.skip).map fun reply => r.locate reply.outcome := by
  rw [forms, script, run_startScript]
  cases r.start with
  | none => rfl
  | some first =>
    cases first with
    | error fault => rfl
    | ok pos =>
      dsimp only [Option.bind_some]
      rw [← run_formsScript, Option.map_map]
      rfl

theorem formBy_eq_script (handle : NodeHandle) :
    r.formBy handle = ((r.slotScript handle).run r.node r.skip).map Reply.outcome := by
  rw [formBy, slotScript, run_skipOptional]
  cases r.skipOptional Grammar.trivia r.depth 0 with
  | none => rfl
  | some first =>
    cases first with
    | error fault => rfl
    | ok pos =>
      dsimp only [Option.bind_some]
      rw [Script.run_askNode]
      cases r.node handle r.depth pos with
      | none => rfl
      | some reply =>
        cases reply with
        | abort fault => rfl
        | reject e => rfl
        | accept f next e =>
          dsimp only [Option.bind_some]
          rw [run_skipOptional]
          cases r.skipOptional Grammar.trivia r.depth next with
          | none => rfl
          | some last =>
            cases last with
            | error fault => rfl
            | ok stop =>
              dsimp only [Option.bind_some]
              split <;> rfl

/-- All visits of a script of a reading, in the order of their replies. -/
def history (r : Reading) (script : Script α) : List Visit :=
  (script.visits r.node r.skip).flatMap (r.grammar.history r.source r.fuel)

end Reading

end LispReader
