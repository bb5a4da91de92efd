import LispReader.Grammar.Run

/-!
# More fuel

Fuel cuts runs off and does nothing else: a run that comes to a reply comes to the
same reply with more fuel. A script with fewer rounds is the script with more of
them, cut off at some places, and a script that is cut off has no other answer.
-/

namespace LispReader

namespace Script

variable {α : Type}

/-- The first script is the second one, perhaps cut off at some places. -/
inductive Cut : Script α → Script α → Prop where
  | unfinished (script : Script α) : Cut unfinished script
  | answer (reply : Reply α) : Cut (answer reply) (answer reply)
  | askNode (slot : NodeHandle) (depth : Depth) (pos : Nat) {resume resume' : Reply Form → Script α}
      (h : ∀ reply, Cut (resume reply) (resume' reply)) :
      Cut (askNode slot depth pos resume) (askNode slot depth pos resume')
  | askSkip (slot : SkipHandle) (depth : Depth) (pos : Nat) {resume resume' : Reply Unit → Script α}
      (h : ∀ reply, Cut (resume reply) (resume' reply)) :
      Cut (askSkip slot depth pos resume) (askSkip slot depth pos resume')

theorem Cut.refl : ∀ script : Script α, Cut script script
  | .answer reply => .answer reply
  | .askNode slot depth pos resume => .askNode slot depth pos fun reply => refl (resume reply)
  | .askSkip slot depth pos resume => .askSkip slot depth pos fun reply => refl (resume reply)
  | .unfinished => .unfinished _

theorem Cut.skipOptional (slot : SkipHandle) (depth : Depth) (pos : Nat)
    {resume resume' : Nat → Script α} (h : ∀ next, Cut (resume next) (resume' next)) :
    Cut (skipOptional slot depth pos resume) (skipOptional slot depth pos resume') := by
  refine .askSkip slot depth pos ?_
  intro reply
  cases reply with
  | accept _ next _ => exact h next
  | reject _ => exact h pos
  | abort fault => exact .answer _

/-- Wherever the first family of slots replies, the second one replies the same. -/
def Extends {σ : Type} (slots slots' : σ → Depth → Nat → Option (Reply α)) : Prop :=
  ∀ slot depth pos reply, slots slot depth pos = some reply → slots' slot depth pos = some reply

variable {node node' : NodeHandle → Depth → Nat → Option (Reply Form)}
  {skip skip' : SkipHandle → Depth → Nat → Option (Reply Unit)}

/-- An answer is kept when scripts are cut off later and slots reply more often. -/
theorem Cut.run {script script' : Script α} (h : Cut script script') (hnode : Extends node node')
    (hskip : Extends skip skip') {reply : Reply α} (hrun : script.run node skip = some reply) :
    script'.run node' skip' = some reply := by
  induction h with
  | unfinished script => exact absurd hrun nofun
  | answer reply' => exact hrun
  | askNode slot depth pos h ih =>
    rw [run_askNode] at hrun ⊢
    obtain ⟨r, hslot, hrest⟩ := Option.bind_eq_some_iff.mp hrun
    rw [hnode slot depth pos r hslot]
    exact ih r hrest
  | askSkip slot depth pos h ih =>
    rw [run_askSkip] at hrun ⊢
    obtain ⟨r, hslot, hrest⟩ := Option.bind_eq_some_iff.mp hrun
    rw [hskip slot depth pos r hslot]
    exact ih r hrest

end Script

open Script

/-! ## Rounds of a rule -/

namespace SkipRule

theorem eachPart_cut (depth : Depth) (parts : List SkipHandle) {resume resume' : Nat → Script Unit}
    (h : ∀ next, Cut (resume next) (resume' next)) (pos : Nat) :
    Cut (eachPart depth parts pos resume) (eachPart depth parts pos resume') := by
  induction parts generalizing pos with
  | nil => exact h pos
  | cons part parts ih => exact .skipOptional part depth pos ih

theorem triviaFrom_cut (parts : List SkipHandle) (depth : Depth) {rounds rounds' : Nat}
    (hle : rounds ≤ rounds') (pos : Nat) :
    Cut (triviaFrom parts depth rounds pos) (triviaFrom parts depth rounds' pos) := by
  induction rounds generalizing rounds' pos with
  | zero => exact .unfinished _
  | succ rounds ih =>
    obtain ⟨n, rfl⟩ : ∃ n, rounds' = n + 1 := ⟨rounds' - 1, by omega⟩
    refine eachPart_cut depth parts ?_ pos
    intro next
    by_cases hnext : next = pos
    · rw [if_pos hnext, if_pos hnext]
      exact .answer _
    · rw [if_neg hnext, if_neg hnext]
      exact ih (by omega) next

theorem script_cut (rule : SkipRule) (v : View) (pos : Nat) {rounds rounds' : Nat}
    (hle : rounds ≤ rounds') : Cut (rule.script rounds v pos) (rule.script rounds' v pos) := by
  cases rule with
  | trivia parts => exact triviaFrom_cut parts v.depth hle pos
  | whitespace => exact .refl _
  | comment => exact .refl _
  | shebang => exact .refl _
  | custom rule => exact .refl _

end SkipRule

namespace NodeRule

theorem itemsFrom_cut (expression : NodeHandle) (inner : Depth)
    (finish : List Form → Nat → Expectation → Script Form) {rounds rounds' : Nat}
    (hle : rounds ≤ rounds') (items : List Form) (pos : Nat) (expected : Expectation) :
    Cut (itemsFrom expression inner finish rounds items pos expected)
      (itemsFrom expression inner finish rounds' items pos expected) := by
  induction rounds generalizing rounds' items pos expected with
  | zero => exact .unfinished _
  | succ rounds ih =>
    obtain ⟨n, rfl⟩ : ∃ n, rounds' = n + 1 := ⟨rounds' - 1, by omega⟩
    refine .askNode expression inner pos ?_
    intro reply
    cases reply with
    | accept item next e =>
      dsimp only
      by_cases hnext : next = pos
      · rw [if_pos hnext, if_pos hnext]
        exact .refl _
      · rw [if_neg hnext, if_neg hnext]
        exact ih (by omega) (item :: items) next (expected.merge e)
    | reject e => exact .refl _
    | abort fault => exact .refl _

theorem script_cut (rule : NodeRule) (v : View) (pos : Nat) {rounds rounds' : Nat}
    (hle : rounds ≤ rounds') : Cut (rule.script rounds v pos) (rule.script rounds' v pos) := by
  cases rule with
  | list expression trivia =>
    rw [script, script, listScript, listScript]
    split
    · cases v.depth.inner? with
      | none => exact .refl _
      | some inner =>
        refine .skipOptional trivia v.depth _ ?_
        intro next
        exact itemsFrom_cut expression inner _ hle [] next Expectation.none
    · exact .refl _
  | atom reserved => exact .refl _
  | string => exact .refl _
  | quote expression trivia => exact .refl _
  | alternation alternatives trivia => exact .refl _
  | custom rule => exact .refl _

end NodeRule

/-! ## Fuel of a run -/

namespace Grammar

variable (g : Grammar) (source : Source)

/-- All slots at once, because each kind of slot may ask the other. -/
theorem extends_of_le {fuel fuel' : Nat} (hle : fuel ≤ fuel') :
    Extends (g.runNode source fuel) (g.runNode source fuel') ∧
      Extends (g.runSkip source fuel) (g.runSkip source fuel') := by
  induction fuel generalizing fuel' with
  | zero =>
    constructor
    · intro slot depth pos reply h
      rw [runNode] at h
      exact absurd h nofun
    · intro slot depth pos reply h
      rw [runSkip] at h
      exact absurd h nofun
  | succ fuel ih =>
    obtain ⟨n, rfl⟩ : ∃ n, fuel' = n + 1 := ⟨fuel' - 1, by omega⟩
    obtain ⟨hnode, hskip⟩ := ih (show fuel ≤ n by omega)
    constructor
    · intro slot depth pos reply h
      rw [runNode] at h ⊢
      cases hrule : g.nodeRules[slot.index]? with
      | none =>
        rw [hrule] at h
        exact h
      | some rule =>
        rw [hrule] at h
        exact (rule.script_cut _ pos (by omega)).run hnode hskip h
    · intro slot depth pos reply h
      rw [runSkip] at h ⊢
      cases hrule : g.skipRules[slot.index]? with
      | none =>
        rw [hrule] at h
        exact h
      | some rule =>
        rw [hrule] at h
        exact (rule.script_cut _ pos (by omega)).run hnode hskip h

variable {g source} {fuel fuel' pos : Nat} {depth : Depth}

/-- A slot for forms has at most one reply, whatever the fuel is. -/
theorem runNode_unique {slot : NodeHandle} {reply reply' : Reply Form}
    (h : g.runNode source fuel slot depth pos = some reply)
    (h' : g.runNode source fuel' slot depth pos = some reply') : reply = reply' := by
  have hl := (g.extends_of_le source (Nat.le_max_left fuel fuel')).1 slot depth pos reply h
  have hr := (g.extends_of_le source (Nat.le_max_right fuel fuel')).1 slot depth pos reply' h'
  exact Option.some.inj (hl.symm.trans hr)

/-- A slot for text to be skipped has at most one reply, whatever the fuel is. -/
theorem runSkip_unique {slot : SkipHandle} {reply reply' : Reply Unit}
    (h : g.runSkip source fuel slot depth pos = some reply)
    (h' : g.runSkip source fuel' slot depth pos = some reply') : reply = reply' := by
  have hl := (g.extends_of_le source (Nat.le_max_left fuel fuel')).2 slot depth pos reply h
  have hr := (g.extends_of_le source (Nat.le_max_right fuel fuel')).2 slot depth pos reply' h'
  exact Option.some.inj (hl.symm.trans hr)

end Grammar

end LispReader
