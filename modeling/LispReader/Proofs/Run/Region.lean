import Mathlib.Data.Set.Basic
import LispReader.Proofs.Run.Fuel
import LispReader.Proofs.RuleMap

/-!
# Regions of slots

A rule has to do with the slots whose handles it holds, and with no others: its script
asks them, whatever they reply. For a rule of a dialect they are the slots that its scripts
ask. A region is closed if it has all slots that its own rules hold, and the slots that
readings begin with. Runs in a closed region stay in it, so they cannot tell grammars apart
that hold the same rules there.
-/

namespace LispReader

namespace Script

variable {α : Type}

/-- A script asks a slot, if some of the slots that it asked before reply suitably. -/
inductive Asks : Script α → Slot → Prop where
  | node {slot : NodeHandle} {depth : Depth} {pos : Nat} {resume : Reply Form → Script α} :
      Asks (askNode slot depth pos resume) (.node slot)
  | skip {slot : SkipHandle} {depth : Depth} {pos : Nat} {resume : Reply Unit → Script α} :
      Asks (askSkip slot depth pos resume) (.skip slot)
  | behindNode {slot : NodeHandle} {depth : Depth} {pos : Nat} {resume : Reply Form → Script α}
      {reply : Reply Form} {asked : Slot} (h : Asks (resume reply) asked) :
      Asks (askNode slot depth pos resume) asked
  | behindSkip {slot : SkipHandle} {depth : Depth} {pos : Nat} {resume : Reply Unit → Script α}
      {reply : Reply Unit} {asked : Slot} (h : Asks (resume reply) asked) :
      Asks (askSkip slot depth pos resume) asked

/-- All slots that a script asks lie in a region. -/
def StaysIn (region : Set Slot) (script : Script α) : Prop :=
  ∀ slot, script.Asks slot → slot ∈ region

variable {region : Set Slot}

theorem staysIn_answer (reply : Reply α) : (answer reply).StaysIn region := by
  intro slot hasked
  cases hasked

theorem staysIn_unfinished : (unfinished : Script α).StaysIn region := by
  intro slot hasked
  cases hasked

theorem staysIn_askNode {slot : NodeHandle} {depth : Depth} {pos : Nat}
    {resume : Reply Form → Script α} (hslot : .node slot ∈ region)
    (h : ∀ reply, (resume reply).StaysIn region) :
    (askNode slot depth pos resume).StaysIn region := by
  intro asked hasked
  cases hasked with
  | node => exact hslot
  | behindNode hasked => exact h _ asked hasked

theorem staysIn_askSkip {slot : SkipHandle} {depth : Depth} {pos : Nat}
    {resume : Reply Unit → Script α} (hslot : .skip slot ∈ region)
    (h : ∀ reply, (resume reply).StaysIn region) :
    (askSkip slot depth pos resume).StaysIn region := by
  intro asked hasked
  cases hasked with
  | skip => exact hslot
  | behindSkip hasked => exact h _ asked hasked

theorem staysIn_skipOptional {slot : SkipHandle} {depth : Depth} {pos : Nat}
    {resume : Nat → Script α} (hslot : .skip slot ∈ region)
    (h : ∀ next, (resume next).StaysIn region) :
    (skipOptional slot depth pos resume).StaysIn region := by
  refine staysIn_askSkip hslot ?_
  intro reply
  cases reply with
  | accept _ next _ => exact h next
  | reject _ => exact h pos
  | abort fault => exact staysIn_answer _

variable {node node' : NodeHandle → Depth → Nat → Option (Reply Form)}
  {skip skip' : SkipHandle → Depth → Nat → Option (Reply Unit)}

/-- An answer is kept when scripts are cut off later and the slots of the region reply
more often. -/
theorem Cut.run_of_staysIn {script script' : Script α} (h : Cut script script')
    (hstays : script.StaysIn region)
    (hnode : ∀ slot, .node slot ∈ region → ∀ depth pos reply,
      node slot depth pos = some reply → node' slot depth pos = some reply)
    (hskip : ∀ slot, .skip slot ∈ region → ∀ depth pos reply,
      skip slot depth pos = some reply → skip' slot depth pos = some reply)
    {reply : Reply α} (hrun : script.run node skip = some reply) :
    script'.run node' skip' = some reply := by
  induction h with
  | unfinished script => cases hrun
  | answer reply' => exact hrun
  | askNode slot depth pos _ ih =>
    rw [run_askNode] at hrun ⊢
    obtain ⟨r, hslot, hrest⟩ := Option.bind_eq_some_iff.mp hrun
    rw [hnode slot (hstays _ .node) depth pos r hslot]
    exact ih r (fun asked hasked => hstays asked (.behindNode hasked)) hrest
  | askSkip slot depth pos _ ih =>
    rw [run_askSkip] at hrun ⊢
    obtain ⟨r, hslot, hrest⟩ := Option.bind_eq_some_iff.mp hrun
    rw [hskip slot (hstays _ .skip) depth pos r hslot]
    exact ih r (fun asked hasked => hstays asked (.behindSkip hasked)) hrest

end Script

open Script

/-! ## Handles that rules hold -/

/-- A rule holds the handle of a slot. -/
def SkipRule.Holds : SkipRule → Slot → Prop
  | .trivia parts, slot => ∃ part ∈ parts, slot = .skip part
  | .custom script, slot => ∃ v pos, (script v pos).Asks slot
  | .whitespace, _ => False
  | .comment, _ => False
  | .shebang, _ => False

/-- A rule holds the handle of a slot. -/
def NodeRule.Holds : NodeRule → Slot → Prop
  | .list expression trivia, slot => slot = .node expression ∨ slot = .skip trivia
  | .quote expression trivia, slot => slot = .node expression ∨ slot = .skip trivia
  | .alternation alternatives trivia, slot =>
    (∃ alternative ∈ alternatives, slot = .node alternative) ∨ slot = .skip trivia
  | .custom script, slot => ∃ v pos, (script v pos).Asks slot
  | .atom _, _ => False
  | .string, _ => False

def Rule.Holds : Rule → Slot → Prop
  | .node rule => rule.Holds
  | .skip rule => rule.Holds

namespace SkipRule

variable {region : Set Slot}

theorem staysIn_eachPart {parts : List SkipHandle} {depth : Depth} {resume : Nat → Script Unit}
    (hparts : ∀ part ∈ parts, .skip part ∈ region) (h : ∀ next, (resume next).StaysIn region)
    (pos : Nat) : (eachPart depth parts pos resume).StaysIn region := by
  induction parts generalizing pos with
  | nil => exact h pos
  | cons part parts ih =>
    obtain ⟨hpart, hparts⟩ := List.forall_mem_cons.mp hparts
    exact staysIn_skipOptional hpart (ih hparts)

theorem staysIn_triviaFrom {parts : List SkipHandle} {depth : Depth}
    (hparts : ∀ part ∈ parts, .skip part ∈ region) (rounds pos : Nat) :
    (triviaFrom parts depth rounds pos).StaysIn region := by
  induction rounds generalizing pos with
  | zero => exact staysIn_unfinished
  | succ rounds ih =>
    refine staysIn_eachPart hparts ?_ pos
    intro next
    by_cases hnext : next = pos
    · rw [if_pos hnext]
      exact staysIn_answer _
    · rw [if_neg hnext]
      exact ih next

theorem staysIn_script {rule : SkipRule} (h : ∀ slot, rule.Holds slot → slot ∈ region)
    (rounds : Nat) (v : View) (pos : Nat) : (rule.script rounds v pos).StaysIn region := by
  cases rule with
  | trivia parts =>
    exact staysIn_triviaFrom (fun part hpart => h _ ⟨part, hpart, rfl⟩) rounds pos
  | custom script => exact fun slot hasked => h slot ⟨v, pos, hasked⟩
  | whitespace => exact staysIn_answer _
  | comment => exact staysIn_answer _
  | shebang => exact staysIn_answer _

end SkipRule

namespace NodeRule

variable {region : Set Slot}

theorem staysIn_itemsFrom {expression : NodeHandle} {inner : Depth}
    {finish : List Form → Nat → Expectation → Script Form}
    (hexpression : .node expression ∈ region)
    (hfinish : ∀ items pos e, (finish items pos e).StaysIn region) (rounds : Nat)
    (items : List Form) (pos : Nat) (e : Expectation) :
    (itemsFrom expression inner finish rounds items pos e).StaysIn region := by
  induction rounds generalizing items pos e with
  | zero => exact staysIn_unfinished
  | succ rounds ih =>
    refine staysIn_askNode hexpression ?_
    intro reply
    cases reply with
    | accept item next e' =>
      dsimp only
      by_cases hnext : next = pos
      · rw [if_pos hnext]
        exact hfinish _ _ _
      · rw [if_neg hnext]
        exact ih _ _ _
    | reject e' => exact hfinish _ _ _
    | abort fault => exact staysIn_answer _

theorem staysIn_closeList (v : View) (start : Nat) (items : List Form) (pos : Nat)
    (e : Expectation) : (closeList v start items pos e).StaysIn region := by
  rw [closeList]
  split <;> exact staysIn_answer _

theorem staysIn_listScript {expression : NodeHandle} {trivia : SkipHandle}
    (hexpression : .node expression ∈ region) (htrivia : .skip trivia ∈ region) (rounds : Nat)
    (v : View) (pos : Nat) : (listScript expression trivia rounds v pos).StaysIn region := by
  rw [listScript]
  split
  · cases v.depth.inner? with
    | none => exact staysIn_answer _
    | some inner =>
      refine staysIn_skipOptional htrivia ?_
      intro next
      exact staysIn_itemsFrom hexpression (staysIn_closeList v pos) rounds [] next _
  · exact staysIn_answer _

theorem staysIn_quoteScript {expression : NodeHandle} {trivia : SkipHandle}
    (hexpression : .node expression ∈ region) (htrivia : .skip trivia ∈ region)
    (v : View) (pos : Nat) : (quoteScript expression trivia v pos).StaysIn region := by
  rw [quoteScript]
  cases QuoteOperator.ofText? (v.rest pos) with
  | none => exact staysIn_answer _
  | some op =>
    cases v.depth.inner? with
    | none => exact staysIn_answer _
    | some inner =>
      refine staysIn_skipOptional htrivia ?_
      intro next
      exact staysIn_askNode hexpression fun reply => staysIn_answer _

theorem staysIn_firstOf {trivia : SkipHandle} {depth : Depth} {pos : Nat}
    {slots : List NodeHandle} (hslots : ∀ slot ∈ slots, .node slot ∈ region)
    (htrivia : .skip trivia ∈ region) (e : Expectation) :
    (firstOf trivia depth pos slots e).StaysIn region := by
  induction slots generalizing e with
  | nil => exact staysIn_answer _
  | cons slot slots ih =>
    obtain ⟨hslot, hslots⟩ := List.forall_mem_cons.mp hslots
    refine staysIn_askNode hslot ?_
    intro reply
    cases reply with
    | accept value next e' => exact staysIn_skipOptional htrivia fun stop => staysIn_answer _
    | reject e' => exact ih hslots _
    | abort fault => exact staysIn_answer _

/-- A rule asks the slots whose handles it holds. -/
theorem staysIn_script {rule : NodeRule} (h : ∀ slot, rule.Holds slot → slot ∈ region)
    (rounds : Nat) (v : View) (pos : Nat) : (rule.script rounds v pos).StaysIn region := by
  cases rule with
  | list expression trivia =>
    exact staysIn_listScript (h _ (Or.inl rfl)) (h _ (Or.inr rfl)) rounds v pos
  | quote expression trivia =>
    exact staysIn_quoteScript (h _ (Or.inl rfl)) (h _ (Or.inr rfl)) v pos
  | alternation alternatives trivia =>
    exact staysIn_firstOf (fun slot hslot => h _ (Or.inl ⟨slot, hslot, rfl⟩))
      (h _ (Or.inr rfl)) Expectation.none
  | custom script => exact fun slot hasked => h slot ⟨v, pos, hasked⟩
  | atom reserved => exact staysIn_answer _
  | string => exact staysIn_answer _

end NodeRule

/-! ## Closed regions -/

namespace Grammar

/-- The rule in a slot holds the handle of another one. -/
def Holds (g : Grammar) (slot held : Slot) : Prop :=
  ∃ rule, g.rule? slot = some rule ∧ rule.Holds held

/-- A region that has the slots readings begin with, and all slots that its rules hold. -/
structure Closed (g : Grammar) (region : Set Slot) : Prop where
  expression : .node expression ∈ region
  trivia : .skip trivia ∈ region
  shebang : .skip shebang ∈ region
  held : ∀ slot ∈ region, ∀ held, g.Holds slot held → held ∈ region

/-- Two grammars have the same settings, and hold the same rules in a region; in both of
them there may be no slot for a handle. -/
structure AgreeOn (g g' : Grammar) (region : Set Slot) : Prop where
  settings : g'.settings = g.settings
  rules : ∀ slot ∈ region, g'.rule? slot = g.rule? slot

variable {g g' : Grammar} {region : Set Slot}

theorem AgreeOn.nodeRules (h : g.AgreeOn g' region) {slot : NodeHandle}
    (hslot : .node slot ∈ region) : g'.nodeRules[slot.index]? = g.nodeRules[slot.index]? :=
  Option.map_injective (fun _ _ => Rule.node.inj) (h.rules _ hslot)

theorem AgreeOn.skipRules (h : g.AgreeOn g' region) {slot : SkipHandle}
    (hslot : .skip slot ∈ region) : g'.skipRules[slot.index]? = g.skipRules[slot.index]? :=
  Option.map_injective (fun _ _ => Rule.skip.inj) (h.rules _ hslot)

theorem AgreeOn.symm (h : g.AgreeOn g' region) : g'.AgreeOn g region where
  settings := h.settings.symm
  rules := fun slot hslot => (h.rules slot hslot).symm

theorem Closed.of_agreeOn (hg : g.Closed region) (h : g.AgreeOn g' region) :
    g'.Closed region where
  expression := hg.expression
  trivia := hg.trivia
  shebang := hg.shebang
  held := by
    rintro slot hslot held ⟨rule, hrule, hheld⟩
    exact hg.held slot hslot held ⟨rule, (h.rules slot hslot).symm.trans hrule, hheld⟩

/-- A run in a closed region comes to its reply in every grammar that holds the same rules
there, with the same fuel or with more. All slots of the region at once, because each kind
of slot may ask the other. -/
theorem Closed.extends (hg : g.Closed region) (h : g.AgreeOn g' region) (source : Source)
    {fuel fuel' : Nat} (hle : fuel ≤ fuel') :
    (∀ slot, .node slot ∈ region → ∀ depth pos reply,
      g.runNode source fuel slot depth pos = some reply →
        g'.runNode source fuel' slot depth pos = some reply) ∧
    ∀ slot, .skip slot ∈ region → ∀ depth pos reply,
      g.runSkip source fuel slot depth pos = some reply →
        g'.runSkip source fuel' slot depth pos = some reply := by
  induction fuel generalizing fuel' with
  | zero =>
    constructor
    · intro slot _ depth pos reply hrun
      rw [runNode] at hrun
      cases hrun
    · intro slot _ depth pos reply hrun
      rw [runSkip] at hrun
      cases hrun
  | succ fuel ih =>
    obtain ⟨n, rfl⟩ : ∃ n, fuel' = n + 1 := ⟨fuel' - 1, by omega⟩
    obtain ⟨hnode, hskip⟩ := ih (show fuel ≤ n by omega)
    constructor
    · intro slot hslot depth pos reply hrun
      rw [runNode] at hrun ⊢
      rw [h.nodeRules hslot]
      cases hrule : g.nodeRules[slot.index]? with
      | none =>
        rw [hrule] at hrun
        exact hrun
      | some rule =>
        rw [hrule] at hrun
        have hheld : ∀ held, rule.Holds held → held ∈ region := fun held hheld =>
          hg.held _ hslot held ⟨.node rule, congrArg (Option.map Rule.node) hrule, hheld⟩
        exact (rule.script_cut _ pos (by omega)).run_of_staysIn
          (NodeRule.staysIn_script hheld _ _ _) hnode hskip hrun
    · intro slot hslot depth pos reply hrun
      rw [runSkip] at hrun ⊢
      rw [h.skipRules hslot]
      cases hrule : g.skipRules[slot.index]? with
      | none =>
        rw [hrule] at hrun
        exact hrun
      | some rule =>
        rw [hrule] at hrun
        have hheld : ∀ held, rule.Holds held → held ∈ region := fun held hheld =>
          hg.held _ hslot held ⟨.skip rule, congrArg (Option.map Rule.skip) hrule, hheld⟩
        exact (rule.script_cut _ pos (by omega)).run_of_staysIn
          (SkipRule.staysIn_script hheld _ _ _) hnode hskip hrun

end Grammar

end LispReader
