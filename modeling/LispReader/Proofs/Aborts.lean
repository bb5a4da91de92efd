import LispReader.Proofs.Dialect
import LispReader.Proofs.Run.Forwarding
import LispReader.Proofs.Run.Stream

/-!
# Aborts

No rule tries anything else once a slot that it asked has aborted. What is skipped or read
by parts aborts if and only if a part does, with the same fault, and it asks for nothing
more; lists and quote operators also abort by themselves, where no more lists may be
opened. So where every rule of a dialect passes on the aborts of the slots that it asks,
an abort anywhere in the history of a reading is the result of the reading, and there is
one fault at most among all replies.
-/

namespace LispReader

namespace Grammar

variable {g : Grammar} {source : Source} {fuel : Nat} {visit w : Visit} {fault : Fault}

/-- The rules of a dialect pass on the aborts of the slots that they ask. -/
structure ForwardsAborts (g : Grammar) : Prop where
  node : ∀ rule ∈ g.nodeRules, rule.ForwardsAborts
  skip : ∀ rule ∈ g.skipRules, rule.ForwardsAborts

theorem forwardsAborts_standard (settings : Settings) : (standard settings).ForwardsAborts where
  node rule hrule := by
    have hlibrary := (hasLibraryRules_standard settings).node rule hrule
    cases rule with
    | custom script => exact hlibrary.elim
    | _ => trivial
  skip rule hrule := by
    have hlibrary := (hasLibraryRules_standard settings).skip rule hrule
    cases rule with
    | custom script => exact hlibrary.elim
    | _ => trivial

theorem ForwardsAborts.replace {g' : Grammar} {name : String} {rule : NodeRule}
    (hg : g.ForwardsAborts) (hrule : rule.ForwardsAborts)
    (h : g.replace name (.node rule) = .ok g') : g'.ForwardsAborts := by
  obtain ⟨hnode, hskip⟩ := rules_of_replace h
  refine ⟨?_, hskip ▸ hg.skip⟩
  intro rule' hmem
  rcases hnode rule' hmem with hmem | rfl
  · exact hg.node rule' hmem
  · exact hrule

/-- A visit has the fault of each visit that it makes. -/
theorem ForwardsAborts.fault?_of_mem_visits (hg : g.ForwardsAborts)
    (hmade : visit.Made (g.runNode source (fuel + 1)) (g.runSkip source (fuel + 1)))
    (hw : w ∈ g.visits source (fuel + 1) visit) (hfault : w.fault? = some fault) :
    visit.fault? = some fault := by
  cases visit with
  | node slot depth pos reply =>
    rw [Visit.Made, runNode] at hmade
    rw [visits] at hw
    cases hslot : g.nodeRules[slot.index]? with
    | none =>
      rw [hslot] at hw
      exact absurd hw List.not_mem_nil
    | some rule =>
      rw [hslot] at hmade hw
      have hrule := hg.node rule (Array.mem_of_getElem? hslot)
      have hrun := hrule.forwards.run_of_visit hw hfault
      rw [Visit.fault?, hmade.symm.trans hrun]
      rfl
  | skip slot depth pos reply =>
    rw [Visit.Made, runSkip] at hmade
    rw [visits] at hw
    cases hslot : g.skipRules[slot.index]? with
    | none =>
      rw [hslot] at hw
      exact absurd hw List.not_mem_nil
    | some rule =>
      rw [hslot] at hmade hw
      have hrule := hg.skip rule (Array.mem_of_getElem? hslot)
      have hrun := hrule.forwards.run_of_visit hw hfault
      rw [Visit.fault?, hmade.symm.trans hrun]
      rfl

theorem made_of_mem_visits (hw : w ∈ g.visits source (fuel + 1) visit) :
    w.Made (g.runNode source fuel) (g.runSkip source fuel) := by
  cases visit with
  | node slot depth pos reply =>
    rw [visits] at hw
    split at hw
    · exact Script.made_of_mem_visits hw
    · exact absurd hw List.not_mem_nil
  | skip slot depth pos reply =>
    rw [visits] at hw
    split at hw
    · exact Script.made_of_mem_visits hw
    · exact absurd hw List.not_mem_nil

/-- What visits hand on to those that they make, and what these hand back, holds all along a
history. -/
theorem history_rule {I P : Visit → Prop}
    (hstep : ∀ fuel visit next,
      visit.Made (g.runNode source (fuel + 1)) (g.runSkip source (fuel + 1)) → I visit →
      next ∈ g.visits source (fuel + 1) visit → I next ∧ (P next → P visit))
    (hmade : visit.Made (g.runNode source fuel) (g.runSkip source fuel)) (hvisit : I visit)
    (hw : w ∈ g.history source fuel visit) : I w ∧ (P w → P visit) := by
  induction fuel generalizing visit with
  | zero =>
    obtain rfl := List.mem_singleton.mp hw
    exact ⟨hvisit, id⟩
  | succ fuel ih =>
    rcases List.mem_append.mp hw with hw | hw
    · obtain ⟨next, hnext, hw⟩ := List.mem_flatMap.mp hw
      obtain ⟨hI, hback⟩ := hstep fuel visit next hmade hvisit hnext
      obtain ⟨hlast, hfar⟩ := ih (made_of_mem_visits hnext) hI hw
      exact ⟨hlast, fun h => hback (hfar h)⟩
    · obtain rfl := List.mem_singleton.mp hw
      exact ⟨hvisit, id⟩

/-- A visit has the fault of each visit that it leads to. -/
theorem ForwardsAborts.fault?_of_mem_history (hg : g.ForwardsAborts)
    (hmade : visit.Made (g.runNode source fuel) (g.runSkip source fuel))
    (hw : w ∈ g.history source fuel visit) (hfault : w.fault? = some fault) :
    visit.fault? = some fault := by
  have hrule := history_rule (I := fun _ => True) (P := fun visit => visit.fault? = some fault)
    (fun _ _ _ hmade _ hnext => ⟨trivial, hg.fault?_of_mem_visits hmade hnext⟩) hmade trivial hw
  exact hrule.2 hfault

end Grammar

namespace Reading

variable {r : Reading} {α : Type} {script : Script α} {visit : Visit} {fault : Fault}

/-- A script of a reading aborts with the fault of each visit in its history. -/
theorem run_of_mem_history {own : Fault → Prop} (hg : r.grammar.ForwardsAborts)
    (hscript : script.Forwards own) (hvisit : visit ∈ r.history script)
    (hfault : visit.fault? = some fault) : script.run r.node r.skip = some (.abort fault) := by
  obtain ⟨first, hfirst, hvisit⟩ := List.mem_flatMap.mp hvisit
  have hmade := Script.made_of_mem_visits hfirst
  exact hscript.run_of_visit hfirst (hg.fault?_of_mem_history hmade hvisit hfault)

theorem forms_of_mem_history (hg : r.grammar.ForwardsAborts) (hvisit : visit ∈ r.history r.script)
    (hfault : visit.fault? = some fault) :
    r.forms = some (.error (fault.locate r.source.text)) := by
  rw [forms_eq_script, run_of_mem_history hg r.forwards_script hvisit hfault]
  rfl

theorem slot_of_mem_history {handle : NodeHandle} (hg : r.grammar.ForwardsAborts)
    (hvisit : visit ∈ r.history (r.slotScript handle)) (hfault : visit.fault? = some fault) :
    r.slot handle = some (.error (fault.locate r.source.text)) := by
  rw [slot, formBy_eq_script, run_of_mem_history hg (r.forwards_slotScript handle) hvisit hfault]
  rfl

end Reading

namespace Grammar

/-- An abort is never gone back from. Trivia and alternations abort if and only if a slot that
they ask does, lists and quote operators also where they may not be opened; the fault is the same,
and no slot is asked behind it. What is skipped if possible passes an abort on. In a grammar whose
dialect passes aborts on as well, each abort among all the visits of a reading is its result, for
all forms at once, one at a time, or a single slot. -/
theorem aborts_end_readings :
    (∀ parts rounds v pos,
      ((SkipRule.trivia parts).script rounds v pos).AbortsOnly fun _ => False) ∧
    (∀ expression trivia rounds v pos,
      ((NodeRule.list expression trivia).script rounds v pos).AbortsOnly
        (NodeRule.ListTooDeep v pos)) ∧
    (∀ expression trivia rounds v pos,
      ((NodeRule.quote expression trivia).script rounds v pos).AbortsOnly
        (NodeRule.QuoteTooDeep v pos)) ∧
    (∀ alternatives trivia rounds v pos,
      ((NodeRule.alternation alternatives trivia).script rounds v pos).AbortsOnly
        fun _ => False) ∧
    (∀ (α : Type) node skip slot depth pos (resume : Nat → Script α) fault,
      skip slot depth pos = some (.abort fault) →
        (Script.skipOptional slot depth pos resume).run node skip = some (.abort fault)) ∧
    (∀ (r : Reading) slot depth pos fault,
      r.skipOptional slot depth pos = some (.error fault) ↔
        r.skip slot depth pos = some (.abort fault)) ∧
    (∀ r : Reading, r.grammar.ForwardsAborts →
      (∀ visit ∈ r.history r.script, ∀ fault, visit.fault? = some fault →
        r.forms = some (.error (fault.locate r.source.text)) ∧
        ∃ fs : List Form, (FormStream.mk r .fresh).Delivers
          (fs.map .ok ++ [.error (fault.locate r.source.text)])) ∧
      ∀ handle, ∀ visit ∈ r.history (r.slotScript handle), ∀ fault, visit.fault? = some fault →
        r.slot handle = some (.error (fault.locate r.source.text))) ∧
    ∀ (g : Grammar) s name handle, g.ForwardsAborts → g.nodeHandle name = .ok handle →
      ∀ visit ∈ (g.reading s).history ((g.reading s).slotScript handle), ∀ fault,
        visit.fault? = some fault →
        g.readSlot name s = some (.error (.source (fault.locate s))) := by
  refine ⟨?_, ?_, ?_, ?_, ?_, ?_, ?_, ?_⟩
  · intro parts rounds v pos
    exact SkipRule.forwards_triviaFrom.abortsOnly fun _ => False.elim
  · intro expression trivia rounds v pos
    refine NodeRule.forwards_listScript.abortsOnly ?_
    rintro fault ⟨hopen, hinner, rfl⟩
    rw [NodeRule.listScript, if_pos (List.isPrefixOf_iff_prefix.mpr hopen), hinner]
    rfl
  · intro expression trivia rounds v pos
    refine NodeRule.forwards_quoteScript.abortsOnly ?_
    rintro fault ⟨hop, hinner, rfl⟩
    obtain ⟨op, hop⟩ := Option.isSome_iff_exists.mp hop
    rw [NodeRule.quoteScript, hop, hinner]
    rfl
  · intro alternatives trivia rounds v pos
    exact NodeRule.forwards_firstOf.abortsOnly fun _ => False.elim
  · intro α node skip slot depth pos resume fault hskip
    rw [Script.run_skipOptional, hskip]
  · intro r slot depth pos fault
    rw [Reading.skipOptional]
    rcases r.skip slot depth pos with _ | _ | _ | fault' <;> simp
  · intro r hg
    refine ⟨?_, ?_⟩
    · intro visit hvisit fault hfault
      have hforms := Reading.forms_of_mem_history hg hvisit hfault
      exact ⟨hforms, FormStream.exists_delivers_of_forms hforms⟩
    · intro handle visit hvisit fault hfault
      exact Reading.slot_of_mem_history hg hvisit hfault
  · intro g s name handle hg hname visit hvisit fault hfault
    rw [readSlot, hname]
    dsimp only
    rw [Reading.slot_of_mem_history (r := g.reading s) hg hvisit hfault]
    rfl

/-- An expression is a list here, and an exclamation mark ends the reading. -/
def listOrStop : NodeRule :=
  .custom fun v pos =>
    match v.rest pos with
    | '!' :: _ => .answer (.abortAt pos .unexpectedInput)
    | _ => .askNode list v.depth pos .answer

theorem forwardsAborts_listOrStop : listOrStop.ForwardsAborts := by
  intro v pos
  dsimp only
  split
  · exact .answer fun _ _ => trivial
  · exact .askNode (fun fault => rfl) fun reply _ => .answer fun _ _ => trivial

/-- An exclamation mark in a list ends the reading with its fault, and not with one of the list. -/
theorem aborts_end_readings_exclamation :
    ∃ g, (standard .fragment).replace "expression" (.node listOrStop) = .ok g ∧
      g.read ['(', '!'] = some (.error ⟨.unexpectedInput, ⟨1, 2⟩, 1⟩) ∧
      (∃ fs : List Form, (g.stream ['(', '!']).Delivers
        (fs.map .ok ++ [.error ⟨.unexpectedInput, ⟨1, 2⟩, 1⟩])) ∧
      g.readSlot "list" ['(', '!'] = some (.error (.source ⟨.unexpectedInput, ⟨1, 2⟩, 1⟩)) := by
  have hg := (forwardsAborts_standard .fragment).replace forwardsAborts_listOrStop
    (show (standard .fragment).replace "expression" (.node listOrStop) = .ok _ from rfl)
  obtain ⟨-, -, -, -, -, -, hread, hslot⟩ := aborts_end_readings
  obtain ⟨hforms, hdelivers⟩ := (hread (Grammar.reading _ ['(', '!']) hg).1
    (.node expression (some 499) 1 (some (.abort ⟨.unexpectedInput, 1⟩))) (by decide) _ rfl
  have hlist := hslot _ ['(', '!'] "list" list hg rfl
    (.node expression (some 499) 1 (some (.abort ⟨.unexpectedInput, 1⟩))) (by decide) _ rfl
  exact ⟨_, rfl, hforms, hdelivers, hlist⟩

end Grammar

end LispReader
