import LispReader.Proofs.Aborts
import LispReader.Proofs.Run.PassingOn
import LispReader.Proofs.Run.Reading
import LispReader.Proofs.Run.Region

/-!
# Late rejections end readings

In a grammar with the notation nothing takes the place of a form that was rejected late. So a late
rejection anywhere in the history of a reading is the result of the reading, as an abort is.
-/

namespace LispReader

open Notation Script

/-- The slot that is visited. -/
def Visit.slot : Visit → Slot
  | node slot _ _ _ => .node slot
  | skip slot _ _ _ => .skip slot

/-- What a script visits lies where the script stays. -/
theorem Script.StaysIn.of_mem_visits {α : Type}
    {node : NodeHandle → Depth → Nat → Option (Reply Form)}
    {skip : SkipHandle → Depth → Nat → Option (Reply Unit)} {region : Set Slot}
    {script : Script α} {visit : Visit} (h : script.StaysIn region)
    (hvisit : visit ∈ script.visits node skip) : visit.slot ∈ region := by
  induction script with
  | answer _ => exact absurd hvisit List.not_mem_nil
  | unfinished => exact absurd hvisit List.not_mem_nil
  | askNode slot depth pos resume ih =>
    rw [visits] at hvisit
    rcases List.mem_cons.mp hvisit with rfl | hvisit
    · exact h _ .node
    · split at hvisit
      next reply _ => exact ih reply (fun asked hasked => h asked (.behindNode hasked)) hvisit
      next => exact absurd hvisit List.not_mem_nil
  | askSkip slot depth pos resume ih =>
    rw [visits] at hvisit
    rcases List.mem_cons.mp hvisit with rfl | hvisit
    · exact h _ .skip
    · split at hvisit
      next reply _ => exact ih reply (fun asked hasked => h asked (.behindSkip hasked)) hvisit
      next => exact absurd hvisit List.not_mem_nil

namespace Grammar

variable {g : Grammar} {source : Source} {fuel pos : Nat} {d : Depth} {e : Expectation}

/-- Where text is skipped, no slot for forms is visited. -/
theorem HasNotation.skip_of_mem_visits (hg : g.HasNotation) {slot : SkipHandle}
    {reply : Option (Reply Unit)} {w : Visit}
    (hplaced : (Visit.skip slot d pos reply).Placed source)
    (hw : w ∈ g.visits source (fuel + 1) (.skip slot d pos reply)) :
    ∃ part, w.slot = .skip part ∧ (part = Grammar.comment ∨ part = Grammar.whitespace) := by
  have hholds : ∀ {rule : SkipRule}, g.skipRules[slot.index]? = some rule → rule.Holds w.slot := by
    intro rule hrule
    rw [visits, hrule] at hw
    have hstays : (rule.script fuel ⟨source, d⟩ pos).StaysIn {held | rule.Holds held} :=
      SkipRule.staysIn_script (fun _ hheld => hheld) fuel _ pos
    exact hstays.of_mem_visits hw
  rcases hplaced with rfl | rfl | rfl | rfl
  · exact (hholds hg.shebang).elim
  · obtain ⟨parts, hrule, hparts⟩ := hg.trivia
    obtain ⟨part, hpart, hslot⟩ := hholds hrule
    exact ⟨part, hslot, (hparts part).mp hpart⟩
  · exact (hholds hg.comment).elim
  · exact (hholds hg.whitespace).elim

/-- What is visited from a visit in its place is in its place, and passes late rejections on. -/
theorem HasNotation.placed_of_mem_visits (hg : g.HasNotation) {visit w : Visit}
    (hplaced : visit.Placed source)
    (hmade : visit.Made (g.runNode source (fuel + 1)) (g.runSkip source (fuel + 1)))
    (hw : w ∈ g.visits source (fuel + 1) visit) :
    w.Placed source ∧ ∀ e, w.RejectsLate e → visit.RejectsLate e := by
  cases visit with
  | skip slot depth pos reply =>
    obtain ⟨part, hpart, hplaced⟩ := hg.skip_of_mem_visits hplaced hw
    cases w with
    | node _ _ _ _ => cases hpart
    | skip slot' _ _ _ =>
      obtain rfl : slot' = part := Slot.skip.inj hpart
      exact ⟨Or.inr (Or.inr hplaced), fun _ => False.elim⟩
  | node slot depth pos reply =>
    obtain ⟨hslot, t, hs, ht⟩ := hplaced
    obtain ⟨rule, hrule, hpasses⟩ := hg.exists_rule hslot hs ht fuel depth
    rw [visits, hrule] at hw
    obtain ⟨hplaced, hlate⟩ := hpasses w hw
    refine ⟨hplaced, ?_⟩
    intro e he
    obtain ⟨hoffset, hrun⟩ := hlate e he
    rw [Visit.Made, runNode_succ hrule, hrun] at hmade
    exact ⟨hmade.symm, hoffset⟩

/-- A visit in its place rejects as each visit does that it leads to and that rejects late. -/
theorem HasNotation.rejectsLate_of_mem_history (hg : g.HasNotation) {visit w : Visit}
    (hplaced : visit.Placed source)
    (hmade : visit.Made (g.runNode source fuel) (g.runSkip source fuel))
    (hw : w ∈ g.history source fuel visit) (he : w.RejectsLate e) : visit.RejectsLate e := by
  have hrule := history_rule (I := Visit.Placed source) (P := Visit.RejectsLate e)
    (fun _ _ _ hmade hplaced hnext =>
      ⟨(hg.placed_of_mem_visits hplaced hmade hnext).1,
        (hg.placed_of_mem_visits hplaced hmade hnext).2 e⟩) hmade hplaced hw
  exact hrule.2 he

end Grammar

/-! ## Readings -/

namespace Reading

variable {r : Reading} {α : Type} {pos rounds : Nat} {t : Text} {e expected : Expectation}
  {forms : List Form} {script : Script α} {visit : Visit}

theorem passesOn_formsScript (hg : r.grammar.HasNotation) (hs : r.source.suffix? pos = some t)
    (ht : ¬ StartsTrivia t) (hexpected : expected.Below pos) :
    (r.formsScript rounds forms pos expected).PassesOn r.node r.skip r.source pos := by
  induction rounds generalizing pos t forms expected with
  | zero => exact passesOn_unfinished
  | succ rounds ih =>
    refine hg.passesOn_askExpression hs ht ?_ ?_ ?_ ?_
    · intro e hbarren he
      have hne : t ≠ [] := by
        rintro rfl
        exact hbarren .nil
      dsimp only
      rw [if_neg (ne_width_of_suffix? hs hne), notEndedScript, run,
        Expectation.merge_eq_right (hexpected.mono (Nat.le_of_lt he)),
        Expectation.merge_eq_left (Expectation.below_one he)]
    · intro e
      dsimp only
      split <;> exact passesOn_answer _
    · intro fault
      exact passesOn_answer _
    · intro f next e u hlt he hnext hu
      dsimp only
      rw [if_neg (Nat.ne_of_gt hlt)]
      have hbelow := (hexpected.mono (Nat.le_of_lt hlt)).merge he
      exact (ih hnext hu hbelow).mono (Nat.le_of_lt hlt)

/-- What is skipped in front of the first form leaves no trivia there. -/
theorem passesOn_startScript (hg : r.grammar.HasNotation) {resume : Nat → Script α}
    (h : ∀ pos t, r.source.suffix? pos = some t → ¬ StartsTrivia t →
      (resume pos).PassesOn r.node r.skip r.source pos) :
    (r.startScript resume).PassesOn r.node r.skip r.source 0 := by
  have htrivia : ∀ start, r.source.IsBoundary start →
      (Script.skipOptional Grammar.trivia r.depth start resume).PassesOn r.node r.skip r.source
        0 := by
    intro start hstart
    obtain ⟨t, ht⟩ := Option.isSome_iff_exists.mp hstart
    refine passesOn_skipOptional (fun reply => Or.inr (Or.inl rfl)) ?_
    intro next hnext
    obtain ⟨-, u, hu, hstarts⟩ := hg.place_of_skipsTo ht hnext
    exact (h next u hu hstarts).mono (Nat.zero_le next)
  rw [startScript]
  split
  · refine passesOn_skipOptional (fun reply => Or.inl rfl) ?_
    intro next hnext
    exact htrivia next (hg.isBoundary_of_shebang r.source.isBoundary_zero hnext)
  · exact htrivia 0 r.source.isBoundary_zero

theorem passesOn_script (hg : r.grammar.HasNotation) :
    r.script.PassesOn r.node r.skip r.source 0 :=
  passesOn_startScript hg fun _ _ hs ht =>
    passesOn_formsScript hg hs ht (Expectation.below_none _)

theorem passesOn_slotScript (hg : r.grammar.HasNotation) {slot : NodeHandle}
    (hslot : slot = Grammar.expression ∨ ∃ kind : Kind, slot = kind.slot) :
    (r.slotScript slot).PassesOn r.node r.skip r.source 0 := by
  refine passesOn_skipOptional (fun reply => Or.inr (Or.inl rfl)) ?_
  intro start hstart
  obtain ⟨-, t, hs, ht⟩ := hg.place_of_skipsTo r.source.suffix?_zero hstart
  refine passesOn_askNode (fun reply => ⟨hslot, t, hs, ht⟩) ?_ ?_
  · intro e _ he
    exact ⟨Nat.zero_lt_of_lt he, rfl⟩
  · intro reply _
    cases reply with
    | abort fault => exact passesOn_answer _
    | reject e => exact passesOn_answer _
    | accept f next e =>
      refine passesOn_skipOptional (fun reply => Or.inr (Or.inl rfl)) ?_
      intro stop _
      split <;> exact passesOn_answer _

/-- Every visit in a history has the reply of the slot, for some fuel. -/
theorem exists_made (hvisit : visit ∈ r.history script) :
    ∃ fuel, visit.Made (r.grammar.runNode r.source fuel) (r.grammar.runSkip r.source fuel) := by
  obtain ⟨first, hfirst, hvisit⟩ := List.mem_flatMap.mp hvisit
  have hmade := made_of_mem_visits hfirst
  have hrule := Grammar.history_rule (P := fun _ => True)
    (I := fun visit =>
      ∃ fuel, visit.Made (r.grammar.runNode r.source fuel) (r.grammar.runSkip r.source fuel))
    (fun fuel _ _ _ _ hnext => ⟨⟨fuel, Grammar.made_of_mem_visits hnext⟩, id⟩) hmade
    ⟨r.fuel, hmade⟩ hvisit
  exact hrule.1

/-- A script of a reading rejects as each visit in its history does that rejects late. -/
theorem run_of_rejectsLate (hg : r.grammar.HasNotation)
    (hscript : script.PassesOn r.node r.skip r.source pos) (hvisit : visit ∈ r.history script)
    (he : visit.RejectsLate e) : script.run r.node r.skip = some (.reject e) := by
  obtain ⟨first, hfirst, hvisit⟩ := List.mem_flatMap.mp hvisit
  obtain ⟨hplaced, hlate⟩ := hscript first hfirst
  have hmade := made_of_mem_visits hfirst
  exact (hlate e (hg.rejectsLate_of_mem_history hplaced hmade hvisit he)).2

/-- A late rejection anywhere in the history of a reading is its result. -/
theorem forms_of_rejectsLate (hg : r.grammar.HasNotation) (hvisit : visit ∈ r.history r.script)
    (he : visit.RejectsLate e) :
    r.forms = some (.error ((Fault.ofExpectation e).locate r.source.text)) := by
  rw [forms_eq_script, run_of_rejectsLate hg (passesOn_script hg) hvisit he]
  rfl

theorem slot_of_rejectsLate (hg : r.grammar.HasNotation) {slot : NodeHandle}
    (hslot : slot = Grammar.expression ∨ ∃ kind : Kind, slot = kind.slot)
    (hvisit : visit ∈ r.history (r.slotScript slot)) (he : visit.RejectsLate e) :
    r.slot slot = some (.error ((Fault.ofExpectation e).locate r.source.text)) := by
  have hrun := run_of_rejectsLate hg (passesOn_slotScript hg hslot) hvisit he
  rw [Reading.slot, formBy_eq_script, hrun]
  rfl

end Reading

end LispReader
