import LispReader.Proofs.Dialect
import LispReader.Proofs.Furthest
import LispReader.Proofs.Run.Forwarding

/-!
# Nothing that was expected is lost

Every attempt that fails notes what was expected and where, and an attempt that succeeds may
note how it could have gone on. The notes of a run are those of the leaves, which ask for no
forms, and those of the parentheses and quote operators that were looked for in vain. What
the run says was expected is the merge of all its notes: the descriptions that were noted at
the furthest offset. Neither forms that were read before nor alternatives that were given up
are left out, at any depth; only what was skipped leaves no notes. A reading that fails
without an abort says so of its whole source, where the end could have been as well.
-/

namespace LispReader

open Expectation (FurthestOf furthestOf_mergeAll furthestOf_none)

/-! ## Notes -/

/-- A script asks for no forms. -/
def Script.AsksNoNode {α : Type} : Script α → Prop
  | answer _ => True
  | askNode _ _ _ _ => False
  | askSkip _ _ _ resume => ∀ reply, (resume reply).AsksNoNode
  | unfinished => True

namespace Visit

/-- What a visit says was expected. Skipping says nothing. -/
def expected : Visit → Expectation
  | node _ _ _ (some reply) => reply.expected
  | _ => Expectation.none

/-- A visit for a form tells what was expected: it has a reply, and the reply is no abort. -/
def Tells : Visit → Prop
  | node _ _ _ reply => ∃ found, reply = some found ∧ found.fault? = none
  | skip _ _ _ _ => True

/-- Where the asking script is behind a visit for a form. -/
def stop? : Visit → Option Nat
  | node _ _ _ (some (.accept _ next _)) => some next
  | node _ _ pos (some (.reject _)) => some pos
  | _ => none

end Visit

namespace NodeRule

/-- A rule is of the library, or one of a dialect that asks for no forms. -/
def LeafIfCustom : NodeRule → Prop
  | custom script => ∀ v pos, (script v pos).AsksNoNode
  | _ => True

/-- The note of a closing parenthesis that is not there. -/
def closingNotes (v : View) (stop : Nat) : List Expectation :=
  if [Alphabet.closeParen].isPrefixOf (v.rest stop) then []
  else [Expectation.one stop Wanted.closingParen]

/-- What a rule at an offset notes itself, given the visits that it makes and what its reply
says: a list its parentheses, a quote operator itself, and a leaf what it replies. -/
def ownNotes (v : View) (pos : Nat) (visits : List Visit) (said : Expectation) :
    NodeRule → List Expectation
  | list _ _ =>
    if [Alphabet.openParen].isPrefixOf (v.rest pos) then
      match visits.getLast?.bind Visit.stop? with
      | some stop => closingNotes v stop
      | none => []
    else [Expectation.one pos Wanted.openingParen]
  | quote _ _ =>
    match QuoteOperator.ofText? (v.rest pos) with
    | some _ => []
    | none => [Expectation.one pos Wanted.quote]
  | alternation _ _ => []
  | atom _ => [said]
  | string => [said]
  | custom _ => [said]

end NodeRule

namespace Grammar

/-- All rules for forms that a dialect adds are leaves. -/
def CustomLeaves (g : Grammar) : Prop := ∀ rule ∈ g.nodeRules, rule.LeafIfCustom

/-- All notes of a visit: those of the visits that it makes, and its own. -/
def notes (g : Grammar) (source : Source) : Nat → Visit → List Expectation
  | 0, _ => []
  | _ + 1, .skip _ _ _ _ => []
  | fuel + 1, .node slot depth pos reply =>
    let visit := Visit.node slot depth pos reply
    let visits := g.visits source (fuel + 1) visit
    match g.nodeRules[slot.index]? with
    | some rule =>
      visits.flatMap (g.notes source fuel) ++
        rule.ownNotes ⟨source, depth⟩ pos visits visit.expected
    | none => []

end Grammar

/-! ## Rules -/

variable {node : NodeHandle → Depth → Nat → Option (Reply Form)}
  {skip : SkipHandle → Depth → Nat → Option (Reply Unit)} {v : View} {depth : Depth}
  {pos rounds : Nat} {expected : Expectation} {visits : List Visit} {done : List Expectation}

/-- A script that asks for no forms visits no slot for forms. -/
theorem Script.AsksNoNode.exists_skip {α : Type} {script : Script α} {reply : Reply α}
    (h : script.AsksNoNode) (hcomes : script.Comes node skip visits reply) :
    ∀ visit ∈ visits, ∃ slot depth pos found, visit = .skip slot depth pos found := by
  induction hcomes with
  | answer => exact fun visit hvisit => absurd hvisit List.not_mem_nil
  | askNode _ _ _ => exact h.elim
  | askSkip _ _ ih => exact List.forall_mem_cons.mpr ⟨⟨_, _, _, _, rfl⟩, ih (h _)⟩

namespace NodeRule

variable {expression : NodeHandle} {trivia : SkipHandle} {inner : Depth} {start : Nat}
  {items : List Form} {slots : List NodeHandle} {reply : Reply Form} {rule : NodeRule}

theorem furthestOf_closeList (hdone : FurthestOf done expected)
    (h : (closeList v start items pos expected).Comes node skip visits reply) :
    visits = [] ∧ FurthestOf (done ++ closingNotes v pos) reply.expected := by
  rw [closeList] at h
  rw [closingNotes]
  split at h
  next hclose =>
    cases h with
    | answer =>
      rw [if_pos hclose, List.append_nil]
      exact ⟨rfl, hdone⟩
  next hclose =>
    cases h with
    | answer =>
      rw [if_neg hclose]
      exact ⟨rfl, hdone.append (.self _)⟩

/-- The items of a list are noted in front of its closing parenthesis. -/
theorem furthestOf_itemsFrom (hdone : FurthestOf done expected)
    (h : (itemsFrom expression inner (closeList v start) rounds items pos expected).Comes
      node skip visits reply) (hreply : reply.fault? = none) :
    ∃ front last stop, visits = front ++ [last] ∧ last.stop? = some stop ∧
      FurthestOf (done ++ (visits.map Visit.expected ++ closingNotes v stop)) reply.expected := by
  -- The notes of the items in front vary with what was expected so far.
  induction rounds generalizing items pos expected visits done with
  | zero => cases h
  | succ rounds ih =>
    rw [itemsFrom] at h
    cases h with
    | @askNode _ _ _ _ found rest _ _ h =>
      cases found with
      | abort fault =>
        cases h with
        | answer => cases hreply
      | reject e =>
        obtain ⟨rfl, hclose⟩ := furthestOf_closeList (hdone.append (.self e)) h
        rw [List.append_assoc] at hclose
        exact ⟨[], _, pos, rfl, rfl, hclose⟩
      | accept item next e =>
        dsimp only at h
        split at h
        next heq =>
          obtain ⟨rfl, hclose⟩ := furthestOf_closeList (hdone.append (.self e)) h
          rw [List.append_assoc] at hclose
          exact ⟨[], _, pos, rfl, congrArg some heq, hclose⟩
        next =>
          obtain ⟨front, last, stop, rfl, hstop, hall⟩ := ih (hdone.append (.self e)) h
          rw [List.append_assoc] at hall
          exact ⟨_ :: front, last, stop, rfl, hstop, hall⟩

theorem furthestOf_list
    (h : ((list expression trivia).script rounds v pos).Comes node skip visits reply)
    (hreply : reply.fault? = none) :
    FurthestOf (visits.map Visit.expected ++
      (list expression trivia).ownNotes v pos visits reply.expected) reply.expected := by
  rw [script, listScript] at h
  rw [ownNotes]
  split at h
  next hopen =>
    rw [if_pos hopen]
    split at h
    next =>
      cases h with
      | answer => cases hreply
    next inner _ =>
      obtain ⟨found, next, rest, rfl, hrest⟩ := Script.comes_skipOptional h hreply
      obtain ⟨front, last, stop, rfl, hstop, hall⟩ :=
        furthestOf_itemsFrom (.self Expectation.none) hrest hreply
      rw [← List.cons_append, List.getLast?_concat, Option.bind_some, hstop]
      exact hall
  next hopen =>
    rw [if_neg hopen]
    cases h with
    | answer => exact .self _

theorem furthestOf_quote
    (h : ((quote expression trivia).script rounds v pos).Comes node skip visits reply)
    (hreply : reply.fault? = none) :
    FurthestOf (visits.map Visit.expected ++
      (quote expression trivia).ownNotes v pos visits reply.expected) reply.expected := by
  rw [script, quoteScript] at h
  rw [ownNotes]
  split at h
  next hop =>
    rw [hop]
    cases h with
    | answer => exact .self _
  next op hop =>
    rw [hop]
    split at h
    next =>
      cases h with
      | answer => cases hreply
    next inner _ =>
      obtain ⟨found, next, rest, rfl, hrest⟩ := Script.comes_skipOptional h hreply
      cases hrest with
      | @askNode _ _ _ _ operand _ _ _ hend =>
        cases hend with
        | answer =>
          rw [Reply.expected_map]
          have hall := (FurthestOf.self Expectation.none).append (.self operand.expected)
          rwa [Expectation.none_merge] at hall

/-- Alternatives that reject are noted, whether or not a later one accepts. -/
theorem furthestOf_firstOf (hdone : FurthestOf done expected)
    (h : (firstOf trivia depth pos slots expected).Comes node skip visits reply)
    (hreply : reply.fault? = none) :
    FurthestOf (done ++ visits.map Visit.expected) reply.expected := by
  induction slots generalizing expected visits done with
  | nil =>
    cases h with
    | answer =>
      rw [List.map_nil, List.append_nil]
      exact hdone
  | cons slot slots ih =>
    rw [firstOf] at h
    cases h with
    | @askNode _ _ _ _ found rest _ _ h =>
      cases found with
      | abort fault =>
        cases h with
        | answer => cases hreply
      | reject e =>
        have hall := ih (hdone.append (.self e)) h
        rwa [List.append_assoc] at hall
      | accept f next e =>
        obtain ⟨skipped, stop, rest, rfl, hrest⟩ := Script.comes_skipOptional h hreply
        cases hrest with
        | answer =>
          have hall := (hdone.append (.self e)).append (.self Expectation.none)
          rwa [List.append_assoc] at hall

theorem furthestOf_leaf (script : Script Form) (hleaf : script.AsksNoNode)
    (h : script.Comes node skip visits reply) :
    FurthestOf (visits.map Visit.expected ++ [reply.expected]) reply.expected := by
  have hnone : ∀ note ∈ visits.map Visit.expected, note = Expectation.none := by
    intro note hnote
    obtain ⟨visit, hvisit, rfl⟩ := List.mem_map.mp hnote
    obtain ⟨_, _, _, _, rfl⟩ := hleaf.exists_skip h visit hvisit
    rfl
  have hall := (furthestOf_none hnone).append (.self reply.expected)
  rwa [Expectation.none_merge] at hall

/-- What a rule says was expected joins what its visits say and what it notes itself. -/
theorem furthestOf_script (hrule : rule.LeafIfCustom)
    (h : (rule.script rounds v pos).Comes node skip visits reply) (hreply : reply.fault? = none) :
    FurthestOf (visits.map Visit.expected ++ rule.ownNotes v pos visits reply.expected)
      reply.expected := by
  cases rule with
  | list expression trivia => exact furthestOf_list h hreply
  | quote expression trivia => exact furthestOf_quote h hreply
  | alternation alternatives trivia =>
    rw [ownNotes, List.append_nil]
    exact furthestOf_firstOf .nil h hreply
  | atom reserved => exact furthestOf_leaf (.answer _) trivial h
  | string => exact furthestOf_leaf (.answer _) trivial h
  | custom script => exact furthestOf_leaf _ (hrule v pos) h

/-- All forms that a rule asks for tell what was expected, if the rule does. -/
theorem tells_of_mem_visits (hrule : rule.LeafIfCustom)
    (hrun : (rule.script rounds v pos).run node skip = some reply) (hreply : reply.fault? = none) :
    ∀ visit ∈ (rule.script rounds v pos).visits node skip, visit.Tells := by
  intro visit hvisit
  cases visit with
  | skip slot depth next found => trivial
  | node slot depth next found =>
    obtain ⟨found, rfl⟩ := (Script.comes_of_run hrun).exists_found hvisit
    refine ⟨found, rfl, ?_⟩
    have hleaf : ∀ script : Script Form, script.AsksNoNode →
        rule.script rounds v pos = script → found.fault? = none := by
      rintro script hscript rfl
      obtain ⟨_, _, _, _, hskip⟩ := hscript.exists_skip (Script.comes_of_run hrun) _ hvisit
      exact absurd hskip nofun
    cases rule with
    | list expression trivia =>
      exact forwards_listScript.fault?_of_mem_visits hrun hreply _ hvisit
    | quote expression trivia =>
      exact forwards_quoteScript.fault?_of_mem_visits hrun hreply _ hvisit
    | alternation alternatives trivia =>
      have hforwards : Script.Forwards (fun _ => False)
          (firstOf trivia v.depth pos alternatives Expectation.none) := forwards_firstOf
      exact hforwards.fault?_of_mem_visits hrun hreply _ hvisit
    | atom reserved => exact hleaf (.answer _) trivial rfl
    | string => exact hleaf (.answer _) trivial rfl
    | custom script => exact hleaf _ (hrule v pos) rfl

end NodeRule

namespace Grammar

variable {g : Grammar} {source : Source} {fuel : Nat}

theorem customLeaves_standard (settings : Settings) : (standard settings).CustomLeaves := by
  intro rule hrule
  have hlibrary := (hasLibraryRules_standard settings).node rule hrule
  cases rule with
  | custom script => exact hlibrary.elim
  | _ => trivial

theorem CustomLeaves.replace {g' : Grammar} {name : String} {rule : NodeRule}
    (hg : g.CustomLeaves) (hrule : rule.LeafIfCustom)
    (h : g.replace name (.node rule) = .ok g') : g'.CustomLeaves := by
  intro rule' hmem
  rcases (rules_of_replace h).1 rule' hmem with hmem | rfl
  · exact hg rule' hmem
  · exact hrule

/-- What a visit tells was expected joins all its notes. -/
theorem CustomLeaves.furthestOf_notes (hg : g.CustomLeaves) {visit : Visit}
    (hmade : visit.Made (g.runNode source fuel) (g.runSkip source fuel)) (htells : visit.Tells) :
    FurthestOf (g.notes source fuel visit) visit.expected := by
  induction fuel generalizing visit with
  | zero =>
    cases visit with
    | skip slot depth pos reply => exact .nil
    | node slot depth pos reply =>
      obtain ⟨found, rfl, -⟩ := htells
      exact absurd hmade nofun
  | succ fuel ih =>
    cases visit with
    | skip slot depth pos reply => exact .nil
    | node slot depth pos reply =>
      obtain ⟨reply, rfl, hreply⟩ := htells
      rw [Visit.Made, runNode] at hmade
      rw [notes]
      simp only [visits]
      cases hslot : g.nodeRules[slot.index]? with
      | none =>
        rw [hslot] at hmade
        obtain rfl := Option.some.inj hmade
        exact .nil
      | some rule =>
        rw [hslot] at hmade
        have hrule := hg rule (Array.mem_of_getElem? hslot)
        have hall := NodeRule.furthestOf_script hrule (Script.comes_of_run hmade) hreply
        refine hall.flatMap_append fun visit hvisit => ih (Script.made_of_mem_visits hvisit) ?_
        exact NodeRule.tells_of_mem_visits hrule hmade hreply visit hvisit

end Grammar

/-! ## Readings -/

namespace Reading

variable {r : Reading} {forms : List Form} {e : Expectation} {reply : Reply (List Form)}

/-- A run of forms is rejected behind its last form, for all that was noted so far. -/
theorem furthestOf_formsScript (hdone : FurthestOf done expected)
    (h : (r.formsScript rounds forms pos expected).Comes r.node r.skip visits (.reject e)) :
    ∃ front pos found, visits = front ++ [.node Grammar.expression r.depth pos found] ∧
      FurthestOf (done ++ (visits.map Visit.expected ++ [Expectation.one pos Wanted.endOfInput]))
        e := by
  induction rounds generalizing forms pos expected visits done with
  | zero => cases h
  | succ rounds ih =>
    rw [formsScript] at h
    cases h with
    | @askNode _ _ _ _ found rest _ _ h =>
      cases found with
      | abort fault => cases h
      | reject e' =>
        dsimp only at h
        split at h
        · cases h
        · cases h with
          | answer =>
            have hall := (hdone.append (.self e')).append
              (.self (Expectation.one pos Wanted.endOfInput))
            rw [List.append_assoc] at hall
            exact ⟨[], pos, _, rfl, hall⟩
      | accept f next e' =>
        dsimp only at h
        split at h
        · cases h with
          | answer =>
            have hall := (hdone.append (.self e')).append
              (.self (Expectation.one pos Wanted.endOfInput))
            rw [List.append_assoc] at hall
            exact ⟨[], pos, _, rfl, hall⟩
        · obtain ⟨front, stop, last, rfl, hall⟩ := ih (hdone.append (.self e')) h
          rw [List.append_assoc] at hall
          exact ⟨_ :: front, stop, last, rfl, hall⟩

/-- A reading is rejected where it asks for the last form, for all that was noted. -/
theorem furthestOf_script (h : r.script.Comes r.node r.skip visits (.reject e)) :
    ∃ front pos found, visits = front ++ [.node Grammar.expression r.depth pos found] ∧
      FurthestOf (visits.map Visit.expected ++ [Expectation.one pos Wanted.endOfInput]) e := by
  have hforms : ∀ skipped : List Expectation, (∀ note ∈ skipped, note = Expectation.none) →
      ∀ {pos visits}, (r.formsScript r.fuel [] pos Expectation.none).Comes r.node r.skip visits
        (.reject e) →
      ∃ front pos found, visits = front ++ [.node Grammar.expression r.depth pos found] ∧
        FurthestOf (skipped ++ (visits.map Visit.expected ++
          [Expectation.one pos Wanted.endOfInput])) e :=
    fun skipped hskipped _ _ h => furthestOf_formsScript (furthestOf_none hskipped) h
  rw [script, startScript] at h
  split at h
  · obtain ⟨_, _, rest, rfl, hline⟩ := Script.comes_skipOptional h rfl
    obtain ⟨_, _, rest, rfl, htrivia⟩ := Script.comes_skipOptional hline rfl
    obtain ⟨front, pos, found, rfl, hall⟩ :=
      hforms [Expectation.none, Expectation.none] (by simp) htrivia
    exact ⟨_ :: _ :: front, pos, found, rfl, hall⟩
  · obtain ⟨_, _, rest, rfl, htrivia⟩ := Script.comes_skipOptional h rfl
    obtain ⟨front, pos, found, rfl, hall⟩ := hforms [Expectation.none] (by simp) htrivia
    exact ⟨_ :: front, pos, found, rfl, hall⟩

/-- A reading that fails without an abort is rejected. -/
theorem exists_reject_of_forms {d : Diagnostic} (h : r.forms = some (.error d))
    (hvisits : ∀ visit ∈ r.script.visits r.node r.skip, visit.fault? = none) :
    ∃ e, r.script.run r.node r.skip = some (.reject e) ∧
      d = (Fault.ofExpectation e).locate r.source.text := by
  rw [forms_eq_script] at h
  obtain ⟨reply, hrun, hreply⟩ := Option.map_eq_some_iff.mp h
  cases reply with
  | accept forms next e => cases hreply
  | reject e => exact ⟨e, hrun, (Except.error.inj hreply).symm⟩
  | abort fault =>
    rcases r.forwards_script.visits_cases r.node r.skip with
      ⟨-, hown⟩ | ⟨front, last, fault', hlast, -, hfault, -⟩
    · exact (hown fault hrun).elim
    · exact absurd ((hvisits last (by simp [hlast])).symm.trans hfault) nofun

end Reading

namespace Grammar

/-- Nothing that was expected is lost. What a run of a slot says was expected is the merge of all
notes that were made during the run: the union of what was noted at the furthest offset. Where a
reading fails without an abort, its diagnostic is made of all notes of the whole reading, and of
the end of the source that was expected in place of the last form. -/
theorem expected_eq_mergeAll_notes (r : Reading) (hr : r.grammar.CustomLeaves) :
    (∀ notes, FurthestOf notes (Expectation.mergeAll notes)) ∧
    (∀ fuel slot depth pos reply, r.grammar.runNode r.source fuel slot depth pos = some reply →
      reply.fault? = none → reply.expected =
        Expectation.mergeAll (r.grammar.notes r.source fuel (.node slot depth pos (some reply)))) ∧
    ∀ d, r.forms = some (.error d) →
      (∀ visit ∈ r.script.visits r.node r.skip, visit.fault? = none) →
      ∃ front pos reply,
        r.script.visits r.node r.skip = front ++ [.node expression r.depth pos reply] ∧
        d = (Fault.ofExpectation (Expectation.mergeAll
          ((r.script.visits r.node r.skip).flatMap (r.grammar.notes r.source r.fuel) ++
            [Expectation.one pos Wanted.endOfInput]))).locate r.source.text := by
  refine ⟨furthestOf_mergeAll, ?_, ?_⟩
  · intro fuel slot depth pos reply hrun hreply
    have hmade : Visit.Made (r.grammar.runNode r.source fuel) (r.grammar.runSkip r.source fuel)
        (.node slot depth pos (some reply)) := hrun
    exact (hr.furthestOf_notes hmade ⟨reply, rfl, hreply⟩).unique (furthestOf_mergeAll _)
  · intro d hd hvisits
    obtain ⟨e, hrun, rfl⟩ := Reading.exists_reject_of_forms hd hvisits
    obtain ⟨front, pos, reply, hlast, hall⟩ := Reading.furthestOf_script (Script.comes_of_run hrun)
    have hnotes : ∀ visit ∈ r.script.visits r.node r.skip,
        FurthestOf (r.grammar.notes r.source r.fuel visit) visit.expected := by
      intro visit hvisit
      refine hr.furthestOf_notes (Script.made_of_mem_visits hvisit) ?_
      cases visit with
      | skip slot depth next found => trivial
      | node slot depth next found =>
        obtain ⟨found, rfl⟩ := (Script.comes_of_run hrun).exists_found hvisit
        exact ⟨found, rfl, hvisits _ hvisit⟩
    refine ⟨front, pos, reply, hlast, ?_⟩
    rw [(hall.flatMap_append hnotes).unique (furthestOf_mergeAll _)]

/-- Reads the letter `a`, which a digit could have followed two characters on, or else looks for
a letter one character on. -/
def hopefulLetter : NodeRule :=
  .custom fun v pos =>
    match v.rest pos with
    | 'a' :: _ => .answer (.accept (.atom ['a'] ⟨pos, pos + 1⟩) (pos + 1)
        (Expectation.one (pos + 2) "digit"))
    | _ => .answer (.missing (pos + 1) "letter")

theorem leafIfCustom_hopefulLetter : hopefulLetter.LeafIfCustom := by
  intro v pos
  dsimp only
  split <;> trivial

/-- Behind the closing parenthesis that is missing, a digit and a letter are missed as well. The
digit was noted by an item that was read. -/
theorem expected_eq_mergeAll_notes_letters :
    ∃ g, (standard .fragment).replace "atom" (.node hopefulLetter) = .ok g ∧
      let r := g.reading ['(', 'a', 'b']
      g.read ['(', 'a', 'b'] = some (.error ⟨.unexpected ["digit", "letter"], ⟨1, 4⟩, 3⟩) ∧
      (∃ front pos reply,
        r.script.visits r.node r.skip = front ++ [.node expression r.depth pos reply] ∧
        ⟨.unexpected ["digit", "letter"], ⟨1, 4⟩, 3⟩ = (Fault.ofExpectation (Expectation.mergeAll
          ((r.script.visits r.node r.skip).flatMap (g.notes r.source r.fuel) ++
            [Expectation.one pos Wanted.endOfInput]))).locate r.source.text) ∧
      Expectation.one 3 "digit" = Expectation.mergeAll (g.notes r.source 9 (.node expression
        r.depth 1 (some (.accept (.atom ['a'] ⟨1, 2⟩) 2 (Expectation.one 3 "digit"))))) := by
  have hg := (customLeaves_standard .fragment).replace leafIfCustom_hopefulLetter
    (show (standard .fragment).replace "atom" (.node hopefulLetter) = .ok _ from rfl)
  obtain ⟨-, hrun, hread⟩ := expected_eq_mergeAll_notes (Grammar.reading _ ['(', 'a', 'b']) hg
  exact ⟨_, rfl, rfl, hread _ rfl (by decide), hrun 9 expression _ 1 _ rfl rfl⟩

end Grammar

end LispReader
