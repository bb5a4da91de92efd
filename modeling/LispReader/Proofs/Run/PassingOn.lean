import LispReader.Proofs.Run.Expression
import LispReader.Proofs.Run.Fuel
import LispReader.Proofs.Run.Progress
import LispReader.Proofs.Run.Visit

/-!
# Passing rejections on

A rejection is late if it expects something behind the offset at which the rule was run: the rule
has gone into a form before it gave up. A rule of the notation that asks for the form passes the
rejection on as it is. No other alternative can begin where the form begins, no list can end there,
and what was expected before lies in front.

What carries this is that forms are only ever asked for where no trivia is in front. There the
expression replies as the first character says, and what it expects on the way to a form lies in
front of the end of the form.
-/

namespace LispReader

open Notation

namespace Visit

/-- A visit rejects, and expects something behind its own offset. -/
def RejectsLate (e : Expectation) : Visit → Prop
  | node _ _ pos reply => reply = some (.reject e) ∧ pos < e.offset
  | skip _ _ _ _ => False

/-- A slot of the notation is visited. If it is one for forms, no trivia is in front. -/
def Placed (source : Source) : Visit → Prop
  | node slot _ pos _ =>
    (slot = Grammar.expression ∨ ∃ kind : Kind, slot = kind.slot) ∧
      ∃ t, source.suffix? pos = some t ∧ ¬ StartsTrivia t
  | skip slot _ _ _ =>
    slot = Grammar.shebang ∨ slot = Grammar.trivia ∨ slot = Grammar.comment ∨
      slot = Grammar.whitespace

end Visit

/-! ## Scripts -/

namespace Script

variable {α : Type} {node : NodeHandle → Depth → Nat → Option (Reply Form)}
  {skip : SkipHandle → Depth → Nat → Option (Reply Unit)} {source : Source} {pos start : Nat}
  {depth : Depth}

/-- What a script visits is in its place. A late rejection among it is the answer, and is late
for an offset, too. -/
def PassesOn (node : NodeHandle → Depth → Nat → Option (Reply Form))
    (skip : SkipHandle → Depth → Nat → Option (Reply Unit)) (source : Source) (pos : Nat)
    (script : Script α) : Prop :=
  ∀ visit ∈ script.visits node skip, visit.Placed source ∧
    ∀ e, visit.RejectsLate e → pos < e.offset ∧ script.run node skip = some (.reject e)

/-- A script that skips text goes on at an offset. -/
def SkipsTo (skip : SkipHandle → Depth → Nat → Option (Reply Unit)) (slot : SkipHandle)
    (depth : Depth) (pos next : Nat) : Prop :=
  (∃ e, skip slot depth pos = some (.accept () next e)) ∨
    next = pos ∧ ∃ e, skip slot depth pos = some (.reject e)

theorem SkipsTo.run_skipOptional {slot : SkipHandle} {next : Nat}
    (h : SkipsTo skip slot depth pos next) (resume : Nat → Script α) :
    (skipOptional slot depth pos resume).run node skip = (resume next).run node skip := by
  rw [Script.run_skipOptional]
  rcases h with ⟨e, h⟩ | ⟨rfl, e, h⟩
  · rw [h]
  · rw [h]

theorem PassesOn.mono {script : Script α} {next : Nat}
    (h : script.PassesOn node skip source next) (hle : pos ≤ next) :
    script.PassesOn node skip source pos := by
  intro visit hvisit
  obtain ⟨hplaced, hlate⟩ := h visit hvisit
  refine ⟨hplaced, ?_⟩
  intro e he
  obtain ⟨hoffset, hrun⟩ := hlate e he
  exact ⟨Nat.lt_of_le_of_lt hle hoffset, hrun⟩

theorem passesOn_answer (reply : Reply α) : (answer reply).PassesOn node skip source pos := by
  intro visit hvisit
  exact absurd hvisit List.not_mem_nil

theorem passesOn_unfinished : (unfinished : Script α).PassesOn node skip source pos := by
  intro visit hvisit
  exact absurd hvisit List.not_mem_nil

/-- A script that skips text visits the slot for it, and what it visits where it goes on. -/
theorem mem_visits_skipOptional {slot : SkipHandle} {resume : Nat → Script α} {visit : Visit}
    (hvisit : visit ∈ (skipOptional slot depth start resume).visits node skip) :
    (∃ reply, visit = .skip slot depth start reply) ∨
      ∃ next, SkipsTo skip slot depth start next ∧ visit ∈ (resume next).visits node skip := by
  rw [skipOptional, visits] at hvisit
  rcases List.mem_cons.mp hvisit with rfl | hvisit
  · exact Or.inl ⟨_, rfl⟩
  · right
    cases hskip : skip slot depth start with
    | none =>
      rw [hskip] at hvisit
      exact absurd hvisit List.not_mem_nil
    | some reply =>
      rw [hskip] at hvisit
      cases reply with
      | accept value next e => exact ⟨next, Or.inl ⟨e, hskip⟩, hvisit⟩
      | reject e => exact ⟨start, Or.inr ⟨rfl, e, hskip⟩, hvisit⟩
      | abort fault => exact absurd hvisit List.not_mem_nil

theorem passesOn_skipOptional {slot : SkipHandle} {resume : Nat → Script α}
    (hslot : ∀ reply, (Visit.skip slot depth start reply).Placed source)
    (h : ∀ next, SkipsTo skip slot depth start next →
      (resume next).PassesOn node skip source pos) :
    (skipOptional slot depth start resume).PassesOn node skip source pos := by
  intro visit hvisit
  rcases mem_visits_skipOptional hvisit with ⟨reply, rfl⟩ | ⟨next, hnext, hvisit⟩
  · exact ⟨hslot reply, fun _ => False.elim⟩
  · rw [hnext.run_skipOptional]
    exact h next hnext visit hvisit

theorem passesOn_askNode {slot : NodeHandle} {resume : Reply Form → Script α}
    (hplaced : ∀ reply, (Visit.node slot depth start reply).Placed source)
    (hlate : ∀ e, node slot depth start = some (.reject e) → start < e.offset →
      pos < e.offset ∧ (resume (.reject e)).run node skip = some (.reject e))
    (h : ∀ reply, node slot depth start = some reply →
      (resume reply).PassesOn node skip source pos) :
    (askNode slot depth start resume).PassesOn node skip source pos := by
  intro visit hvisit
  rw [visits] at hvisit
  rcases List.mem_cons.mp hvisit with rfl | hvisit
  · refine ⟨hplaced _, ?_⟩
    rintro e ⟨hreply, he⟩
    rw [run, hreply]
    exact hlate e hreply he
  · cases hreply : node slot depth start with
    | none =>
      rw [hreply] at hvisit
      exact absurd hvisit List.not_mem_nil
    | some reply =>
      rw [hreply] at hvisit
      rw [run, hreply]
      exact h reply hreply visit hvisit

end Script

open Script

/-- An alternation visits its alternatives at its own offset, and trivia. -/
theorem NodeRule.mem_visits_firstOf {node : NodeHandle → Depth → Nat → Option (Reply Form)}
    {skip : SkipHandle → Depth → Nat → Option (Reply Unit)} {visit : Visit} {trivia : SkipHandle}
    {depth : Depth} {pos : Nat} {slots : List NodeHandle} {expected : Expectation}
    (hvisit : visit ∈ (firstOf trivia depth pos slots expected).visits node skip) :
    (∃ slot ∈ slots, visit = .node slot depth pos (node slot depth pos)) ∨
      ∃ next reply, visit = .skip trivia depth next reply := by
  induction slots generalizing expected with
  | nil => exact absurd hvisit List.not_mem_nil
  | cons slot slots ih =>
    rw [firstOf, visits] at hvisit
    rcases List.mem_cons.mp hvisit with rfl | hvisit
    · exact Or.inl ⟨slot, List.mem_cons_self, rfl⟩
    · cases hreply : node slot depth pos with
      | none =>
        rw [hreply] at hvisit
        exact absurd hvisit List.not_mem_nil
      | some reply =>
        rw [hreply] at hvisit
        cases reply with
        | abort fault => exact absurd hvisit List.not_mem_nil
        | reject e =>
          rcases ih hvisit with ⟨slot', hslot', hvisit⟩ | hvisit
          · exact Or.inl ⟨slot', List.mem_cons_of_mem slot hslot', hvisit⟩
          · exact Or.inr hvisit
        | accept value next e =>
          rcases mem_visits_skipOptional hvisit with ⟨reply, rfl⟩ | ⟨stop, -, hvisit⟩
          · exact Or.inr ⟨next, reply, rfl⟩
          · exact absurd hvisit List.not_mem_nil

/-! ## Expressions -/

namespace Grammar

variable {g : Grammar} {source : Source} {fuel pos next : Nat} {d : Depth} {t : Text}
  {e : Expectation} {f : Form}

/-- Where no form begins, the expression rejects at once. -/
theorem HasNotation.reply_of_barren (hg : g.HasNotation) (hs : source.suffix? pos = some t)
    (ht : Barren t) {reply : Reply Form}
    (h : g.runNode source fuel Grammar.expression d pos = some reply) :
    reply = .reject (wantedForm pos) := by
  have hrun : g.runNode source 2 Grammar.expression d pos = some (.reject (wantedForm pos)) :=
    hg.runNode_expression_of_barren hs ht
  exact runNode_unique h hrun

/-- Behind an expression that was accepted, there is no trivia, and nothing was expected. -/
theorem HasNotation.place_of_accept (hg : g.HasNotation) (hs : source.suffix? pos = some t)
    (ht : ¬ StartsTrivia t)
    (h : g.runNode source fuel Grammar.expression d pos = some (.accept f next e)) :
    pos < next ∧ e.Below next ∧ ∃ u, source.suffix? next = some u ∧ ¬ StartsTrivia u := by
  rcases starts_cases t with hstarts | hopens | hbarren
  · exact absurd hstarts ht
  · rcases settled_of_opens t d pos hopens with ⟨v, f', w, rfl, hf, hdepth⟩ | ⟨ob, o, hblocked⟩
    · obtain ⟨k, u, e', rfl, -, hu, he', hrun⟩ :=
        hg.runNode_expression_of_spells hf hs hdepth (Nat.le_refl _)
      have hpos := Text.width_pos hf.ne_nil
      cases runNode_unique h hrun
      refine ⟨by omega, Or.inr (by omega), u, ?_, hu⟩
      exact Source.suffix?_add (Source.suffix?_add hs)
    · have hrun := hg.runNode_expression_of_blocked hblocked hs (Nat.le_refl _)
      have hreply := runNode_unique h hrun
      rcases ob.reply_cases o with ⟨e', he', -⟩ | habort
      · cases hreply.trans he'
      · cases hreply.trans habort
  · cases hg.reply_of_barren hs hbarren h

/-- A late rejection is about a form that has begun. -/
theorem HasNotation.not_barren_of_reject (hg : g.HasNotation) (hs : source.suffix? pos = some t)
    (h : g.runNode source fuel Grammar.expression d pos = some (.reject e)) (he : pos < e.offset) :
    ¬ Barren t := by
  intro ht
  cases hg.reply_of_barren hs ht h
  exact Nat.lt_irrefl _ he

/-- A script that skips trivia goes on where there is none. -/
theorem HasNotation.place_of_skipsTo (hg : g.HasNotation) (hs : source.suffix? pos = some t)
    (h : SkipsTo (g.runSkip source fuel) Grammar.trivia d pos next) :
    pos ≤ next ∧ ∃ u, source.suffix? next = some u ∧ ¬ StartsTrivia u := by
  obtain ⟨k, u, rfl, hk, hu⟩ := exists_trivia t
  have hrun := hg.runSkip_trivia (d := d) hs hk hu (Nat.le_refl _)
  rcases h with ⟨e, h⟩ | ⟨-, e, h⟩
  · cases runSkip_unique h hrun
    exact ⟨Nat.le_add_right _ _, u, Source.suffix?_add hs, hu⟩
  · cases runSkip_unique h hrun

/-- An interpreter line ends at a boundary. -/
theorem HasNotation.isBoundary_of_shebang (hg : g.HasNotation) (hpos : source.IsBoundary pos)
    (h : SkipsTo (g.runSkip source fuel) Grammar.shebang d pos next) : source.IsBoundary next := by
  rcases h with ⟨e, h⟩ | ⟨rfl, -⟩
  · cases fuel with
    | zero => cases h
    | succ fuel =>
      rw [runSkip_succ hg.shebang] at h
      have hends := Token.ends_shebang hpos
      rw [show some (Token.shebang (source.rest pos) pos) = _ from h] at hends
      exact hends.2
  · exact hpos

/-! ## Rules -/

/-- A script that waits for an expression passes a late rejection on, if its answer to one is the
rejection. Behind an expression it goes on where no trivia is. -/
theorem HasNotation.passesOn_askExpression (hg : g.HasNotation) {α : Type}
    {resume : Reply Form → Script α} (hs : source.suffix? pos = some t) (ht : ¬ StartsTrivia t)
    (hlate : ∀ e, ¬ Barren t → pos < e.offset →
      (resume (.reject e)).run (g.runNode source fuel) (g.runSkip source fuel) =
        some (.reject e))
    (hreject : ∀ e, (resume (.reject e)).PassesOn (g.runNode source fuel) (g.runSkip source fuel)
      source pos)
    (habort : ∀ fault, (resume (.abort fault)).PassesOn (g.runNode source fuel)
      (g.runSkip source fuel) source pos)
    (haccept : ∀ f next e u, pos < next → Expectation.Below e next →
      source.suffix? next = some u → ¬ StartsTrivia u →
      (resume (.accept f next e)).PassesOn (g.runNode source fuel) (g.runSkip source fuel) source
        pos) :
    (askNode Grammar.expression d pos resume).PassesOn (g.runNode source fuel)
      (g.runSkip source fuel) source pos := by
  refine passesOn_askNode (fun reply => ⟨Or.inl rfl, t, hs, ht⟩) ?_ ?_
  · intro e hreply he
    exact ⟨he, hlate e (hg.not_barren_of_reject hs hreply he) he⟩
  · intro reply hreply
    cases reply with
    | reject e => exact hreject e
    | abort fault => exact habort fault
    | accept f next e =>
      obtain ⟨hlt, he, u, hnext, hu⟩ := hg.place_of_accept hs ht hreply
      exact haccept f next e u hlt he hnext hu

theorem HasNotation.passesOn_itemsFrom (hg : g.HasNotation) {inner : Depth} {start rounds : Nat}
    {items : List Form} {expected : Expectation} (hs : source.suffix? pos = some t)
    (ht : ¬ StartsTrivia t) (hexpected : expected.Below pos) :
    (NodeRule.itemsFrom Grammar.expression inner (NodeRule.closeList ⟨source, d⟩ start) rounds
      items pos expected).PassesOn (g.runNode source fuel) (g.runSkip source fuel) source pos := by
  induction rounds generalizing pos t items expected with
  | zero => exact passesOn_unfinished
  | succ rounds ih =>
    refine hg.passesOn_askExpression hs ht ?_ ?_ ?_ ?_
    · intro e hbarren he
      have hnot : ∀ u, t ≠ Alphabet.closeParen :: u := by
        rintro u rfl
        exact hbarren .close
      rw [run_closeList_of_ne hs hnot,
        Expectation.merge_eq_right (hexpected.mono (Nat.le_of_lt he)),
        Expectation.merge_eq_left (Expectation.below_one he)]
    · intro e
      dsimp only
      rw [NodeRule.closeList]
      split <;> exact passesOn_answer _
    · intro fault
      exact passesOn_answer _
    · intro f next e u hlt he hnext hu
      dsimp only
      rw [if_neg (Nat.ne_of_gt hlt)]
      have hbelow := (hexpected.mono (Nat.le_of_lt hlt)).merge he
      exact (ih hnext hu hbelow).mono (Nat.le_of_lt hlt)

theorem HasNotation.passesOn_listScript (hg : g.HasNotation) (hs : source.suffix? pos = some t)
    (rounds : Nat) :
    (NodeRule.listScript Grammar.expression Grammar.trivia rounds ⟨source, d⟩ pos).PassesOn
      (g.runNode source fuel) (g.runSkip source fuel) source pos := by
  have hrest : (View.mk source d).rest pos = t := Source.rest_of_suffix? hs
  rw [NodeRule.listScript, hrest]
  split
  next hopen =>
    obtain ⟨u, rfl⟩ := List.isPrefixOf_iff_prefix.mp hopen
    have hs' := Source.suffix?_cons hs
    cases d.inner? with
    | none => exact passesOn_answer _
    | some inner =>
      refine passesOn_skipOptional (fun reply => Or.inr (Or.inl rfl)) ?_
      intro next hnext
      obtain ⟨hle, u', hu', hstarts⟩ := hg.place_of_skipsTo hs' hnext
      exact (hg.passesOn_itemsFrom hu' hstarts (Expectation.below_none _)).mono (by omega)
  next => exact passesOn_answer _

theorem HasNotation.passesOn_quoteScript (hg : g.HasNotation) (hs : source.suffix? pos = some t) :
    (NodeRule.quoteScript Grammar.expression Grammar.trivia ⟨source, d⟩ pos).PassesOn
      (g.runNode source fuel) (g.runSkip source fuel) source pos := by
  have hrest : (View.mk source d).rest pos = t := Source.rest_of_suffix? hs
  rw [NodeRule.quoteScript, hrest]
  cases hop : QuoteOperator.ofText? t with
  | none => exact passesOn_answer _
  | some op =>
    obtain ⟨u, rfl⟩ := QuoteOperator.sign_isPrefix_of_ofText? hop
    have hs' := Source.suffix?_add hs
    cases d.inner? with
    | none => exact passesOn_answer _
    | some inner =>
      refine passesOn_skipOptional (fun reply => Or.inr (Or.inl rfl)) ?_
      intro next hnext
      obtain ⟨hle, u', hu', hstarts⟩ := hg.place_of_skipsTo hs' hnext
      refine PassesOn.mono (hg.passesOn_askExpression hu' hstarts ?_ ?_ ?_ ?_) (by omega)
      · intro e _ _
        rfl
      · intro e
        exact passesOn_answer _
      · intro fault
        exact passesOn_answer _
      · intro f stop e u _ _ _ _
        exact passesOn_answer _

/-- No alternative takes the place of one that rejects late, because none other can begin. -/
theorem HasNotation.passesOn_firstOf (hg : g.HasNotation) (hs : source.suffix? pos = some t)
    (ht : ¬ StartsTrivia t) {alternatives : List NodeHandle}
    (hrule : g.nodeRules[Grammar.expression.index]? =
      some (.alternation alternatives Grammar.trivia))
    (halt : ∀ slot, slot ∈ alternatives ↔ ∃ kind : Kind, slot = kind.slot) :
    (NodeRule.firstOf Grammar.trivia d pos alternatives Expectation.none).PassesOn
      (g.runNode source fuel) (g.runSkip source fuel) source pos := by
  intro visit hvisit
  rcases NodeRule.mem_visits_firstOf hvisit with ⟨slot, hslot, rfl⟩ | ⟨next, reply, rfl⟩
  · obtain ⟨kind, rfl⟩ := (halt slot).mp hslot
    refine ⟨⟨Or.inr ⟨kind, rfl⟩, t, hs, ht⟩, ?_⟩
    rintro e ⟨hreply, he⟩
    cases fuel with
    | zero => cases hreply
    | succ fuel =>
      have hopens : kind.Opens t := by
        by_cases h : kind.Opens t
        · exact h
        · cases hreply.symm.trans (hg.runNode_of_not_opens fuel d hs h)
          exact absurd he (Nat.lt_irrefl _)
      have hrun := hg.runNode_expression_of_reject hs hopens he hreply
      rw [runNode_succ hrule] at hrun
      exact ⟨he, hrun⟩
  · exact ⟨Or.inr (Or.inl rfl), fun _ => False.elim⟩

/-- The rules of the notation pass late rejections on. -/
theorem HasNotation.exists_rule (hg : g.HasNotation) {slot : NodeHandle}
    (hslot : slot = Grammar.expression ∨ ∃ kind : Kind, slot = kind.slot)
    (hs : source.suffix? pos = some t) (ht : ¬ StartsTrivia t) (fuel : Nat) (d : Depth) :
    ∃ rule, g.nodeRules[slot.index]? = some rule ∧
      (rule.script fuel ⟨source, d⟩ pos).PassesOn (g.runNode source fuel) (g.runSkip source fuel)
        source pos := by
  rcases hslot with rfl | ⟨kind, rfl⟩
  · obtain ⟨alternatives, hrule, halt⟩ := hg.expression
    exact ⟨_, hrule, hg.passesOn_firstOf hs ht hrule halt⟩
  · cases kind with
    | list => exact ⟨_, hg.list, hg.passesOn_listScript hs fuel⟩
    | atom => exact ⟨_, hg.atom, passesOn_answer _⟩
    | string => exact ⟨_, hg.string, passesOn_answer _⟩
    | quote => exact ⟨_, hg.quote, hg.passesOn_quoteScript hs⟩

end Grammar

end LispReader
