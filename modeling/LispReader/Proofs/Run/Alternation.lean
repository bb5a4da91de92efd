import LispReader.Proofs.Run.Slot

/-!
# Running an expression

An expression tries its alternatives in order. At most one of them can begin at a
text; the others reject in front of it, so they leave no trace in what the one
replies. Where none can begin, all of them are expected.
-/

namespace LispReader

open Notation

namespace Notation

/-- What is expected where a form is missing. -/
def wantedForm (pos : Nat) : Expectation where
  offset := pos
  items := [Wanted.atom, Wanted.openingParen, Wanted.quote, Wanted.stringLiteral]
  ascending := by decide
  offset_of_nil := nofun

theorem mem_wantedForm {pos : Nat} {x : String} :
    x ∈ (wantedForm pos).items ↔ ∃ kind : Kind, x = kind.wanted := by
  simp only [wantedForm, List.mem_cons, List.not_mem_nil, or_false]
  constructor
  · rintro (rfl | rfl | rfl | rfl)
    · exact ⟨.atom, rfl⟩
    · exact ⟨.list, rfl⟩
    · exact ⟨.quote, rfl⟩
    · exact ⟨.string, rfl⟩
  · rintro ⟨kind, rfl⟩
    cases kind <;> simp [Kind.wanted]

end Notation

namespace Expectation

/-- Adds a description to those at the same offset. -/
theorem merge_one {e : Expectation} {pos : Nat} (what : String) (he : e = none ∨ e.offset = pos) :
    (e.merge (one pos what)).offset = pos ∧
      ∀ x, x ∈ (e.merge (one pos what)).items ↔ x ∈ e.items ∨ x = what := by
  have hone : ∀ x, x ∈ (one pos what).items ↔ x = what := fun x => List.mem_singleton
  by_cases hn : e = none
  · subst hn
    rw [none_merge]
    refine ⟨rfl, fun x => (hone x).trans ⟨Or.inr, ?_⟩⟩
    rintro (h | h)
    · exact absurd h List.not_mem_nil
    · exact h
  · have ho : e.offset = (one pos what).offset := he.resolve_left hn
    have hne : one pos what ≠ none := by
      intro h
      exact absurd (congrArg isNone h) (by simp)
    constructor
    · exact (offset_merge_of_eq hn hne ho).trans ho
    · intro x
      rw [items_merge_of_eq hn hne ho, mem_union, hone]

end Expectation

namespace NodeRule

variable {node : NodeHandle → Depth → Nat → Option (Reply Form)}
  (skip : SkipHandle → Depth → Nat → Option (Reply Unit)) (trivia : SkipHandle)
  {d : Depth} {pos : Nat} {slots : List NodeHandle} {kind : Kind}

/-- Where every alternative is missing, the expression is. -/
theorem run_firstOf_of_missing
    (hnode : ∀ k : Kind, node k.slot d pos = some (.missing pos k.wanted))
    (hslots : ∀ slot ∈ slots, ∃ k : Kind, slot = k.slot) (e : Expectation)
    (he : e = Expectation.none ∨ e.offset = pos) :
    ∃ e', (firstOf trivia d pos slots e).run node skip = some (.reject e') ∧
      (e' = Expectation.none ∨ e'.offset = pos) ∧
      ∀ x, x ∈ e'.items ↔ x ∈ e.items ∨ ∃ k : Kind, k.slot ∈ slots ∧ x = k.wanted := by
  induction slots generalizing e with
  | nil => exact ⟨e, rfl, he, fun x => by simp⟩
  | cons slot slots ih =>
    obtain ⟨k, rfl⟩ := hslots slot List.mem_cons_self
    obtain ⟨ho, hi⟩ := Expectation.merge_one k.wanted he
    obtain ⟨e', hrun, he', hmem⟩ :=
      ih (fun s hs => hslots s (List.mem_cons_of_mem _ hs)) _ (Or.inr ho)
    refine ⟨e', ?_, he', ?_⟩
    · rw [firstOf, Script.run, hnode k]
      exact hrun
    · intro x
      rw [hmem, hi, or_assoc]
      apply or_congr_right
      constructor
      · rintro (rfl | ⟨j, hj, rfl⟩)
        · exact ⟨k, List.mem_cons_self, rfl⟩
        · exact ⟨j, List.mem_cons_of_mem _ hj, rfl⟩
      · rintro ⟨j, hj, rfl⟩
        rcases List.mem_cons.mp hj with hj | hj
        · exact Or.inl (congrArg Kind.wanted (Kind.slot_injective hj))
        · exact Or.inr ⟨j, hj, rfl⟩

/-- The alternative that accepts is followed by trivia. -/
theorem run_firstOf_of_accept {f : Form} {next p : Nat} {e : Expectation}
    (hother : ∀ k : Kind, k ≠ kind → node k.slot d pos = some (.missing pos k.wanted))
    (hnode : node kind.slot d pos = some (.accept f next e)) (hp : pos < p) (he : e.offset < p)
    (hslots : ∀ slot ∈ slots, ∃ k : Kind, slot = k.slot) (hmem : kind.slot ∈ slots)
    (e₀ : Expectation) (he₀ : e₀.offset < p) :
    ∃ e', e'.offset < p ∧ (firstOf trivia d pos slots e₀).run node skip =
      (Script.skipOptional trivia d next fun stop =>
        .answer (.accept f stop e')).run node skip := by
  induction slots generalizing e₀ with
  | nil => exact absurd hmem List.not_mem_nil
  | cons slot slots ih =>
    obtain ⟨k, rfl⟩ := hslots slot List.mem_cons_self
    by_cases hk : k = kind
    · subst hk
      refine ⟨e₀.merge e, Expectation.offset_merge_lt he₀ he, ?_⟩
      rw [firstOf, Script.run, hnode]
    · have hmem' : kind.slot ∈ slots := by
        rcases List.mem_cons.mp hmem with h | h
        · exact absurd (Kind.slot_injective h).symm hk
        · exact h
      obtain ⟨e', he', hrun⟩ := ih (fun s hs => hslots s (List.mem_cons_of_mem _ hs)) hmem'
        (e₀.merge (Expectation.one pos k.wanted)) (Expectation.offset_merge_lt he₀ hp)
      refine ⟨e', he', ?_⟩
      rw [firstOf, Script.run, hother k hk]
      exact hrun

/-- The alternative that aborts ends the expression. -/
theorem run_firstOf_of_abort {fault : Fault}
    (hother : ∀ k : Kind, k ≠ kind → node k.slot d pos = some (.missing pos k.wanted))
    (hnode : node kind.slot d pos = some (.abort fault))
    (hslots : ∀ slot ∈ slots, ∃ k : Kind, slot = k.slot) (hmem : kind.slot ∈ slots)
    (e₀ : Expectation) :
    (firstOf trivia d pos slots e₀).run node skip = some (.abort fault) := by
  induction slots generalizing e₀ with
  | nil => exact absurd hmem List.not_mem_nil
  | cons slot slots ih =>
    obtain ⟨k, rfl⟩ := hslots slot List.mem_cons_self
    by_cases hk : k = kind
    · subst hk
      rw [firstOf, Script.run, hnode]
      rfl
    · have hmem' : kind.slot ∈ slots := by
        rcases List.mem_cons.mp hmem with h | h
        · exact absurd (Kind.slot_injective h).symm hk
        · exact h
      rw [firstOf, Script.run, hother k hk]
      exact ih (fun s hs => hslots s (List.mem_cons_of_mem _ hs)) hmem' _

/-- What the alternative that got further expects is what the expression expects. -/
theorem run_firstOf_of_reject {e : Expectation} (he : pos < e.offset)
    (hother : ∀ k : Kind, k ≠ kind → node k.slot d pos = some (.missing pos k.wanted))
    (hnode : node kind.slot d pos = some (.reject e))
    (hslots : ∀ slot ∈ slots, ∃ k : Kind, slot = k.slot) (e₀ : Expectation)
    (he₀ : e₀ = e ∨ e₀.offset ≤ pos ∧ kind.slot ∈ slots) :
    (firstOf trivia d pos slots e₀).run node skip = some (.reject e) := by
  induction slots generalizing e₀ with
  | nil =>
    rcases he₀ with rfl | ⟨-, hmem⟩
    · rfl
    · exact absurd hmem List.not_mem_nil
  | cons slot slots ih =>
    obtain ⟨k, rfl⟩ := hslots slot List.mem_cons_self
    have ih := ih fun s hs => hslots s (List.mem_cons_of_mem _ hs)
    by_cases hk : k = kind
    · subst hk
      rw [firstOf, Script.run, hnode]
      refine ih _ (Or.inl ?_)
      rcases he₀ with rfl | ⟨ho, -⟩
      · exact Expectation.merge_self e₀
      · exact Expectation.merge_eq_right (Or.inr (by omega))
    · rw [firstOf, Script.run, hother k hk]
      apply ih
      rcases he₀ with rfl | ⟨ho, hmem⟩
      · exact Or.inl (Expectation.merge_eq_left (Or.inr he))
      · refine Or.inr ⟨Nat.lt_succ_iff.mp (Expectation.offset_merge_lt ?_ ?_), ?_⟩
        · exact Nat.lt_succ_of_le ho
        · exact Nat.lt_succ_self pos
        · rcases List.mem_cons.mp hmem with h | h
          · exact absurd (Kind.slot_injective h).symm hk
          · exact h

end NodeRule

namespace Grammar

variable {g : Grammar} {source : Source} {fuel pos : Nat} {d : Depth} {t : Text} {kind : Kind}

/-- A rule rejects in front of a text that it cannot begin to read. -/
theorem HasNotation.runNode_of_not_opens (hg : g.HasNotation) (fuel : Nat) (d : Depth)
    (hs : source.suffix? pos = some t)
    (hk : ¬ kind.Opens t) :
    g.runNode source (fuel + 1) kind.slot d pos = some (.missing pos kind.wanted) := by
  have hrest : (View.mk source d).rest pos = t := Source.rest_of_suffix? hs
  cases kind with
  | list =>
    have hp : [Alphabet.openParen].isPrefixOf t = false := by
      cases t with
      | nil => rfl
      | cons c u =>
        have hc : Alphabet.openParen ≠ c := by
          rintro rfl
          exact hk .list
        simp [List.isPrefixOf, hc]
    rw [Kind.slot, runNode_succ hg.list, NodeRule.script, NodeRule.listScript, hrest, hp]
    rfl
  | atom =>
    have ht : ¬ StartsConstituent Alphabet.isReserved t := fun h => hk (.atom h)
    rw [Kind.slot, runNode_succ hg.atom, NodeRule.script, hrest,
      Token.atom_of_not_startsConstituent ht]
    rfl
  | string =>
    have ht : ∀ u, t ≠ Alphabet.quotation :: u := by
      rintro u rfl
      exact hk .string
    rw [Kind.slot, runNode_succ hg.string, NodeRule.script, hrest, Token.string_of_ne ht]
    rfl
  | quote =>
    have ho : QuoteOperator.ofText? t = none := by
      apply ofText?_eq_none
      rintro c u rfl hc
      exact hk (.quote hc)
    rw [Kind.slot, runNode_succ hg.quote, NodeRule.script, NodeRule.quoteScript, hrest, ho]
    rfl

/-- The other rules reject in front of a text that one rule can begin to read. -/
theorem HasNotation.runNode_of_ne (hg : g.HasNotation) (fuel : Nat) (d : Depth)
    (hs : source.suffix? pos = some t)
    (hk : kind.Opens t) (k : Kind) (hne : k ≠ kind) :
    g.runNode source (fuel + 1) k.slot d pos = some (.missing pos k.wanted) :=
  hg.runNode_of_not_opens fuel d hs fun hk' => hne (hk'.unique hk)

/-- An expression is missing at a text that no rule can begin to read. -/
theorem HasNotation.runNode_expression_of_barren (hg : g.HasNotation)
    (hs : source.suffix? pos = some t) (ht : Barren t) :
    g.runNode source (fuel + 2) Grammar.expression d pos = some (.reject (wantedForm pos)) := by
  obtain ⟨alternatives, hrule, halt⟩ := hg.expression
  obtain ⟨e, hrun, he, hmem⟩ := NodeRule.run_firstOf_of_missing (g.runSkip source (fuel + 1))
    Grammar.trivia (fun k => hg.runNode_of_not_opens fuel d hs (ht.not_opens k))
    (fun slot hslot => (halt slot).mp hslot) Expectation.none (Or.inl rfl)
  have hitems : ∀ x, x ∈ e.items ↔ x ∈ (wantedForm pos).items := by
    intro x
    rw [hmem, mem_wantedForm]
    constructor
    · rintro (h | ⟨k, -, rfl⟩)
      · exact absurd h List.not_mem_nil
      · exact ⟨k, rfl⟩
    · rintro ⟨k, rfl⟩
      exact Or.inr ⟨k, (halt _).mpr ⟨k, rfl⟩, rfl⟩
  have hoff : e.offset = pos := by
    rcases he with rfl | he
    · exact absurd ((hitems Wanted.atom).mpr (mem_wantedForm.mpr ⟨.atom, rfl⟩)) List.not_mem_nil
    · exact he
  rw [runNode_succ hrule, NodeRule.script, hrun, Expectation.eq_of_mem_items hoff hitems]

/-- An expression accepts what one of its rules accepts, and the trivia behind it. -/
theorem HasNotation.runNode_expression_of_accept (hg : g.HasNotation) {f : Form}
    {next p : Nat} {e : Expectation} {k u : Text} (hs : source.suffix? pos = some t)
    (hk : kind.Opens t)
    (hrun : g.runNode source (fuel + 1) kind.slot d pos = some (.accept f next e))
    (hp : pos < p) (he : e.offset < p) (hnext : source.suffix? next = some (k ++ u))
    (htrivia : Trivia k u) (hu : ¬ StartsTrivia u) (hf : Text.width (k ++ u) + 2 ≤ fuel) :
    ∃ e', e'.offset < p ∧ g.runNode source (fuel + 2) Grammar.expression d pos =
      some (.accept f (next + Text.width k) e') := by
  obtain ⟨alternatives, hrule, halt⟩ := hg.expression
  obtain ⟨e', he', hfirst⟩ := NodeRule.run_firstOf_of_accept (g.runSkip source (fuel + 1))
    Grammar.trivia (hg.runNode_of_ne fuel d hs hk) hrun hp he
    (fun slot hslot => (halt slot).mp hslot) ((halt _).mpr ⟨kind, rfl⟩) Expectation.none
    (Nat.zero_lt_of_lt hp)
  refine ⟨e', he', ?_⟩
  rw [runNode_succ hrule, NodeRule.script, hfirst,
    hg.run_skipOptional_trivia hnext htrivia hu (by omega)]
  rfl

/-- An expression aborts where one of its rules does. -/
theorem HasNotation.runNode_expression_of_abort (hg : g.HasNotation) {fault : Fault}
    (hs : source.suffix? pos = some t) (hk : kind.Opens t)
    (hrun : g.runNode source (fuel + 1) kind.slot d pos = some (.abort fault)) :
    g.runNode source (fuel + 2) Grammar.expression d pos = some (.abort fault) := by
  obtain ⟨alternatives, hrule, halt⟩ := hg.expression
  rw [runNode_succ hrule]
  exact NodeRule.run_firstOf_of_abort _ _ (hg.runNode_of_ne fuel d hs hk) hrun
    (fun slot hslot => (halt slot).mp hslot) ((halt _).mpr ⟨kind, rfl⟩) Expectation.none

/-- An expression rejects as the rule does that got further than its beginning. -/
theorem HasNotation.runNode_expression_of_reject (hg : g.HasNotation) {e : Expectation}
    (hs : source.suffix? pos = some t) (hk : kind.Opens t) (he : pos < e.offset)
    (hrun : g.runNode source (fuel + 1) kind.slot d pos = some (.reject e)) :
    g.runNode source (fuel + 2) Grammar.expression d pos = some (.reject e) := by
  obtain ⟨alternatives, hrule, halt⟩ := hg.expression
  rw [runNode_succ hrule]
  exact NodeRule.run_firstOf_of_reject _ _ he (hg.runNode_of_ne fuel d hs hk) hrun
    (fun slot hslot => (halt slot).mp hslot) Expectation.none
    (Or.inr ⟨Nat.zero_le pos, (halt _).mpr ⟨kind, rfl⟩⟩)

end Grammar

end LispReader
