import LispReader.Grammar.Run
import LispReader.Proofs.Furthest
import LispReader.Proofs.Run.Token

/-!
# Running the slots of the notation

The replies of the slots that skip text, and of an alternation given the replies of
its alternatives. A grammar has the notation if its slots hold the rules of the
notation; the alternatives of an expression, and the parts of trivia, may come in
any order and more than once.
-/

namespace LispReader

open Notation

namespace Grammar

/-- The slots for blank characters and comments hold the rules of the notation. -/
structure HasTriviaParts (g : Grammar) : Prop where
  whitespace : g.skipRules[Grammar.whitespace.index]? = some .whitespace
  comment : g.skipRules[Grammar.comment.index]? = some .comment

/-- The slots of the notation hold its rules. -/
structure HasNotation (g : Grammar) : Prop where
  atom : g.nodeRules[Grammar.atom.index]? = some (.atom Alphabet.isReserved)
  string : g.nodeRules[Grammar.string.index]? = some .string
  list : g.nodeRules[Grammar.list.index]? = some (.list Grammar.expression Grammar.trivia)
  quote : g.nodeRules[Grammar.quote.index]? = some (.quote Grammar.expression Grammar.trivia)
  expression : ∃ alternatives,
    g.nodeRules[Grammar.expression.index]? = some (.alternation alternatives Grammar.trivia) ∧
      ∀ slot, slot ∈ alternatives ↔ ∃ kind : Kind, slot = kind.slot
  whitespace : g.skipRules[Grammar.whitespace.index]? = some .whitespace
  comment : g.skipRules[Grammar.comment.index]? = some .comment
  shebang : g.skipRules[Grammar.shebang.index]? = some .shebang
  trivia : ∃ parts, g.skipRules[Grammar.trivia.index]? = some (.trivia parts) ∧
    ∀ slot, slot ∈ parts ↔ slot = Grammar.comment ∨ slot = Grammar.whitespace

theorem hasNotation_standard (settings : Settings) : (standard settings).HasNotation where
  atom := rfl
  string := rfl
  list := rfl
  quote := rfl
  expression := by
    refine ⟨_, rfl, ?_⟩
    intro slot
    simp only [List.mem_cons, List.not_mem_nil, or_false]
    constructor
    · rintro (rfl | rfl | rfl | rfl)
      · exact ⟨.list, rfl⟩
      · exact ⟨.atom, rfl⟩
      · exact ⟨.string, rfl⟩
      · exact ⟨.quote, rfl⟩
    · rintro ⟨kind, rfl⟩
      cases kind <;> simp [Kind.slot]
  whitespace := rfl
  comment := rfl
  shebang := rfl
  trivia := ⟨_, rfl, fun slot => by simp⟩

variable {g : Grammar} {source : Source} {fuel pos : Nat} {d : Depth}

theorem HasNotation.hasTriviaParts (hg : g.HasNotation) : g.HasTriviaParts :=
  ⟨hg.whitespace, hg.comment⟩

theorem runNode_succ {slot : NodeHandle} {rule : NodeRule}
    (h : g.nodeRules[slot.index]? = some rule) :
    g.runNode source (fuel + 1) slot d pos =
      (rule.script fuel ⟨source, d⟩ pos).run (g.runNode source fuel) (g.runSkip source fuel) := by
  rw [runNode, h]

theorem runSkip_succ {slot : SkipHandle} {rule : SkipRule}
    (h : g.skipRules[slot.index]? = some rule) :
    g.runSkip source (fuel + 1) slot d pos =
      (rule.script fuel ⟨source, d⟩ pos).run (g.runNode source fuel) (g.runSkip source fuel) := by
  rw [runSkip, h]

/-! ## Trivia -/

/-- A part of trivia skips some, or rejects. -/
theorem HasTriviaParts.runSkip_part (hg : g.HasTriviaParts) (fuel : Nat) (d : Depth)
    {slot : SkipHandle} {t : Text}
    (hslot : slot = Grammar.comment ∨ slot = Grammar.whitespace)
    (hs : source.suffix? pos = some t) :
    ∃ k u, t = k ++ u ∧ Trivia k u ∧
      (k ≠ [] ∧ g.runSkip source (fuel + 1) slot d pos = some (.done () (pos + Text.width k)) ∨
        k = [] ∧ ∃ e, g.runSkip source (fuel + 1) slot d pos = some (.reject e)) := by
  have hrest : (View.mk source d).rest pos = t := Source.rest_of_suffix? hs
  rcases hslot with rfl | rfl
  · rw [runSkip_succ hg.comment, SkipRule.script, hrest, Script.run]
    rcases Token.comment_cases t pos with ⟨k, u, ht, hk, htrivia, hrun⟩ | ⟨-, hrun⟩
    · exact ⟨k, u, ht, htrivia, Or.inl ⟨hk, by rw [hrun]⟩⟩
    · exact ⟨[], t, rfl, .nil, Or.inr ⟨rfl, _, by rw [hrun]; rfl⟩⟩
  · rw [runSkip_succ hg.whitespace, SkipRule.script, hrest, Script.run]
    rcases Token.whitespace_cases t pos with ⟨k, u, ht, hk, htrivia, hrun⟩ | ⟨-, hrun⟩
    · exact ⟨k, u, ht, htrivia, Or.inl ⟨hk, by rw [hrun]⟩⟩
    · exact ⟨[], t, rfl, .nil, Or.inr ⟨rfl, _, by rw [hrun]; rfl⟩⟩

/-- Where both parts of trivia reject, there is none. -/
theorem HasTriviaParts.not_startsTrivia (hg : g.HasTriviaParts) {t : Text}
    (hs : source.suffix? pos = some t)
    (hc : ∃ e, g.runSkip source (fuel + 1) Grammar.comment d pos = some (.reject e))
    (hw : ∃ e, g.runSkip source (fuel + 1) Grammar.whitespace d pos = some (.reject e)) :
    ¬ StartsTrivia t := by
  have hrest : (View.mk source d).rest pos = t := Source.rest_of_suffix? hs
  obtain ⟨e, he⟩ := hc
  obtain ⟨e', he'⟩ := hw
  rw [runSkip_succ hg.comment, SkipRule.script, hrest, Script.run] at he
  rw [runSkip_succ hg.whitespace, SkipRule.script, hrest, Script.run] at he'
  intro ht
  cases ht with
  | blank hb =>
    rcases Token.whitespace_cases (_ :: _) pos with ⟨k, u, -, -, -, hrun⟩ | ⟨hn, -⟩
    · rw [hrun] at he'
      cases Option.some.inj he'
    · exact absurd ((hn _ _ rfl).symm.trans hb) (by decide)
  | comment =>
    rcases Token.comment_cases (_ :: _) pos with ⟨k, u, -, -, -, hrun⟩ | ⟨hn, -⟩
    · rw [hrun] at he
      cases Option.some.inj he
    · exact hn _ _ rfl rfl

/-- One round over parts of trivia skips trivia; if it skips none, all parts reject. -/
theorem HasTriviaParts.run_eachPart (hg : g.HasTriviaParts) (fuel : Nat) (d : Depth)
    {parts : List SkipHandle} {t : Text}
    (hparts : ∀ slot ∈ parts, slot = Grammar.comment ∨ slot = Grammar.whitespace)
    (hs : source.suffix? pos = some t) :
    ∃ k u, t = k ++ u ∧ Trivia k u ∧
      (∀ resume, (SkipRule.eachPart d parts pos resume).run (g.runNode source (fuel + 1))
          (g.runSkip source (fuel + 1)) =
        (resume (pos + Text.width k)).run (g.runNode source (fuel + 1))
          (g.runSkip source (fuel + 1))) ∧
      (k = [] → ∀ slot ∈ parts,
        ∃ e, g.runSkip source (fuel + 1) slot d pos = some (.reject e)) := by
  induction parts generalizing pos t with
  | nil => exact ⟨[], t, rfl, .nil, fun _ => rfl, fun _ => nofun⟩
  | cons slot parts ih =>
    have hslot := hparts slot List.mem_cons_self
    have hrest : ∀ s ∈ parts, s = Grammar.comment ∨ s = Grammar.whitespace :=
      fun s hmem => hparts s (List.mem_cons_of_mem slot hmem)
    obtain ⟨k, u, rfl, hk, hrun⟩ := hg.runSkip_part fuel d hslot hs
    obtain ⟨k', u, rfl, hk', hrun', hrej⟩ := ih hrest (Source.suffix?_add hs)
    refine ⟨k ++ k', u, by simp, hk.append hk', ?_, ?_⟩
    · intro resume
      rw [SkipRule.eachPart, Script.run_skipOptional, Text.width_append, ← Nat.add_assoc,
        ← hrun' resume]
      rcases hrun with ⟨-, hrun⟩ | ⟨rfl, e, hrun⟩
      · rw [hrun]
        rfl
      · rw [hrun]
        rfl
    · intro hnil
      obtain ⟨rfl, rfl⟩ := List.append_eq_nil_iff.mp hnil
      rcases hrun with ⟨hne, -⟩ | ⟨-, e, hrun⟩
      · exact absurd rfl hne
      · intro s hmem
        rcases List.mem_cons.mp hmem with rfl | hmem
        · exact ⟨e, hrun⟩
        · exact hrej rfl s hmem

/-- Rounds over all parts skip trivia as far as it goes. -/
theorem HasTriviaParts.run_triviaFrom (hg : g.HasTriviaParts) (fuel : Nat) (d : Depth)
    {parts : List SkipHandle} {t : Text}
    {rounds : Nat}
    (hparts : ∀ slot, slot ∈ parts ↔ slot = Grammar.comment ∨ slot = Grammar.whitespace)
    (hs : source.suffix? pos = some t) (hr : Text.width t < rounds) :
    ∃ k u, t = k ++ u ∧ Trivia k u ∧ ¬ StartsTrivia u ∧
      (SkipRule.triviaFrom parts d rounds pos).run (g.runNode source (fuel + 1))
        (g.runSkip source (fuel + 1)) = some (.done () (pos + Text.width k)) := by
  induction rounds generalizing pos t with
  | zero => omega
  | succ rounds ih =>
    obtain ⟨k, u, rfl, hk, hrun, hrej⟩ :=
      hg.run_eachPart fuel d (fun slot hmem => (hparts slot).mp hmem) hs
    rw [SkipRule.triviaFrom, hrun]
    by_cases hnil : k = []
    · subst hnil
      refine ⟨[], u, rfl, .nil, ?_, ?_⟩
      · exact hg.not_startsTrivia hs (hrej rfl _ ((hparts _).mpr (Or.inl rfl)))
          (hrej rfl _ ((hparts _).mpr (Or.inr rfl)))
      · rw [if_pos (by simp)]
        rfl
    · have hpos := Text.width_pos hnil
      rw [Text.width_append] at hr
      obtain ⟨k', u, rfl, hk', hu, hrun'⟩ := ih (Source.suffix?_add hs) (by omega)
      refine ⟨k ++ k', u, by simp, hk.append hk', hu, ?_⟩
      rw [if_neg (by omega), hrun', Text.width_append, Nat.add_assoc]

/-- A slot that holds trivia of both parts, in any order and number, skips the trivia that is
there. -/
theorem HasTriviaParts.runSkip_of_trivia (hg : g.HasTriviaParts) {slot : SkipHandle}
    {parts : List SkipHandle} {k u : Text} (hslot : g.skipRules[slot.index]? = some (.trivia parts))
    (hparts : ∀ part, part ∈ parts ↔ part = Grammar.comment ∨ part = Grammar.whitespace)
    (hs : source.suffix? pos = some (k ++ u)) (hk : Trivia k u) (hu : ¬ StartsTrivia u)
    (hf : Text.width (k ++ u) + 3 ≤ fuel) :
    g.runSkip source fuel slot d pos = some (.done () (pos + Text.width k)) := by
  obtain ⟨n, rfl⟩ : ∃ n, fuel = n + 1 + 1 := ⟨fuel - 2, by omega⟩
  obtain ⟨k', u', he, hk', hu', hrun⟩ :=
    hg.run_triviaFrom n d hparts hs (show Text.width (k ++ u) < n + 1 by omega)
  obtain ⟨rfl, rfl⟩ := hk.unique hk' hu hu' he
  rw [runSkip_succ hslot, SkipRule.script]
  exact hrun

/-- The trivia slot skips the trivia that is there. -/
theorem HasNotation.runSkip_trivia (hg : g.HasNotation) {k u : Text}
    (hs : source.suffix? pos = some (k ++ u)) (hk : Trivia k u) (hu : ¬ StartsTrivia u)
    (hf : Text.width (k ++ u) + 3 ≤ fuel) :
    g.runSkip source fuel Grammar.trivia d pos = some (.done () (pos + Text.width k)) := by
  obtain ⟨parts, hrule, hparts⟩ := hg.trivia
  exact hg.hasTriviaParts.runSkip_of_trivia hrule hparts hs hk hu hf

/-- A script that skips trivia goes on behind it. -/
theorem HasNotation.run_skipOptional_trivia (hg : g.HasNotation) {α : Type} {k u : Text}
    (hs : source.suffix? pos = some (k ++ u)) (hk : Trivia k u) (hu : ¬ StartsTrivia u)
    (hf : Text.width (k ++ u) + 3 ≤ fuel) (resume : Nat → Script α) :
    (Script.skipOptional Grammar.trivia d pos resume).run (g.runNode source fuel)
        (g.runSkip source fuel) =
      (resume (pos + Text.width k)).run (g.runNode source fuel) (g.runSkip source fuel) := by
  rw [Script.run_skipOptional, hg.runSkip_trivia hs hk hu hf]
  rfl

end Grammar

end LispReader
