import Mathlib.Logic.ExistsUnique
import LispReader.Proofs.Run.Slot

/-!
# Trivia goes as far as it can

Behind any boundary of a source lies trivia, if only none, and a text that begins with none. There
is one place where this trivia ends. A slot that tries blank characters and comments, in whatever
order and however often, comes to that place and stays there.
-/

namespace LispReader

open Alphabet Notation

namespace Source

/-- Trivia lies between two offsets, and none behind it. -/
def TriviaUpTo (s : Source) (pos stop : Nat) : Prop :=
  ∃ k u, s.suffix? pos = some (k ++ u) ∧ Trivia k u ∧ ¬ StartsTrivia u ∧
    stop = pos + Text.width k

variable {s : Source} {pos stop stop' : Nat} {k u : Text}

theorem IsBoundary.exists_triviaUpTo (h : s.IsBoundary pos) : ∃ stop, s.TriviaUpTo pos stop := by
  obtain ⟨t, ht⟩ := Option.isSome_iff_exists.mp h
  obtain ⟨k, u, rfl, hk, hu⟩ := exists_trivia t
  exact ⟨pos + Text.width k, k, u, ht, hk, hu, rfl⟩

namespace TriviaUpTo

theorem unique (h : s.TriviaUpTo pos stop) (h' : s.TriviaUpTo pos stop') : stop = stop' := by
  obtain ⟨k, u, hs, hk, hu, rfl⟩ := h
  obtain ⟨k', u', hs', hk', hu', rfl⟩ := h'
  have he : k ++ u = k' ++ u' := Option.some.inj (hs.symm.trans hs')
  obtain ⟨rfl, -⟩ := hk.unique hk' hu hu' he
  rfl

/-- Where trivia ends, no more follows. -/
theorem stop_self (h : s.TriviaUpTo pos stop) : s.TriviaUpTo stop stop := by
  obtain ⟨k, u, hs, -, hu, rfl⟩ := h
  exact ⟨[], u, Source.suffix?_add hs, .nil, hu, rfl⟩

/-- No other trivia reaches further. -/
theorem width_le (h : s.TriviaUpTo pos stop) (hs : s.suffix? pos = some (k ++ u))
    (hk : Trivia k u) : pos + Text.width k ≤ stop := by
  obtain ⟨k', u', rfl, hk', hu'⟩ := exists_trivia u
  rw [← List.append_assoc] at hs
  have hfurthest : s.TriviaUpTo pos (pos + Text.width (k ++ k')) :=
    ⟨k ++ k', u', hs, hk.append hk', hu', rfl⟩
  have hstop := h.unique hfurthest
  rw [Text.width_append] at hstop
  omega

end TriviaUpTo

end Source

namespace Grammar

variable {g : Grammar} {s : Source} {pos stop fuel : Nat}

/-- A slot for trivia skips to the end of the trivia. -/
theorem HasTriviaParts.runSkip_eq (hg : g.HasTriviaParts) {slot : SkipHandle}
    {parts : List SkipHandle} (hslot : g.skipRules[slot.index]? = some (.trivia parts))
    (hparts : ∀ part, part ∈ parts ↔ part = Grammar.comment ∨ part = Grammar.whitespace)
    (h : s.TriviaUpTo pos stop) (hfuel : s.width + 3 ≤ fuel) (d : Depth) :
    g.runSkip s fuel slot d pos = some (.accept () stop Expectation.none) := by
  obtain ⟨k, u, hs, hk, hu, rfl⟩ := h
  have hwidth := Source.width_of_suffix? hs
  exact hg.runSkip_of_trivia hslot hparts hs hk hu (by omega)

/-- Trivia behind a boundary ends at one place, and no trivia reaches further. Every slot that
skips blank characters and comments accepts up to this place, without any expectation, and once
more from there skips nothing. The order of the two, and repetitions, make no difference. -/
theorem trivia_maximal (hg : g.HasTriviaParts) (hpos : s.IsBoundary pos) :
    (∃! stop, s.TriviaUpTo pos stop) ∧
    ∀ stop, s.TriviaUpTo pos stop →
      (∀ k u, s.suffix? pos = some (k ++ u) → Trivia k u → pos + Text.width k ≤ stop) ∧
      ∀ (slot : SkipHandle) (parts : List SkipHandle),
        g.skipRules[slot.index]? = some (.trivia parts) →
        (∀ part, part ∈ parts ↔ part = Grammar.comment ∨ part = Grammar.whitespace) →
        ∀ (d : Depth) (fuel : Nat), s.width + 3 ≤ fuel →
          g.runSkip s fuel slot d pos = some (.accept () stop Expectation.none) ∧
          g.runSkip s fuel slot d stop = some (.accept () stop Expectation.none) := by
  constructor
  · obtain ⟨stop, hstop⟩ := hpos.exists_triviaUpTo
    refine ⟨stop, hstop, ?_⟩
    intro stop' hstop'
    exact hstop'.unique hstop
  · intro stop hstop
    constructor
    · intro k u hs hk
      exact hstop.width_le hs hk
    · intro slot parts hslot hparts d fuel hfuel
      constructor
      · exact hg.runSkip_eq hslot hparts hstop hfuel d
      · exact hg.runSkip_eq hslot hparts hstop.stop_self hfuel d

/-- The grammar for fragments, with the parts of trivia in another order and one of them twice. -/
def blanksFirst : Grammar :=
  { standard .fragment with
    skipRules := (standard .fragment).skipRules.setIfInBounds trivia.index
      (.trivia [whitespace, comment, whitespace]) }

/-- A blank character, a comment with its line feed, another blank character and an atom. -/
def commented : Source := Source.ofText [' ', ';', 'é', '\n', '\t', 'a']

theorem triviaUpTo_commented : commented.TriviaUpTo 0 6 := by
  refine ⟨' ' :: semicolon :: (['é'] ++ '\n' :: ['\t']), ['a'], rfl, ?_, ?_, rfl⟩
  · exact .blank (by decide) (.comment (by decide) (.blank (by decide) .nil))
  · rintro (hblank | -)
    exact absurd hblank (by decide)

theorem trivia_maximal_blanksFirst :
    blanksFirst.HasTriviaParts ∧ commented.IsBoundary 0 ∧
      (∃! stop, commented.TriviaUpTo 0 stop) ∧ commented.TriviaUpTo 0 6 ∧
      blanksFirst.runSkip commented 10 trivia none 0 = some (.accept () 6 Expectation.none) ∧
      blanksFirst.runSkip commented 10 trivia none 6 = some (.accept () 6 Expectation.none) := by
  have hg : blanksFirst.HasTriviaParts := ⟨rfl, rfl⟩
  have hpos : commented.IsBoundary 0 := commented.isBoundary_zero
  have hparts : ∀ part, part ∈ [whitespace, comment, whitespace] ↔
      part = comment ∨ part = whitespace := by
    intro part
    grind
  obtain ⟨hunique, hstop⟩ := trivia_maximal hg hpos
  obtain ⟨-, hslot⟩ := hstop 6 triviaUpTo_commented
  obtain ⟨hfirst, hagain⟩ := hslot trivia _ rfl hparts none 10 (by decide)
  exact ⟨hg, hpos, hunique, triviaUpTo_commented, hfirst, hagain⟩

end Grammar

end LispReader
