import LispReader.Proofs.Run.Slot

/-!
# Atoms are as long as they can be

Which characters an atom may hold is up to the slot. Whatever characters are reserved there, an
atom is the longest run of unreserved characters and escaped reserved ones, and without any the
slot says what is missing. So a text that is written with an escape in front of every reserved
character is read back up to its end, unless more characters of an atom follow. This needs the
escape itself to be reserved.
-/

namespace LispReader

open Alphabet Notation

namespace Notation

variable {reserved : Char → Bool} {t v v' w x x' : Text}

/-- The longest piece in front of a text that consists of characters of an atom, and what it
says. -/
structure LongestRun (reserved : Char → Bool) (t v x : Text) : Prop where
  isPrefix : v <+: t
  constituents : Constituents reserved v x
  longest : ∀ v' x', v' <+: t → Constituents reserved v' x' → v' <+: v

theorem Constituents.append (h : Constituents reserved v x) (h' : Constituents reserved v' x') :
    Constituents reserved (v ++ v') (x ++ x') := by
  induction h with
  | nil => exact h'
  | plain hc hr _ ih => exact .plain hc hr ih
  | escaped hr _ ih => exact .escaped hr ih

theorem StartsConstituent.exists_constituents (h : StartsConstituent reserved t) :
    ∃ v x, v ≠ [] ∧ v <+: t ∧ Constituents reserved v x := by
  cases h with
  | @plain c t hc hr => exact ⟨[c], [c], nofun, ⟨t, rfl⟩, .plain hc hr .nil⟩
  | @escaped c t hr => exact ⟨[escape, c], [c], nofun, ⟨t, rfl⟩, .escaped hr .nil⟩

/-- In front of a text that begins with no character of an atom, none reaches further. -/
theorem Constituents.prefix_of_prefix (h' : Constituents reserved v' x')
    (h : Constituents reserved v x) (hw : ¬ StartsConstituent reserved w) (hv' : v' <+: v ++ w) :
    v' <+: v := by
  induction h' generalizing v x with
  | nil => exact List.nil_prefix
  | @plain c v' x' hc hr h' ih =>
    cases h with
    | nil =>
      obtain ⟨u, rfl⟩ := hv'
      exact absurd (.plain hc hr) hw
    | plain _ _ h =>
      rw [List.cons_append, List.cons_prefix_cons] at hv'
      rw [List.cons_prefix_cons]
      exact ⟨hv'.1, ih h hv'.2⟩
    | escaped _ _ =>
      rw [List.cons_append, List.cons_prefix_cons] at hv'
      exact absurd hv'.1 hc
  | @escaped c v' x' hr h' ih =>
    cases h with
    | nil =>
      obtain ⟨u, rfl⟩ := hv'
      exact absurd (.escaped hr) hw
    | plain hc _ _ =>
      rw [List.cons_append, List.cons_prefix_cons] at hv'
      exact absurd hv'.1.symm hc
    | escaped _ h =>
      rw [List.cons_append, List.cons_append, List.cons_prefix_cons, List.cons_prefix_cons] at hv'
      rw [List.cons_prefix_cons, List.cons_prefix_cons]
      exact ⟨rfl, hv'.2.1, ih h hv'.2.2⟩

/-- A run of characters of an atom is the longest one if and only if no more follow. -/
theorem longestRun_append_iff :
    LongestRun reserved (v ++ w) v x ↔
      Constituents reserved v x ∧ ¬ StartsConstituent reserved w := by
  constructor
  · intro h
    refine ⟨h.constituents, ?_⟩
    intro hw
    obtain ⟨v', x', hne, ⟨u, rfl⟩, hv'⟩ := hw.exists_constituents
    have hlonger : v ++ v' <+: v ++ (v' ++ u) := by
      rw [← List.append_assoc]
      exact List.prefix_append _ _
    have hlength := (h.longest _ _ hlonger (h.constituents.append hv')).length_le
    rw [List.length_append] at hlength
    exact hne (List.eq_nil_of_length_eq_zero (by omega))
  · rintro ⟨h, hw⟩
    refine ⟨List.prefix_append v w, h, ?_⟩
    intro v' x' hpre hv'
    exact hv'.prefix_of_prefix h hw hpre

/-- Every text begins with a longest run, which is not empty if there is a character for it. -/
theorem exists_longestRun (reserved : Char → Bool) (t : Text) :
    ∃ v x, LongestRun reserved t v x ∧ (StartsConstituent reserved t → v ≠ []) := by
  obtain ⟨v, x, w, rfl, hv, hw⟩ := Notation.exists_constituents reserved t
  refine ⟨v, x, longestRun_append_iff.mpr ⟨hv, hw⟩, ?_⟩
  rintro ht rfl
  exact hw ht

theorem escapeReserved_ne_nil (hw : w ≠ []) : escapeReserved reserved w ≠ [] := by
  cases w with
  | nil => exact absurd rfl hw
  | cons c w =>
    rw [escapeReserved, List.flatMap_cons]
    split
    · exact List.cons_ne_nil _ _
    · exact List.cons_ne_nil _ _

end Notation

namespace Grammar

variable {g : Grammar} {s : Source} {slot : NodeHandle} {reserved : Char → Bool} {fuel pos : Nat}
  {d : Depth} {v x t : Text}

/-- A slot for atoms takes the longest run. -/
theorem runNode_of_longestRun (hslot : g.nodeRules[slot.index]? = some (.atom reserved))
    (hs : s.suffix? pos = some t) (h : LongestRun reserved t v x) (hv : v ≠ []) :
    g.runNode s (fuel + 1) slot d pos =
      some (.accept (.atom x ⟨pos, pos + Text.width v⟩) (pos + Text.width v) Expectation.none) := by
  obtain ⟨w, rfl⟩ := h.isPrefix
  obtain ⟨hx, hw⟩ := longestRun_append_iff.mp h
  have hrest : (View.mk s d).rest pos = v ++ w := Source.rest_of_suffix? hs
  rw [runNode_succ hslot, NodeRule.script, Script.run, hrest, Token.atom_of_constituents hx hv hw]
  rfl

/-- A slot for atoms rejects where there is no character of an atom. -/
theorem runNode_of_not_startsConstituent (hslot : g.nodeRules[slot.index]? = some (.atom reserved))
    (hs : s.suffix? pos = some t) (ht : ¬ StartsConstituent reserved t) :
    g.runNode s (fuel + 1) slot d pos = some (.reject (Expectation.one pos Wanted.atom)) := by
  have hrest : (View.mk s d).rest pos = t := Source.rest_of_suffix? hs
  rw [runNode_succ hslot, NodeRule.script, Script.run, hrest,
    Token.atom_of_not_startsConstituent ht]
  rfl

theorem runNode_accepts_iff (hslot : g.nodeRules[slot.index]? = some (.atom reserved))
    (hs : s.suffix? pos = some t) :
    (∃ form next expected,
        g.runNode s (fuel + 1) slot d pos = some (.accept form next expected)) ↔
      StartsConstituent reserved t := by
  constructor
  · rintro ⟨form, next, expected, h⟩
    by_cases ht : StartsConstituent reserved t
    · exact ht
    · cases (runNode_of_not_startsConstituent hslot hs ht).symm.trans h
  · intro ht
    obtain ⟨v, x, hrun, hne⟩ := exists_longestRun reserved t
    exact ⟨_, _, _, runNode_of_longestRun hslot hs hrun (hne ht)⟩

theorem runNode_eq_accept_iff (hslot : g.nodeRules[slot.index]? = some (.atom reserved))
    (hs : s.suffix? pos = some t) {form : Form} {next : Nat} {expected : Expectation} :
    g.runNode s (fuel + 1) slot d pos = some (.accept form next expected) ↔
      ∃ v x, LongestRun reserved t v x ∧ v ≠ [] ∧ next = pos + Text.width v ∧
        form = .atom x ⟨pos, next⟩ ∧ expected = Expectation.none := by
  constructor
  · intro h
    obtain ⟨v, x, hrun, hne⟩ := exists_longestRun reserved t
    have hv := hne ((runNode_accepts_iff hslot hs).mp ⟨form, next, expected, h⟩)
    cases (runNode_of_longestRun hslot hs hrun hv).symm.trans h
    exact ⟨v, x, hrun, hv, rfl, rfl, rfl⟩
  · rintro ⟨v, x, hrun, hv, rfl, rfl, rfl⟩
    exact runNode_of_longestRun hslot hs hrun hv

/-- A slot for atoms accepts if and only if a character of an atom is there. Then it takes the
longest run of them, and nothing else; otherwise it rejects, and expects an atom at its offset.
A text that is written with escapes, in front of a text that begins with no character of an atom,
is taken as a whole. -/
theorem atom_longest (hslot : g.nodeRules[slot.index]? = some (.atom reserved)) :
    (∀ (s : Source) (pos : Nat) (t : Text), s.suffix? pos = some t → ∀ (fuel : Nat) (d : Depth),
      ((∃ form next expected,
          g.runNode s (fuel + 1) slot d pos = some (.accept form next expected)) ↔
        StartsConstituent reserved t) ∧
      (∀ form next expected,
        g.runNode s (fuel + 1) slot d pos = some (.accept form next expected) ↔
          ∃ v x, LongestRun reserved t v x ∧ v ≠ [] ∧ next = pos + Text.width v ∧
            form = .atom x ⟨pos, next⟩ ∧ expected = Expectation.none) ∧
      (¬ StartsConstituent reserved t →
        g.runNode s (fuel + 1) slot d pos = some (.reject (Expectation.one pos Wanted.atom)))) ∧
    (reserved escape = true → ∀ before w after : Text, w ≠ [] →
      ¬ StartsConstituent reserved after → ∀ (fuel : Nat) (d : Depth),
      let start := Text.width before
      let stop := start + Text.width (escapeReserved reserved w)
      g.runNode (Source.ofText (before ++ (escapeReserved reserved w ++ after))) (fuel + 1) slot d
        start = some (.accept (.atom w ⟨start, stop⟩) stop Expectation.none)) := by
  constructor
  · intro s pos t hs fuel d
    refine ⟨runNode_accepts_iff hslot hs, ?_, runNode_of_not_startsConstituent hslot hs⟩
    intro form next expected
    exact runNode_eq_accept_iff hslot hs
  · intro he before w after hw hafter fuel d
    have hs : (Source.ofText (before ++ (escapeReserved reserved w ++ after))).suffix?
        (Text.width before) = some (escapeReserved reserved w ++ after) :=
      Source.suffix?_eq_some_iff.mpr ⟨before, rfl, rfl⟩
    have hrun := longestRun_append_iff.mpr ⟨constituents_escapeReserved he w, hafter⟩
    exact runNode_of_longestRun hslot hs hrun (escapeReserved_ne_nil hw)

/-- Reserves the escape and a character of two bytes, and nothing else. -/
def reservesEscape (c : Char) : Bool := c == escape || c == 'é'

/-- A grammar for fragments whose atoms are made of other characters. -/
def fewReserved : Grammar :=
  { standard .fragment with
    nodeRules := (standard .fragment).nodeRules.setIfInBounds atom.index (.atom reservesEscape) }

/-- An atom of three characters, two of which are written with an escape. -/
theorem atom_longest_fewReserved :
    fewReserved.nodeRules[atom.index]? = some (.atom reservesEscape) ∧
      reservesEscape escape = true ∧ ¬ StartsConstituent reservesEscape ['é'] ∧
      fewReserved.runNode (Source.ofText ['é', 'a', escape, escape, escape, 'é', 'é']) 1 atom none 2 =
        some (.accept (.atom ['a', escape, 'é'] ⟨2, 8⟩) 8 Expectation.none) := by
  have hslot : fewReserved.nodeRules[atom.index]? = some (.atom reservesEscape) := rfl
  have hafter : ¬ StartsConstituent reservesEscape ['é'] := by
    rintro ⟨-, hr⟩
    exact absurd hr (by decide)
  obtain ⟨-, hwritten⟩ := atom_longest hslot
  exact ⟨hslot, by decide, hafter,
    hwritten (by decide) ['é'] ['a', escape, 'é'] ['é'] nofun hafter 0 none⟩

end Grammar

end LispReader
