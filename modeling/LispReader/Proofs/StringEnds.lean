import LispReader.Proofs.LateRejections
import LispReader.Proofs.Registry

/-!
# How string literals end

Behind its opening mark, a string literal is made of units: an escape with the character behind
it, or any other character. The first unit that is a mark, or an escape without meaning, decides.
The mark ends the literal, the escape spoils it, and a source without either leaves it open. An
escape at the very end of a source is a unit like any other character.

A literal that is spoilt or left open ends the reading, wherever it stands.
-/

namespace LispReader

open Alphabet Notation

namespace Notation

/-- What the text of a string literal is made of. -/
inductive StringUnit where
  /-- A character that is not behind an escape. -/
  | plain (c : Char)
  /-- An escape and the character behind it. -/
  | escaped (c : Char)
  deriving DecidableEq, Repr

namespace StringUnit

def text : StringUnit → Text
  | plain c => [c]
  | escaped c => [escape, c]

/-- The character that a unit stands for. -/
def meaning? : StringUnit → Option Char
  | plain c => some c
  | escaped c => escaped? c

/-- A unit that does not decide how a literal ends: it is no mark, and has a meaning. -/
def IsUndecided (u : StringUnit) : Prop := u ≠ plain quotation ∧ u.meaning? ≠ none

instance (u : StringUnit) : Decidable u.IsUndecided :=
  inferInstanceAs (Decidable (u ≠ plain quotation ∧ u.meaning? ≠ none))

/-- The units of a text, from left to right. -/
def ofText : Text → List StringUnit
  | [] => []
  | [c] => [plain c]
  | c :: e :: t => if c = escape then escaped e :: ofText t else plain c :: ofText (e :: t)

example : ofText ['a', escape, quotation, quotation, escape] =
    [plain 'a', escaped quotation, plain quotation, plain escape] := by decide

/-- The text that units come from. -/
def texts (units : List StringUnit) : Text := units.flatMap text

/-- What units stand for. -/
def content (units : List StringUnit) : Text := units.filterMap meaning?

theorem texts_ofText (t : Text) : texts (ofText t) = t := by
  induction t using ofText.induct with
  | case1 => rfl
  | case2 c => rfl
  | case3 e t ih =>
    rw [ofText, if_pos rfl, texts, List.flatMap_cons, ← texts, ih]
    rfl
  | case4 c e t hc ih =>
    rw [ofText, if_neg hc, texts, List.flatMap_cons, ← texts, ih]
    rfl

variable {t : Text} {front back : List StringUnit} {u : StringUnit}

theorem text_of_ofText_eq (h : ofText t = front ++ u :: back) :
    t = texts front ++ (u.text ++ texts back) := by
  rw [← texts_ofText t, h, texts, List.flatMap_append, List.flatMap_cons]
  rfl

theorem isUndecided_plain_iff {c : Char} : (plain c).IsUndecided ↔ c ≠ quotation := by
  constructor
  · rintro ⟨hmark, -⟩ rfl
    exact hmark rfl
  · intro hc
    refine ⟨?_, nofun⟩
    intro hmark
    exact hc (plain.inj hmark)

theorem isUndecided_escaped_iff {c : Char} :
    (escaped c).IsUndecided ↔ ∃ m, escaped? c = some m := by
  constructor
  · rintro ⟨-, hmeaning⟩
    exact Option.ne_none_iff_exists'.mp hmeaning
  · rintro ⟨m, hm⟩
    exact ⟨nofun, Option.ne_none_iff_exists'.mpr ⟨m, hm⟩⟩

/-- Units that do not decide belong to a literal, if they are not the last ones. -/
theorem literal_of_ofText_eq (h : ofText t = front ++ u :: back)
    (hfront : ∀ v ∈ front, v.IsUndecided) : Literal (texts front) (content front) := by
  induction t using ofText.induct generalizing front with
  | case1 =>
    rw [ofText] at h
    exact absurd h.symm (by simp)
  | case2 c =>
    rw [ofText] at h
    rcases List.cons_eq_append_iff.mp h with ⟨rfl, -⟩ | ⟨front', -, hcons⟩
    · exact .nil
    · exact absurd hcons.symm (by simp)
  | case3 e t ih =>
    rw [ofText, if_pos rfl] at h
    rcases List.cons_eq_append_iff.mp h with ⟨rfl, -⟩ | ⟨front', rfl, hcons⟩
    · exact .nil
    · obtain ⟨hunit, hfront'⟩ := List.forall_mem_cons.mp hfront
      obtain ⟨m, hm⟩ := isUndecided_escaped_iff.mp hunit
      have hcontent : content (escaped e :: front') = m :: content front' :=
        List.filterMap_cons_some hm
      rw [hcontent]
      exact .escaped hm (ih hcons hfront')
  | case4 c e t hc ih =>
    rw [ofText, if_neg hc] at h
    rcases List.cons_eq_append_iff.mp h with ⟨rfl, -⟩ | ⟨front', rfl, hcons⟩
    · exact .nil
    · obtain ⟨hunit, hfront'⟩ := List.forall_mem_cons.mp hfront
      exact .plain (isUndecided_plain_iff.mp hunit) hc (ih hcons hfront')

/-- A text of which no unit decides leaves a literal open. -/
theorem unclosed_of_ofText (h : ∀ u ∈ ofText t, u.IsUndecided) : Unclosed t := by
  induction t using ofText.induct with
  | case1 => exact .plain .nil
  | case2 c =>
    have hq := isUndecided_plain_iff.mp (h _ List.mem_cons_self)
    by_cases hc : c = escape
    · subst hc
      exact .escaping .nil
    · exact .plain (.plain hq hc .nil)
  | case3 e t ih =>
    rw [ofText, if_pos rfl] at h
    obtain ⟨hunit, hrest⟩ := List.forall_mem_cons.mp h
    obtain ⟨m, hm⟩ := isUndecided_escaped_iff.mp hunit
    exact (ih hrest).cons_escaped hm
  | case4 c e t hc ih =>
    rw [ofText, if_neg hc] at h
    obtain ⟨hunit, hrest⟩ := List.forall_mem_cons.mp h
    exact (ih hrest).cons_plain (isUndecided_plain_iff.mp hunit) hc

/-- The first unit that decides is a mark. -/
def ClosesBehind (front units : List StringUnit) : Prop :=
  (∃ back, units = front ++ plain quotation :: back) ∧ ∀ u ∈ front, u.IsUndecided

/-- The first unit that decides is an escape without meaning. -/
def SpoiltBehind (front : List StringUnit) (c : Char) (units : List StringUnit) : Prop :=
  (∃ back, units = front ++ escaped c :: back) ∧ escaped? c = none ∧ ∀ u ∈ front, u.IsUndecided

/-- Unless a mark or an escape without meaning decides, no unit does. -/
theorem undecided_or_decided (units : List StringUnit) :
    (∀ u ∈ units, u.IsUndecided) ∨ (∃ front, ClosesBehind front units) ∨
      ∃ front c, SpoiltBehind front c units := by
  induction units with
  | nil => exact Or.inl (List.forall_mem_nil _)
  | cons u units ih =>
    by_cases hu : u.IsUndecided
    · rcases ih with hall | ⟨front, ⟨back, rfl⟩, hfront⟩ | ⟨front, c, ⟨back, rfl⟩, hc, hfront⟩
      · exact Or.inl (List.forall_mem_cons.mpr ⟨hu, hall⟩)
      · exact Or.inr (Or.inl ⟨u :: front, ⟨back, rfl⟩, List.forall_mem_cons.mpr ⟨hu, hfront⟩⟩)
      · exact Or.inr (Or.inr
          ⟨u :: front, c, ⟨back, rfl⟩, hc, List.forall_mem_cons.mpr ⟨hu, hfront⟩⟩)
    · cases u with
      | plain c =>
        have hc : c = quotation := Classical.not_not.mp fun hne => hu (isUndecided_plain_iff.mpr hne)
        subst hc
        exact Or.inr (Or.inl ⟨[], ⟨units, rfl⟩, List.forall_mem_nil _⟩)
      | escaped c =>
        cases hc : escaped? c with
        | some m => exact absurd (isUndecided_escaped_iff.mpr ⟨m, hc⟩) hu
        | none => exact Or.inr (Or.inr ⟨[], c, ⟨units, rfl⟩, hc, List.forall_mem_nil _⟩)

end StringUnit

/-- What is expected where a literal is left open. -/
def wantedEnd (pos : Nat) : Expectation where
  offset := pos
  items := [Wanted.stringContent, Wanted.stringTerminator]
  ascending := by decide
  offset_of_nil := nofun

theorem merge_eq_wantedEnd (pos : Nat) :
    (Expectation.one pos Wanted.stringContent).merge
      (Expectation.one pos Wanted.stringTerminator) = wantedEnd pos := by
  refine Expectation.ext ?_ ?_
  · exact Expectation.offset_merge_of_eq (one_ne_none _ _) (one_ne_none _ _) rfl
  · exact Expectation.items_merge_of_eq (one_ne_none _ _) (one_ne_none _ _) rfl

end Notation

namespace Grammar

open StringUnit

variable {g : Grammar} {s : Source} {slot : NodeHandle} {pos : Nat} {t : Text}
  {front : List StringUnit} {c : Char}

theorem runNode_string (hslot : g.nodeRules[slot.index]? = some .string)
    (fuel : Nat) (d : Depth) (hs : s.suffix? pos = some t) :
    g.runNode s (fuel + 1) slot d pos = some (Token.string t pos) := by
  have hrest : (View.mk s d).rest pos = t := Source.rest_of_suffix? hs
  rw [runNode_succ hslot, NodeRule.script, Script.run, hrest]

theorem runNode_of_closesBehind (hslot : g.nodeRules[slot.index]? = some .string)
    (fuel : Nat) (d : Depth) (hs : s.suffix? pos = some (quotation :: t))
    (h : ClosesBehind front (ofText t)) :
    g.runNode s (fuel + 1) slot d pos =
      some (.accept (.string (content front) ⟨pos, pos + Text.width (texts front) + 2⟩)
        (pos + Text.width (texts front) + 2) Expectation.none) := by
  obtain ⟨⟨back, hunits⟩, hfront⟩ := h
  have hliteral := literal_of_ofText_eq hunits hfront
  have htext : t = texts front ++ quotation :: texts back := text_of_ofText_eq hunits
  rw [runNode_string hslot fuel d hs, htext, Token.string_of_literal hliteral]
  rfl

theorem runNode_of_spoiltBehind (hslot : g.nodeRules[slot.index]? = some .string)
    (fuel : Nat) (d : Depth) (hs : s.suffix? pos = some (quotation :: t))
    (h : SpoiltBehind front c (ofText t)) :
    g.runNode s (fuel + 1) slot d pos =
      some (.abort ⟨.invalidEscape c, pos + Text.width (texts front) + 2⟩) := by
  obtain ⟨⟨back, hunits⟩, hc, hfront⟩ := h
  have hliteral := literal_of_ofText_eq hunits hfront
  have htext : t = texts front ++ escape :: c :: texts back := text_of_ofText_eq hunits
  have hoffset : pos + 1 + Text.width (texts front) + 1 = pos + Text.width (texts front) + 2 := by
    omega
  rw [runNode_string hslot fuel d hs, htext, Token.string_of_badEscape hliteral hc, hoffset]
  rfl

theorem runNode_of_undecided (hslot : g.nodeRules[slot.index]? = some .string)
    (fuel : Nat) (d : Depth) (hs : s.suffix? pos = some (quotation :: t))
    (h : ∀ u ∈ ofText t, u.IsUndecided) :
    g.runNode s (fuel + 1) slot d pos = some (.reject (wantedEnd s.width)) := by
  have hwidth := Source.width_of_suffix? (Source.suffix?_cons hs)
  rw [utf8Size_quotation] at hwidth
  rw [runNode_string hslot fuel d hs, Token.string_of_unclosed (unclosed_of_ofText h),
    merge_eq_wantedEnd, hwidth]

end Grammar

/-! ## Readings -/

/-- The rule for string literals was run at a mark and came to no literal, for this fault. -/
def Visit.FailsString (source : Source) (fault : Fault) : Visit → Prop
  | .node slot _ pos reply =>
    slot = Grammar.string ∧ (∃ t, source.suffix? pos = some (quotation :: t)) ∧
      (reply = some (.abort fault) ∨
        (∃ e, reply = some (.reject e)) ∧ fault = ⟨.unterminatedString, source.width⟩)
  | .skip _ _ _ _ => False

theorem ofExpectation_wantedEnd (pos : Nat) :
    Fault.ofExpectation (wantedEnd pos) = ⟨.unterminatedString, pos⟩ := by
  rw [Fault.ofExpectation, ofExpectation_eq_unterminated (List.mem_cons_of_mem _ List.mem_cons_self)]
  rfl

/-- A literal that is not read is spoilt, or rejected late for its missing end. -/
theorem Grammar.HasNotation.fault_or_late {g : Grammar} (hg : g.HasNotation) {source : Source}
    {fuel : Nat} {visit : Visit} {fault : Fault}
    (hmade : visit.Made (g.runNode source fuel) (g.runSkip source fuel))
    (h : visit.FailsString source fault) :
    (visit.fault? = some fault ∧ ∃ c, fault.cause = .invalidEscape c) ∨
      visit.RejectsLate (wantedEnd source.width) ∧
        fault = ⟨.unterminatedString, source.width⟩ := by
  cases visit with
  | skip _ _ _ _ => exact h.elim
  | node slot d pos reply =>
    obtain ⟨rfl, ⟨t, hs⟩, hreply⟩ := h
    have hlt : pos < source.width := by
      have hwidth := Source.width_of_suffix? hs
      rw [Text.width_cons, utf8Size_quotation] at hwidth
      omega
    rcases StringUnit.undecided_or_decided (StringUnit.ofText t) with
      hall | ⟨front, hcloses⟩ | ⟨front, c, hspoilt⟩
    · have hrun := runNode_of_undecided hg.string 0 d hs hall
      rcases hreply with rfl | ⟨⟨e, rfl⟩, rfl⟩
      · cases runNode_unique hmade hrun
      · cases runNode_unique hmade hrun
        exact Or.inr ⟨⟨rfl, hlt⟩, rfl⟩
    · have hrun := runNode_of_closesBehind hg.string 0 d hs hcloses
      rcases hreply with rfl | ⟨⟨e, rfl⟩, rfl⟩
      · cases runNode_unique hmade hrun
      · cases runNode_unique hmade hrun
    · have hrun := runNode_of_spoiltBehind hg.string 0 d hs hspoilt
      rcases hreply with rfl | ⟨⟨e, rfl⟩, rfl⟩
      · cases runNode_unique hmade hrun
        exact Or.inl ⟨rfl, c, rfl⟩
      · cases runNode_unique hmade hrun

/-- The slots for forms of the standard grammar are those of the notation. -/
theorem Grammar.notation_of_nodeHandle {settings : Settings} {name : String} {handle : NodeHandle}
    (h : (standard settings).nodeHandle name = .ok handle) :
    handle = expression ∨ ∃ kind : Kind, handle = kind.slot := by
  have hslot := (numbered_standard settings).slot?_eq_some_iff.mp (nodeHandle_eq_ok_iff.mp h)
  have hmem : (name, Slot.node handle) ∈ builtins := hslot
  simp only [builtins, List.mem_cons, Prod.mk.injEq, Slot.node.injEq, reduceCtorEq, and_false,
    List.not_mem_nil, false_or, or_false] at hmem
  rcases hmem with ⟨-, rfl⟩ | ⟨-, rfl⟩ | ⟨-, rfl⟩ | ⟨-, rfl⟩ | ⟨-, rfl⟩
  · exact Or.inr ⟨.atom, rfl⟩
  · exact Or.inr ⟨.string, rfl⟩
  · exact Or.inr ⟨.list, rfl⟩
  · exact Or.inr ⟨.quote, rfl⟩
  · exact Or.inl rfl

namespace Reading

variable {r : Reading} {visit : Visit} {fault : Fault}

/-- A literal that is not read ends the reading. -/
theorem forms_of_failsString (hg : r.grammar.HasNotation) (hf : r.grammar.ForwardsAborts)
    (hvisit : visit ∈ r.history r.script) (h : visit.FailsString r.source fault) :
    r.forms = some (.error (fault.locate r.source.text)) := by
  obtain ⟨fuel, hmade⟩ := exists_made hvisit
  rcases hg.fault_or_late hmade h with ⟨hfault, -⟩ | ⟨hlate, rfl⟩
  · exact forms_of_mem_history hf hvisit hfault
  · rw [forms_of_rejectsLate hg hvisit hlate, ofExpectation_wantedEnd]

theorem slot_of_failsString (hg : r.grammar.HasNotation) (hf : r.grammar.ForwardsAborts)
    {slot : NodeHandle} (hslot : slot = Grammar.expression ∨ ∃ kind : Kind, slot = kind.slot)
    (hvisit : visit ∈ r.history (r.slotScript slot)) (h : visit.FailsString r.source fault) :
    r.slot slot = some (.error (fault.locate r.source.text)) := by
  obtain ⟨fuel, hmade⟩ := exists_made hvisit
  rcases hg.fault_or_late hmade h with ⟨hfault, -⟩ | ⟨hlate, rfl⟩
  · exact slot_of_mem_history hf hvisit hfault
  · rw [slot_of_rejectsLate hg hslot hvisit hlate, ofExpectation_wantedEnd]

end Reading

namespace Grammar

open StringUnit

/-- The first unit that decides tells what the rule for string literals replies. A mark ends the
literal, and the units in front are its content. An escape without meaning aborts at its character.
Without either, the end of the literal is missing at the end of the source. With the standard
grammar, a reading in which the rule is run at a mark and does not accept fails for that. -/
theorem string_decided :
    (∀ (g : Grammar) (slot : NodeHandle), g.nodeRules[slot.index]? = some .string →
      ∀ (s : Source) (pos : Nat) (t : Text), s.suffix? pos = some (quotation :: t) →
      ∀ (fuel : Nat) (d : Depth),
        (∀ front, ClosesBehind front (ofText t) →
          let stop := pos + Text.width (texts front) + 2
          g.runNode s (fuel + 1) slot d pos =
            some (.accept (.string (content front) ⟨pos, stop⟩) stop Expectation.none)) ∧
        (∀ front c, SpoiltBehind front c (ofText t) →
          g.runNode s (fuel + 1) slot d pos =
            some (.abort ⟨.invalidEscape c, pos + Text.width (texts front) + 2⟩)) ∧
        ((∀ front, ¬ ClosesBehind front (ofText t)) →
          (∀ front c, ¬ SpoiltBehind front c (ofText t)) →
          ∃ e, g.runNode s (fuel + 1) slot d pos = some (.reject e) ∧ e.offset = s.width ∧
            e.items = [Wanted.stringContent, Wanted.stringTerminator])) ∧
    ∀ (settings : Settings) (s : Text) (visit : Visit) (fault : Fault),
      visit.FailsString (Source.ofText s) fault →
      (visit ∈ ((standard settings).reading s).history ((standard settings).reading s).script →
        ((∃ c, fault.cause = .invalidEscape c) ∨ fault = ⟨.unterminatedString, Text.width s⟩) ∧
        (standard settings).read s = some (.error (fault.locate s))) ∧
      ∀ name handle, (standard settings).nodeHandle name = .ok handle →
        visit ∈ ((standard settings).reading s).history
          (((standard settings).reading s).slotScript handle) →
        (standard settings).readSlot name s = some (.error (.source (fault.locate s))) := by
  constructor
  · intro g slot hslot s pos t hs fuel d
    refine ⟨?_, ?_, ?_⟩
    · intro front hcloses
      exact runNode_of_closesBehind hslot fuel d hs hcloses
    · intro front c hspoilt
      exact runNode_of_spoiltBehind hslot fuel d hs hspoilt
    · intro hcloses hspoilt
      rcases undecided_or_decided (ofText t) with hall | ⟨front, h⟩ | ⟨front, c, h⟩
      · exact ⟨_, runNode_of_undecided hslot fuel d hs hall, rfl, rfl⟩
      · exact absurd h (hcloses front)
      · exact absurd h (hspoilt front c)
  · intro settings s visit fault hfails
    have hg := hasNotation_standard settings
    have hf := forwardsAborts_standard settings
    constructor
    · intro hvisit
      refine ⟨?_, Reading.forms_of_failsString hg hf hvisit hfails⟩
      obtain ⟨fuel, hmade⟩ := Reading.exists_made hvisit
      rcases hg.fault_or_late hmade hfails with ⟨-, hcause⟩ | ⟨-, rfl⟩
      · exact Or.inl hcause
      · exact Or.inr rfl
    · intro name handle hname hvisit
      rw [readSlot, hname]
      dsimp only
      rw [Reading.slot_of_failsString hg hf (notation_of_nodeHandle hname) hvisit hfails]
      rfl

/-- A literal in a list that is spoilt although it is closed, and one that is left open by an
escape at the end of the source. -/
theorem string_decided_spoilt_open :
    SpoiltBehind [plain 'é'] 'q' (ofText ['é', escape, 'q', quotation, closeParen]) ∧
      (standard .fragment).runNode
          (Source.ofText [openParen, quotation, 'é', escape, 'q', quotation, closeParen]) 1 string
          none 1 = some (.abort ⟨.invalidEscape 'q', 5⟩) ∧
      (standard .fragment).read [openParen, quotation, 'é', escape, 'q', quotation, closeParen] =
        some (.error ⟨.invalidEscape 'q', ⟨1, 5⟩, 5⟩) ∧
      (standard .fragment).readSlot "list" [openParen, quotation, escape] =
        some (.error (.source ⟨.unterminatedString, ⟨1, 4⟩, 3⟩)) := by
  obtain ⟨hrule, hreading⟩ := string_decided
  have hspoilt : SpoiltBehind [plain 'é'] 'q' (ofText ['é', escape, 'q', quotation, closeParen]) :=
    ⟨⟨[plain quotation, plain closeParen], by decide⟩, by decide, by decide⟩
  refine ⟨hspoilt, ?_, ?_, ?_⟩
  · obtain ⟨-, habort, -⟩ := hrule (standard .fragment) string rfl
      (Source.ofText [openParen, quotation, 'é', escape, 'q', quotation, closeParen]) 1 _ rfl 0 none
    exact habort [plain 'é'] 'q' hspoilt
  · have hread := (hreading .fragment
      [openParen, quotation, 'é', escape, 'q', quotation, closeParen]
      (.node string (some 499) 1 (some (.abort ⟨.invalidEscape 'q', 5⟩))) ⟨.invalidEscape 'q', 5⟩
      ⟨rfl, ⟨_, rfl⟩, Or.inl rfl⟩).1
    exact (hread (by decide)).2
  · exact (hreading .fragment [openParen, quotation, escape]
      (.node string (some 499) 1 (some (.reject (wantedEnd 3)))) ⟨.unterminatedString, 3⟩
      ⟨rfl, ⟨_, rfl⟩, Or.inr ⟨⟨_, rfl⟩, rfl⟩⟩).2 "list" list rfl (by decide)

end Grammar

end LispReader
