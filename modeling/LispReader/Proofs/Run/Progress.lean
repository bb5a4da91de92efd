import LispReader.Proofs.Dialect
import LispReader.Proofs.Run.Loops
import LispReader.Proofs.Run.Token

/-!
# Rules that move on

A rule of the library that makes forms moves on when it accepts, and one that skips
text does not move back; both stop at a character boundary. They come to a reply as
soon as the slots do that they ask: slots further on, the alternatives of an
alternation at the same offset, and the parts of trivia. A loop stops when a round
does not move, so it needs no more rounds than bytes are left, and one.
-/

namespace LispReader

/-! ## Scripts -/

/-- Runs that end at boundaries, and not further back, are confined by the source. -/
theorem confined_boundaryFrom {α : Type} {source : Source} {pos : Nat}
    {run : Nat → Option (Reply α)}
    (h : ∀ next, source.BoundaryFrom pos next → Ends (source.BoundaryFrom next) (run next)) :
    Confined (source.BoundaryFrom pos) source.width run := by
  intro next hnext
  refine (h next hnext).mono ?_
  intro stop hstop
  exact ⟨hstop.mono hnext.1, hstop.1, hstop.2.le_width.trans (Nat.le_max_right next _)⟩

namespace Script

variable {α : Type} {node : NodeHandle → Depth → Nat → Option (Reply Form)}
  {skip : SkipHandle → Depth → Nat → Option (Reply Unit)} {source : Source} {pos : Nat}
  {depth : Depth} {p : Nat → Prop}

/-- A script that skips text goes on at a boundary that is not further back. -/
theorem ends_skipOptional {slot : SkipHandle} {resume : Nat → Script α}
    (hpos : source.IsBoundary pos) (hskip : Ends (source.BoundaryFrom pos) (skip slot depth pos))
    (h : ∀ next, source.BoundaryFrom pos next → Ends p ((resume next).run node skip)) :
    Ends p ((skipOptional slot depth pos resume).run node skip) := by
  rw [run_skipOptional]
  match skip slot depth pos, hskip with
  | some (.accept _ next _), hnext => exact h next hnext
  | some (.reject _), _ => exact h pos hpos.from_self
  | some (.abort _), _ => exact trivial

/-- A script that waits for a form goes on behind the form, or with what is not one. -/
theorem ends_askNode {slot : NodeHandle} {resume : Reply Form → Script α} {q : Nat → Prop}
    (hnode : Ends q (node slot depth pos))
    (haccept : ∀ f next e, q next → Ends p ((resume (.accept f next e)).run node skip))
    (hreject : ∀ e, Ends p ((resume (.reject e)).run node skip))
    (habort : ∀ fault, Ends p ((resume (.abort fault)).run node skip)) :
    Ends p ((askNode slot depth pos resume).run node skip) := by
  rw [run_askNode]
  match node slot depth pos, hnode with
  | some (.accept f next e), hnext => exact haccept f next e hnext
  | some (.reject e), _ => exact hreject e
  | some (.abort fault), _ => exact habort fault

end Script

/-! ## Tokens -/

namespace Token

variable {s : Source} {pos : Nat}

/-- A line is a beginning of the text. -/
theorem exists_lineWidth (t : Text) : ∃ k, k <+: t ∧ lineWidth t = Text.width k := by
  rcases Notation.exists_line t with ⟨line, u, rfl, hline⟩ | hline
  · refine ⟨line ++ ['\n'], ⟨u, by simp⟩, ?_⟩
    rw [lineWidth_append hline, Text.width_append]
    rfl
  · exact ⟨t, List.prefix_rfl, lineWidth_of_notMem hline⟩

theorem boundaryFrom_lineWidth (h : s.IsBoundary pos) :
    s.BoundaryFrom pos (pos + lineWidth (s.rest pos)) := by
  obtain ⟨k, hk, hw⟩ := exists_lineWidth (s.rest pos)
  rw [hw]
  exact ⟨Nat.le_add_right _ _, h.add_width hk⟩

theorem ends_whitespace (h : s.IsBoundary pos) :
    Ends (s.BoundaryFrom pos) (some (whitespace (s.rest pos) pos)) := by
  rcases whitespace_cases (s.rest pos) pos with ⟨k, u, ht, -, -, hrun⟩ | ⟨-, hrun⟩
  · rw [hrun]
    exact ⟨Nat.le_add_right _ _, h.add_width ⟨u, ht.symm⟩⟩
  · rw [hrun]
    exact trivial

theorem ends_comment (h : s.IsBoundary pos) :
    Ends (s.BoundaryFrom pos) (some (comment (s.rest pos) pos)) := by
  rw [comment]
  split
  · exact boundaryFrom_lineWidth h
  · exact trivial

theorem ends_shebang (h : s.IsBoundary pos) :
    Ends (s.BoundaryFrom pos) (some (shebang (s.rest pos) pos)) := by
  rw [shebang]
  split
  · exact boundaryFrom_lineWidth h
  · exact trivial

theorem ends_atom (reserved : Char → Bool) (h : s.IsBoundary pos) :
    Ends (s.BoundaryFrom (pos + 1)) (some (atom reserved (s.rest pos) pos)) := by
  obtain ⟨v, x, w, ht, hv, hw⟩ := Notation.exists_constituents reserved (s.rest pos)
  have hb := h.add_width ⟨w, ht.symm⟩
  by_cases hnil : v = []
  · rw [ht, hnil, List.nil_append, atom_of_not_startsConstituent hw]
    exact trivial
  · have hpos := Text.width_pos hnil
    rw [ht, atom_of_constituents hv hnil hw]
    exact ⟨by omega, hb⟩

theorem ends_string (h : s.IsBoundary pos) :
    Ends (s.BoundaryFrom (pos + 1)) (some (string (s.rest pos) pos)) := by
  by_cases hq : ∃ u, s.rest pos = Alphabet.quotation :: u
  · obtain ⟨u, ht⟩ := hq
    rcases Notation.exists_literal u with
      ⟨v, x, w, rfl, hv⟩ | ⟨v, x, e, w, rfl, hv, he⟩ | hu
    · have hk : Alphabet.quotation :: (v ++ [Alphabet.quotation]) <+: s.rest pos :=
        ⟨w, by rw [ht]; simp⟩
      have hb := h.add_width hk
      rw [Text.width_cons, Text.width_append, Text.width_cons, Text.width_nil,
        Alphabet.utf8Size_quotation] at hb
      rw [ht, string_of_literal hv]
      refine ⟨by omega, ?_⟩
      rw [show pos + Text.width v + 2 = pos + (1 + (Text.width v + (1 + 0))) by omega]
      exact hb
    · rw [ht, string_of_badEscape hv he]
      exact trivial
    · rw [ht, string_of_unclosed hu]
      exact trivial
  · rw [string_of_ne fun u hu => hq ⟨u, hu⟩]
    exact trivial

end Token

/-! ## Rules -/

section Rules

variable {node : NodeHandle → Depth → Nat → Option (Reply Form)}
  {skip : SkipHandle → Depth → Nat → Option (Reply Unit)} {source : Source} {pos rounds : Nat}
  {depth : Depth}

namespace SkipRule

variable {parts : List SkipHandle}

theorem ends_triviaFrom (hpos : source.IsBoundary pos) (hrounds : source.width - pos < rounds)
    (hskip : ∀ slot ∈ parts, ∀ next, source.BoundaryFrom pos next →
      Ends (source.BoundaryFrom next) (skip slot depth next)) :
    Ends (source.BoundaryFrom pos) ((triviaFrom parts depth rounds pos).run node skip) := by
  have hparts : ∀ slot ∈ parts,
      Confined (source.BoundaryFrom pos) source.width (skip slot depth) := fun slot hslot =>
    confined_boundaryFrom (hskip slot hslot)
  exact (triviaFrom_ends hparts hpos.from_self hrounds).mono fun stop h => h.1.1

/-- A rule that skips text ends, if the parts of trivia do. -/
theorem ends_script {rule : SkipRule} (hrule : rule.IsLibrary) (hpos : source.IsBoundary pos)
    (hrounds : source.width - pos < rounds)
    (hparts : ∀ parts, rule = .trivia parts → ∀ slot ∈ parts, ∀ next,
      source.BoundaryFrom pos next → Ends (source.BoundaryFrom next) (skip slot depth next)) :
    Ends (source.BoundaryFrom pos) ((rule.script rounds ⟨source, depth⟩ pos).run node skip) := by
  cases rule with
  | whitespace => exact Token.ends_whitespace hpos
  | comment => exact Token.ends_comment hpos
  | shebang => exact Token.ends_shebang hpos
  | trivia parts => exact ends_triviaFrom hpos hrounds (hparts parts rfl)
  | custom rule => exact hrule.elim

end SkipRule

namespace NodeRule

variable {expression : NodeHandle} {trivia : SkipHandle} {inner : Depth}

theorem ends_itemsFrom {p : Nat → Prop} {finish : List Form → Nat → Expectation → Script Form}
    (items : List Form) (expected : Expectation) (hpos : source.IsBoundary pos)
    (hrounds : source.width - pos < rounds)
    (hnode : ∀ next, source.BoundaryFrom pos next →
      Ends (source.BoundaryFrom (next + 1)) (node expression inner next))
    (h : ∀ items next expected, source.BoundaryFrom pos next →
      Ends p ((finish items next expected).run node skip)) :
    Ends p ((itemsFrom expression inner finish rounds items pos expected).run node skip) := by
  have hrun : Confined (source.BoundaryFrom pos) source.width (node expression inner) := by
    refine confined_boundaryFrom ?_
    intro next hnext
    exact (hnode next hnext).mono fun stop hstop => hstop.mono (Nat.le_succ next)
  refine itemsFrom_rule (fun _ => trivial) hrun hpos.from_self hrounds ?_
  intro fs stop e hstop _
  exact h _ stop e hstop.1

theorem ends_closeList {next : Nat} (start : Nat) (items : List Form) (expected : Expectation)
    (hnext : source.BoundaryFrom pos next) :
    Ends (source.BoundaryFrom pos)
      ((closeList ⟨source, depth⟩ start items next expected).run node skip) := by
  rw [closeList]
  split
  next h =>
    refine ⟨Nat.le_trans hnext.1 (Nat.le_add_right _ _), ?_⟩
    exact hnext.2.add_width (List.isPrefixOf_iff_prefix.mp h)
  next => exact trivial

theorem ends_listScript (hpos : source.IsBoundary pos) (hrounds : source.width - pos < rounds)
    (hskip : ∀ slot next, source.BoundaryFrom (pos + 1) next →
      Ends (source.BoundaryFrom next) (skip slot depth next))
    (hnode : ∀ slot inner next, source.BoundaryFrom (pos + 1) next →
      Ends (source.BoundaryFrom (next + 1)) (node slot inner next)) :
    Ends (source.BoundaryFrom (pos + 1))
      ((listScript expression trivia rounds ⟨source, depth⟩ pos).run node skip) := by
  rw [listScript]
  split
  next h =>
    have hopen : source.IsBoundary (pos + 1) :=
      hpos.add_width (List.isPrefixOf_iff_prefix.mp h)
    split
    next => exact trivial
    next inner hinner =>
      refine Script.ends_skipOptional hopen (hskip trivia (pos + 1) hopen.from_self) ?_
      intro next hnext
      have hlt := hnext.1
      refine ends_itemsFrom [] Expectation.none hnext.2 (by omega) ?_ ?_
      · intro next' hnext'
        exact hnode expression inner next' (hnext'.mono hlt)
      · intro items next' expected hnext'
        exact ends_closeList pos items expected (hnext'.mono hlt)
  next => exact trivial

theorem ends_quoteScript (hpos : source.IsBoundary pos)
    (hskip : ∀ slot next, source.BoundaryFrom (pos + 1) next →
      Ends (source.BoundaryFrom next) (skip slot depth next))
    (hnode : ∀ slot inner next, source.BoundaryFrom (pos + 1) next →
      Ends (source.BoundaryFrom (next + 1)) (node slot inner next)) :
    Ends (source.BoundaryFrom (pos + 1))
      ((quoteScript expression trivia ⟨source, depth⟩ pos).run node skip) := by
  rw [quoteScript]
  split
  next => exact trivial
  next op hop =>
    have hsign := Notation.width_sign_pos op
    obtain ⟨u, hu⟩ := QuoteOperator.sign_isPrefix_of_ofText? hop
    have hbehind := hpos.add_width (k := op.sign) ⟨u, hu⟩
    split
    next => exact trivial
    next inner hinner =>
      refine Script.ends_skipOptional hbehind
        (hskip trivia _ ⟨by omega, hbehind⟩) ?_
      intro next hnext
      have hle := hnext.1
      have hoperand := hnode expression inner next (hnext.mono (by omega))
      refine Script.ends_askNode hoperand ?_ ?_ ?_
      · intro f stop e hstop
        exact hstop.mono (by omega)
      · intro e
        exact trivial
      · intro fault
        exact trivial

theorem ends_firstOf {slots : List NodeHandle} (expected : Expectation)
    (hskip : ∀ slot next, source.BoundaryFrom (pos + 1) next →
      Ends (source.BoundaryFrom next) (skip slot depth next))
    (hnode : ∀ slot ∈ slots, Ends (source.BoundaryFrom (pos + 1)) (node slot depth pos)) :
    Ends (source.BoundaryFrom (pos + 1))
      ((firstOf trivia depth pos slots expected).run node skip) := by
  induction slots generalizing expected with
  | nil => exact trivial
  | cons slot slots ih =>
    rw [firstOf]
    refine Script.ends_askNode (hnode slot List.mem_cons_self) ?_ ?_ ?_
    · intro f next e hnext
      refine Script.ends_skipOptional hnext.2 (hskip trivia next hnext) ?_
      intro stop hstop
      exact hstop.mono hnext.1
    · intro e
      exact ih (expected.merge e) fun s hs => hnode s (List.mem_cons_of_mem slot hs)
    · intro fault
      exact trivial

/-- A rule that makes forms ends, if the alternatives of an alternation do at the same
offset, and all slots do further on. -/
theorem ends_script {rule : NodeRule} (hrule : rule.IsLibrary) (hpos : source.IsBoundary pos)
    (hrounds : source.width - pos < rounds)
    (hskip : ∀ slot next, source.BoundaryFrom (pos + 1) next →
      Ends (source.BoundaryFrom next) (skip slot depth next))
    (hnode : ∀ slot inner next, source.BoundaryFrom (pos + 1) next →
      Ends (source.BoundaryFrom (next + 1)) (node slot inner next))
    (halternatives : ∀ alternatives trivia, rule = .alternation alternatives trivia →
      ∀ slot ∈ alternatives, Ends (source.BoundaryFrom (pos + 1)) (node slot depth pos)) :
    Ends (source.BoundaryFrom (pos + 1))
      ((rule.script rounds ⟨source, depth⟩ pos).run node skip) := by
  cases rule with
  | atom reserved => exact Token.ends_atom reserved hpos
  | string => exact Token.ends_string hpos
  | list expression trivia => exact ends_listScript hpos hrounds hskip hnode
  | quote expression trivia => exact ends_quoteScript hpos hskip hnode
  | alternation alternatives trivia =>
    exact ends_firstOf Expectation.none hskip (halternatives alternatives trivia rfl)
  | custom rule => exact hrule.elim

end NodeRule

end Rules

end LispReader
