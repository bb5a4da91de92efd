import LispReader.FormStream
import LispReader.Proofs.Run.Reading

/-!
# The order of alternatives

An expression tries its alternatives in order, so the order decides which of them
see a text and what they expect there. Nothing of that reaches a result. Behind
trivia, the text alone tells what the next step of a reading is, and expectations
that lie in front of the text show in no diagnostic. Two readings whose grammars
have the notation thus take the same steps, and their streams deliver the same
items, whatever they note on the way.
-/

namespace LispReader

open Notation

/-! ## Steps -/

/-- A form can be read at the offset: there is no trivia, and what was expected so far
lies in front of it. -/
structure Source.Ready (source : Source) (pos : Nat) (e : Expectation) : Prop where
  below : e.Below pos
  behindTrivia : ∃ t, source.suffix? pos = some t ∧ ¬ StartsTrivia t

/-- Steps that differ at most in the expectations that they pass on. -/
inductive Step.Alike (source : Source) : Step → Step → Prop where
  | form {f : Form} {next : Nat} {e e' : Expectation} (h : source.Ready next e)
      (h' : source.Ready next e') : Alike source (.form f next e) (.form f next e')
  | finished : Alike source .finished .finished
  | failed {fault : Fault} : Alike source (.failed fault) (.failed fault)

namespace Reading

/-- Two readings of one source, both with the rules of the notation. -/
structure Agree (r r' : Reading) : Prop where
  left : r.ReadsNotation
  right : r'.ReadsNotation
  source : r'.source = r.source
  settings : r'.grammar.settings = r.grammar.settings

variable {r r' : Reading} {pos : Nat} {e e' : Expectation}

theorem Agree.depth (h : Agree r r') : r'.depth = r.depth := by
  rw [Reading.depth, h.settings]
  rfl

/-- Behind trivia, the text tells the next step. -/
theorem Agree.step (h : Agree r r') (he : r.source.Ready pos e) (he' : r.source.Ready pos e') :
    ∃ s s', r.step pos e = some s ∧ r'.step pos e' = some s' ∧ Step.Alike r.source s s' := by
  obtain ⟨t, hs, ht⟩ := he.behindTrivia
  have hs' : r'.source.suffix? pos = some t := by rwa [h.source]
  rcases starts_cases t with htrivia | hopens | hbarren
  · exact absurd htrivia ht
  · rcases settled_of_opens t r.depth pos hopens with ⟨v, f, w, rfl, hf, hd⟩ | ⟨ob, o, hblocked⟩
    · obtain ⟨k₁, u₁, e₁, hw₁, hk₁, hu₁, he₁, hstep₁⟩ :=
        h.left.step_of_spells hf hs hd he.below
      obtain ⟨k₂, u₂, e₂, hw₂, hk₂, hu₂, he₂, hstep₂⟩ :=
        h.right.step_of_spells hf hs' (h.depth ▸ hd) he'.below
      -- Both readings skip as much trivia as there is behind the form.
      obtain ⟨rfl, rfl⟩ := hk₁.unique hk₂ hu₁ hu₂ (hw₁.symm.trans hw₂)
      subst hw₁
      have hnext := Source.suffix?_add (Source.suffix?_add hs)
      have hle := Nat.le_add_right (pos + Text.width v) (Text.width k₁)
      exact ⟨_, _, hstep₁, hstep₂, .form ⟨he₁.mono hle, u₁, hnext, hu₁⟩
        ⟨he₂.mono hle, u₁, hnext, hu₁⟩⟩
    · exact ⟨_, _, h.left.step_of_blocked hs hblocked he.below,
        h.right.step_of_blocked hs' (h.depth ▸ hblocked) he'.below, .failed⟩
  · by_cases hn : t = []
    · subst hn
      exact ⟨_, _, h.left.step_of_end hs, h.right.step_of_end hs', .finished⟩
    · exact ⟨_, _, h.left.step_of_barren hs hbarren hn he.below,
        h.right.step_of_barren hs' hbarren hn he'.below, .failed⟩

/-- The first form is read at the same offset. -/
theorem Agree.start (h : Agree r r') :
    ∃ pos, r.start = some (.ok pos) ∧ r'.start = some (.ok pos) ∧
      r.source.Ready pos Expectation.none := by
  obtain ⟨line, t, hs, hline⟩ :=
    exists_interpreterLine r.grammar.settings.allowShebang r.source.text
  obtain ⟨k, u, rfl, hk, hu⟩ := exists_trivia t
  have hview : r.source.suffix? (Text.width line + Text.width k) = some u :=
    Source.suffix?_add (Source.suffix?_eq_some_iff.mpr ⟨line, hs, rfl⟩)
  refine ⟨_, h.left.start_of_interpreterLine hs hline hk hu, ?_,
    Expectation.below_none _, u, hview, hu⟩
  apply h.right.start_of_interpreterLine ?_ ?_ hk hu
  · rw [h.source, hs]
  · rwa [h.settings]

/-- Two readings of one source have the same result. -/
theorem Agree.forms (h : Agree r r') : ∃ result, r.forms = some result ∧ r'.forms = some result := by
  rcases document_or_rejected r.grammar.settings r.source.text with ⟨fs, hfs⟩ | ⟨ob, o, hob⟩
  · refine ⟨_, h.left.forms_of_document hfs, h.right.forms_of_document ?_⟩
    rwa [h.settings, h.source]
  · refine ⟨_, h.left.forms_of_rejected hob, ?_⟩
    rw [← h.source]
    apply h.right.forms_of_rejected
    rwa [h.settings, h.source]

end Reading

/-! ## Streams -/

namespace FormStream

/-- Places at the same offset of a source. -/
inductive Place.Alike (source : Source) : Place → Place → Prop where
  | fresh : Alike source .fresh .fresh
  | next {pos : Nat} {e e' : Expectation} (h : source.Ready pos e) (h' : source.Ready pos e') :
      Alike source (.next pos e) (.next pos e')
  | ended : Alike source .ended .ended

/-- Streams of two readings of one source that have come equally far. -/
structure Alike (s s' : FormStream) : Prop where
  reading : s.reading.Agree s'.reading
  place : Place.Alike s.reading.source s.place s'.place

variable {s s' : FormStream}

theorem nextAt_alike (h : s.reading.Agree s'.reading) {pos : Nat} {e e' : Expectation}
    (he : s.reading.source.Ready pos e) (he' : s.reading.source.Ready pos e') :
    ∃ item t t', s.nextAt pos e = some (item, t) ∧ s'.nextAt pos e' = some (item, t') ∧
      Alike t t' := by
  obtain ⟨step, step', hstep, hstep', halike⟩ := h.step he he'
  rw [nextAt, nextAt, hstep, hstep']
  cases halike with
  | form hnext hnext' => exact ⟨_, _, _, rfl, rfl, h, .next hnext hnext'⟩
  | finished => exact ⟨_, _, _, rfl, rfl, h, .ended⟩
  | @failed fault =>
    have hitem : (s'.fail fault).1 = (s.fail fault).1 := by rw [fail, fail, h.source]
    exact ⟨_, _, _, rfl, congrArg (fun item => some (item, (s'.fail fault).2)) hitem, h, .ended⟩

/-- Streams that are alike deliver the same item, and are alike behind it. -/
theorem Alike.next (h : Alike s s') :
    ∃ item t t', s.next = some (item, t) ∧ s'.next = some (item, t') ∧ Alike t t' := by
  obtain ⟨r, place⟩ := s
  obtain ⟨r', place'⟩ := s'
  obtain ⟨hreading, hplace⟩ := h
  cases hplace with
  | fresh =>
    obtain ⟨pos, hstart, hstart', hready⟩ := hreading.start
    obtain ⟨item, t, t', ht, ht', halike⟩ := nextAt_alike hreading hready hready
    refine ⟨item, t, t', ?_, ?_, halike⟩
    · rw [FormStream.next]
      dsimp only
      rw [hstart]
      exact ht
    · rw [FormStream.next]
      dsimp only
      rw [hstart']
      exact ht'
  | next hready hready' => exact nextAt_alike hreading hready hready'
  | ended => exact ⟨_, _, _, rfl, rfl, hreading, .ended⟩

/-- Streams that are alike deliver the same items, however many are asked for. -/
theorem Alike.take (h : Alike s s') (n : Nat) :
    ∃ items, s.take n = some items ∧ s'.take n = some items := by
  induction n generalizing s s' with
  | zero => exact ⟨_, rfl, rfl⟩
  | succ n ih =>
    obtain ⟨item, t, t', hnext, hnext', halike⟩ := h.next
    rw [FormStream.take, FormStream.take, hnext, hnext']
    cases item with
    | none => exact ⟨_, rfl, rfl⟩
    | some item =>
      obtain ⟨items, htake, htake'⟩ := ih halike
      dsimp only
      rw [htake, htake']
      exact ⟨_, rfl, rfl⟩

end FormStream

/-! ## Grammars -/

namespace Grammar

/-- Other alternatives for an expression leave it the notation, if they are the same ones. -/
theorem exists_replace_expression (settings : Settings) {alternatives : List NodeHandle}
    (h : ∀ slot, slot ∈ alternatives ↔ slot ∈ [list, atom, string, quote]) :
    ∃ g, (standard settings).replace "expression" (.node (.alternation alternatives trivia)) =
        .ok g ∧ g.HasNotation ∧ g.settings = settings := by
  have hstandard := hasNotation_standard settings
  refine ⟨_, rfl, ?_, rfl⟩
  exact {
    atom := rfl
    string := rfl
    list := rfl
    quote := rfl
    expression := by
      obtain ⟨_, hrule, hmem⟩ := hstandard.expression
      obtain rfl : _ = [Grammar.list, Grammar.atom, Grammar.string, Grammar.quote] :=
        (NodeRule.alternation.inj (Option.some.inj hrule)).1.symm
      exact ⟨alternatives, rfl, fun slot => (h slot).trans (hmem slot)⟩
    whitespace := hstandard.whitespace
    comment := hstandard.comment
    shebang := hstandard.shebang
    trivia := hstandard.trivia }

theorem HasNotation.agree {g g' : Grammar} (hg : g.HasNotation) (hg' : g'.HasNotation)
    (h : g'.settings = g.settings) (s : Text) : (g.reading s).Agree (g'.reading s) where
  left := hg.readsNotation s
  right := hg'.readsNotation s
  source := rfl
  settings := h

/-- The alternatives of an expression can be tried in any order, and more than once: every
source is read with the same forms or the same diagnostic, at once and one form at a time. -/
theorem read_reordered (settings : Settings) (alternatives : List NodeHandle)
    (h : ∀ slot, slot ∈ alternatives ↔ slot ∈ [list, atom, string, quote]) :
    ∃ g, (standard settings).replace "expression" (.node (.alternation alternatives trivia)) =
        .ok g ∧
      (∀ s, ∃ result, (standard settings).read s = some result ∧ g.read s = some result) ∧
      ∀ s n, ∃ items, ((standard settings).stream s).take n = some items ∧
        (g.stream s).take n = some items := by
  obtain ⟨g, hreplace, hg, hsettings⟩ := exists_replace_expression settings h
  have hagree := (hasNotation_standard settings).agree hg hsettings
  refine ⟨g, hreplace, ?_, ?_⟩
  · intro s
    exact (hagree s).forms
  · intro s n
    have hstreams : FormStream.Alike ((standard settings).stream s) (g.stream s) :=
      ⟨hagree s, .fresh⟩
    exact hstreams.take n

/-- Atoms are tried first and last, and lists behind quote forms. -/
theorem read_reordered_atoms_first :
    ∃ g, (standard ⟨true, some 3⟩).replace "expression"
        (.node (.alternation [atom, quote, string, list, atom] trivia)) = .ok g ∧
      (∀ s, ∃ result, (standard ⟨true, some 3⟩).read s = some result ∧
        g.read s = some result) ∧
      ∀ s n, ∃ items, ((standard ⟨true, some 3⟩).stream s).take n = some items ∧
        (g.stream s).take n = some items :=
  read_reordered ⟨true, some 3⟩ [atom, quote, string, list, atom] (by grind)

end Grammar

end LispReader
