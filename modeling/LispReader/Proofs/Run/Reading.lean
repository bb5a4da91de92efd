import LispReader.Proofs.Run.Expression
import LispReader.Proofs.Run.Stream

/-!
# Readings follow the grammar

With the rules of the notation, and fuel for the width of the source, a reading
accepts the documents, and for every other source its diagnostic is about the
first obstacle. As every source is a document or meets an obstacle, a reading
always has a result, and the result tells which of the two the source is.
-/

namespace LispReader

open Notation

/-- An interpreter line is skipped with its line feed, or there is none. -/
theorem Token.shebang_of_interpreterLine {line v : Text} (h : InterpreterLine true line v) :
    Token.shebang (line ++ v) 0 = .done () (Text.width line) ∨
      line = [] ∧ ∃ e, Token.shebang (line ++ v) 0 = .reject e := by
  have hmem : ∀ t : Text, '\n' ∉ t → '\n' ∉ Alphabet.shebang ++ t := by
    intro t ht hmem
    rcases List.mem_append.mp hmem with hmem | hmem
    · exact absurd hmem (by decide)
    · exact ht hmem
  cases h with
  | @line t w _ ht =>
    left
    rw [List.append_assoc, List.append_assoc, Token.shebang, if_pos (by simp),
      List.singleton_append, ← List.append_assoc, Token.lineWidth_append (hmem t ht)]
    simp only [Text.width_append, Text.width_cons, Text.width_nil, Nat.zero_add, Nat.add_zero,
      Nat.add_assoc]
    rfl
  | @lastLine t _ ht =>
    left
    rw [List.append_nil, Token.shebang, if_pos (by simp),
      Token.lineWidth_of_notMem (hmem t ht), Nat.zero_add]
  | absent hn =>
    refine Or.inr ⟨rfl, Expectation.one 0 Wanted.shebang, ?_⟩
    rw [List.nil_append, Token.shebang, if_neg]
    · rfl
    · exact fun hp => hn rfl (List.isPrefixOf_iff_prefix.mp hp)

namespace Reading

/-- The grammar has the rules of the notation, and the fuel suffices for them. -/
structure ReadsNotation (r : Reading) : Prop where
  grammar : r.grammar.HasNotation
  fuel : 2 * r.source.width + 8 ≤ r.fuel

variable {r : Reading} {pos o : Nat} {v w t : Text} {e : Expectation}

/-! ## Steps -/

theorem ReadsNotation.fuel_of_suffix? (hr : r.ReadsNotation) (hs : r.source.suffix? pos = some t) :
    2 * Text.width t + 8 ≤ r.fuel := by
  have hw := Source.width_of_suffix? hs
  have hf := hr.fuel
  omega

/-- A step reads a form and the trivia behind it. -/
theorem ReadsNotation.step_of_spells (hr : r.ReadsNotation) {f : Form} (h : Spells pos v f w)
    (hs : r.source.suffix? pos = some (v ++ w)) (hd : r.depth.Admits f.depth)
    (he : e.Below pos) :
    ∃ k u e', w = k ++ u ∧ Trivia k u ∧ ¬ StartsTrivia u ∧
      Expectation.Below e' (pos + Text.width v) ∧
      r.step pos e = some (.form f (pos + Text.width v + Text.width k) e') := by
  have hf := hr.fuel_of_suffix? hs
  have hpos := Text.width_pos h.ne_nil
  obtain ⟨k, u, e', hw, hk, hu, he', hrun⟩ :=
    hr.grammar.runNode_expression_of_spells h hs hd (show _ ≤ r.fuel by omega)
  refine ⟨k, u, e.merge e', hw, hk, hu, ?_, ?_⟩
  · exact Expectation.Below.merge (he.mono (Nat.le_add_right _ _)) (Or.inr he')
  · rw [step, node, hrun]
    dsimp only
    rw [if_neg (by omega)]

/-- A step at the end of the source is the last. -/
theorem ReadsNotation.step_of_end (hr : r.ReadsNotation) (hs : r.source.suffix? pos = some []) :
    r.step pos e = some .finished := by
  have hf := hr.fuel_of_suffix? hs
  have hend := Source.width_of_suffix? hs
  obtain ⟨n, hn⟩ : ∃ n, r.fuel = n + 2 := ⟨r.fuel - 2, by omega⟩
  rw [step, node, hn, hr.grammar.runNode_expression_of_barren hs .nil]
  exact if_pos hend.symm

theorem ne_width_of_suffix? (hs : r.source.suffix? pos = some t) (ht : t ≠ []) :
    pos ≠ r.source.width := by
  have hw := Source.width_of_suffix? hs
  have hpos := Text.width_pos ht
  omega

/-- A step at a text that no form begins with fails there. -/
theorem ReadsNotation.step_of_barren (hr : r.ReadsNotation)
    (hs : r.source.suffix? pos = some t) (ht : Barren t) (hn : t ≠ []) (he : e.Below pos) :
    r.step pos e = some (.failed ⟨(Obstacle.missing .source).cause, pos⟩) := by
  have hf := hr.fuel_of_suffix? hs
  obtain ⟨n, hn'⟩ : ∃ n, r.fuel = n + 2 := ⟨r.fuel - 2, by omega⟩
  rw [step, node, hn', hr.grammar.runNode_expression_of_barren hs ht]
  dsimp only
  rw [if_neg (ne_width_of_suffix? hs hn), notEnded,
    Expectation.merge_eq_right (b := wantedForm pos) he]
  rcases (Obstacle.missing .source).reply_cases pos with ⟨e', he', -, hfault, -⟩ | h
  · rw [Obstacle.reply, Reply.reject.injEq] at he'
    rw [he', hfault]
  · exact absurd h nofun

/-- A step at a blocked form fails at the obstacle. -/
theorem ReadsNotation.step_of_blocked (hr : r.ReadsNotation) {ob : Obstacle}
    (hs : r.source.suffix? pos = some t) (h : Blocked r.depth pos t ob o) (he : e.Below pos) :
    r.step pos e = some (.failed ⟨ob.cause, o⟩) := by
  have hf := hr.fuel_of_suffix? hs
  have hne : t ≠ [] := by
    obtain ⟨kind, -, hkind⟩ := h.exists_opens
    exact hkind.ne_nil
  rw [step, node, hr.grammar.runNode_expression_of_blocked h hs (by omega)]
  rcases ob.reply_cases o with ⟨e', he', ho, hfault, hdeep⟩ | habort
  · -- What is expected at the obstacle lies behind the beginning of the form.
    have hlt : pos < e'.offset := ho ▸ h.lt_offset hdeep
    rw [he']
    dsimp only
    rw [if_neg (ne_width_of_suffix? hs hne), notEnded,
      Expectation.merge_eq_right (he.mono (Nat.le_of_lt hlt)),
      Expectation.merge_eq_left (Expectation.below_one hlt), hfault]
  · rw [habort]

/-! ## Runs -/

/-- All trivia at an offset is skipped. -/
theorem ReadsNotation.skipOptional_trivia (hr : r.ReadsNotation) {k u : Text}
    (hs : r.source.suffix? pos = some (k ++ u)) (hk : Trivia k u) (hu : ¬ StartsTrivia u) :
    r.skipOptional Grammar.trivia r.depth pos = some (.ok (pos + Text.width k)) := by
  have hf := hr.fuel_of_suffix? hs
  have hskip := hr.grammar.runSkip_trivia (d := r.depth) hs hk hu (show _ ≤ r.fuel by omega)
  simp only [skipOptional, skip, hskip, Reply.done]

/-- The first form is read behind the interpreter line and trivia. -/
theorem ReadsNotation.start_of_interpreterLine (hr : r.ReadsNotation) {line k u : Text}
    (hs : r.source.text = line ++ (k ++ u))
    (hline : InterpreterLine r.grammar.settings.allowShebang line (k ++ u)) (hk : Trivia k u)
    (hu : ¬ StartsTrivia u) : r.start = some (.ok (Text.width line + Text.width k)) := by
  have hs₀ : r.source.suffix? 0 = some (line ++ (k ++ u)) := hs ▸ r.source.suffix?_zero
  have hs' : r.source.suffix? (Text.width line) = some (k ++ u) :=
    Source.suffix?_eq_some_iff.mpr ⟨line, hs, rfl⟩
  have hf := hr.fuel_of_suffix? hs'
  have htrivia := hr.skipOptional_trivia hs' hk hu
  rw [start]
  cases ha : r.grammar.settings.allowShebang with
  | false =>
    rw [ha] at hline
    obtain rfl := hline.eq_nil
    rw [if_neg (by decide)]
    exact htrivia
  | true =>
    rw [ha] at hline
    obtain ⟨n, hn⟩ : ∃ n, r.fuel = n + 1 := ⟨r.fuel - 1, by omega⟩
    rw [if_pos rfl, skipOptional, skip, hn, Grammar.runSkip_succ hr.grammar.shebang,
      SkipRule.script, View.rest, Source.rest_of_suffix? hs₀, Script.run]
    rcases Token.shebang_of_interpreterLine hline with h | ⟨rfl, e, h⟩
    · rw [h]
      exact htrivia
    · rw [h]
      exact htrivia

/-- Steps go through forms one after the other. They begin behind the trivia in front of
the first one, and leave none behind the last. -/
theorem ReadsNotation.reads_of_spellsAll (hr : r.ReadsNotation) {fs : List Form}
    (h : SpellsAll pos v fs w) (hs : r.source.suffix? pos = some (v ++ w))
    (hw : ¬ StartsTrivia w) (hd : r.depth.Admits (Form.depths fs)) :
    ∃ k u, v ++ w = k ++ u ∧ Trivia k u ∧ ¬ StartsTrivia u ∧
      ∀ e, e.Below pos → ∃ e' : Expectation, e'.Below (pos + Text.width v) ∧
        r.Reads (pos + Text.width k) e fs (pos + Text.width v) e' := by
  induction fs generalizing pos v with
  | nil =>
    cases h with
    | nil hk =>
      refine ⟨v, w, rfl, hk, hw, ?_⟩
      intro e he
      exact ⟨e, he.mono (Nat.le_add_right _ _), .nil⟩
  | cons f fs ih =>
    cases h with
    | @cons _ k v v' _ _ _ hk hf hfs =>
      have hadmits := Depth.admits_max.mp hd
      rw [List.append_assoc, List.append_assoc] at hs ⊢
      have hs' := Source.suffix?_add hs
      obtain ⟨k₂, u₂, hw₂, hk₂, hu₂, hrest⟩ := ih hfs (Source.suffix?_add hs') hadmits.2
      refine ⟨k, v ++ (v' ++ w), rfl, hk, hf.not_startsTrivia _, ?_⟩
      intro e he
      obtain ⟨k₁, u₁, e₁, hw₁, hk₁, hu₁, he₁, hstep⟩ := hr.step_of_spells hf hs' hadmits.1
        (he.mono (Nat.le_add_right pos (Text.width k)))
      obtain ⟨rfl, rfl⟩ := hk₁.unique hk₂ hu₁ hu₂ (hw₁.symm.trans hw₂)
      obtain ⟨e', he', hreads⟩ := hrest e₁ he₁
      rw [Text.width_append, Text.width_append, ← Nat.add_assoc, ← Nat.add_assoc]
      exact ⟨e', he', .cons hstep hreads⟩

/-- Steps read the forms at the front of a source, up to the offset behind the front. -/
theorem ReadsNotation.exists_reads (hr : r.ReadsNotation) {x u : Text} {fs : List Form}
    (hs : r.source.text = x ++ u) (h : Front r.grammar.settings x fs u)
    (hu : ¬ StartsTrivia u) :
    ∃ pos e, e.Below (Text.width x) ∧ r.start = some (.ok pos) ∧
      r.Reads pos Expectation.none fs (Text.width x) e ∧ fs.length < r.fuel := by
  obtain ⟨line, v, rfl, hline, hfs, hd⟩ := h
  rw [List.append_assoc] at hs
  have hs' : r.source.suffix? (Text.width line) = some (v ++ u) :=
    Source.suffix?_eq_some_iff.mpr ⟨line, hs, rfl⟩
  obtain ⟨k, u', he, hk, hu', hreads⟩ := hr.reads_of_spellsAll hfs hs' hu hd
  have hlen := hfs.length_le
  have hf := hr.fuel_of_suffix? hs'
  rw [Text.width_append] at hf
  obtain ⟨e, hbelow, hreads⟩ := hreads Expectation.none (Expectation.below_none _)
  rw [he] at hs hline
  rw [Text.width_append]
  exact ⟨_, e, hbelow, hr.start_of_interpreterLine hs hline hk hu', hreads, by omega⟩

/-- A document is read with its forms. -/
theorem ReadsNotation.forms_of_document (hr : r.ReadsNotation) {fs : List Form}
    (h : Document r.grammar.settings r.source.text fs) : r.forms = some (.ok fs) := by
  have hs := (List.append_nil r.source.text).symm
  obtain ⟨pos, e, -, hstart, hreads, hfuel⟩ := hr.exists_reads hs (front_nil_iff.mpr h) nofun
  have hend : r.source.suffix? (Text.width r.source.text) = some [] :=
    Source.suffix?_eq_some_iff.mpr ⟨_, hs, rfl⟩
  exact hreads.forms_of_finished hstart hfuel (hr.step_of_end hend)

/-- A source that meets an obstacle is read up to a step that fails for it. The forms in
front are those of a document that ends there. -/
theorem ReadsNotation.exists_failed_of_rejected (hr : r.ReadsNotation) {ob : Obstacle}
    (h : Rejected r.grammar.settings r.source.text ob o) :
    ∃ x u fs pos e, r.source.text = x ++ u ∧ Text.width x ≤ o ∧
      Document r.grammar.settings x fs ∧ r.start = some (.ok pos) ∧
      r.Reads pos Expectation.none fs (Text.width x) e ∧ fs.length < r.fuel ∧
      r.step (Text.width x) e = some (.failed ⟨ob.cause, o⟩) := by
  obtain ⟨x, u, fs, hs, hfront, hu⟩ := rejected_iff_front.mp h
  have hview : r.source.suffix? (Text.width x) = some u :=
    Source.suffix?_eq_some_iff.mpr ⟨x, hs, rfl⟩
  rcases hu with hu | ⟨hu, hn, rfl, rfl⟩
  · obtain ⟨pos, e, he, hstart, hreads, hfuel⟩ := hr.exists_reads hs hfront hu.not_startsTrivia
    exact ⟨x, u, fs, pos, e, hs, hu.le_offset, front_nil_iff.mp (hfront.refollow hu.ne_nil nofun),
      hstart, hreads, hfuel, hr.step_of_blocked hview hu he⟩
  · obtain ⟨pos, e, he, hstart, hreads, hfuel⟩ := hr.exists_reads hs hfront hu.not_startsTrivia
    exact ⟨x, u, fs, pos, e, hs, Nat.le_refl _, front_nil_iff.mp (hfront.refollow hn nofun),
      hstart, hreads, hfuel, hr.step_of_barren hview hu hn he⟩

/-- A source that meets an obstacle is rejected for it. -/
theorem ReadsNotation.forms_of_rejected (hr : r.ReadsNotation) {ob : Obstacle}
    (h : Rejected r.grammar.settings r.source.text ob o) :
    r.forms = some (.error (Fault.locate ⟨ob.cause, o⟩ r.source.text)) := by
  obtain ⟨x, u, fs, pos, e, -, -, -, hstart, hreads, hfuel, hstep⟩ :=
    hr.exists_failed_of_rejected h
  exact hreads.forms_of_failed hstart hfuel hstep

end Reading

/-! ## Reading a text -/

namespace Grammar

variable {g : Grammar} {s : Text} {fs : List Form} {o : Nat} {ob : Obstacle}

theorem HasNotation.readsNotation (hg : g.HasNotation) (s : Text) :
    (g.reading s).ReadsNotation where
  grammar := hg
  fuel := by
    obtain ⟨alternatives, h, -⟩ := hg.expression
    have hn := (Array.getElem?_eq_some_iff.mp h).1
    rw [reading, enoughFuel]
    dsimp only
    calc 2 * (Source.ofText s).width + 8
        = 2 * ((Source.ofText s).width + 4) := by omega
      _ ≤ (g.nodeRules.size + g.skipRules.size + 1) *
            ((Source.ofText s).width + g.settings.depth.getD 0 + 4) :=
          Nat.mul_le_mul (by omega) (by omega)

theorem HasNotation.read_of_document (hg : g.HasNotation) (h : Document g.settings s fs) :
    g.read s = some (.ok fs) :=
  (hg.readsNotation s).forms_of_document h

theorem HasNotation.read_of_rejected (hg : g.HasNotation) (h : Rejected g.settings s ob o) :
    g.read s = some (.error (Fault.locate ⟨ob.cause, o⟩ s)) :=
  (hg.readsNotation s).forms_of_rejected h

/-- The forms that are read are those of the document that the source is. -/
theorem HasNotation.document_of_read (hg : g.HasNotation) (h : g.read s = some (.ok fs)) :
    Document g.settings s fs := by
  rcases document_or_rejected g.settings s with ⟨gs, hgs⟩ | ⟨ob, o, hob⟩
  · have := h.symm.trans (hg.read_of_document hgs)
    rwa [Except.ok.inj (Option.some.inj this)]
  · exact absurd (h.symm.trans (hg.read_of_rejected hob)) nofun

theorem HasNotation.read_eq_ok_iff (hg : g.HasNotation) :
    g.read s = some (.ok fs) ↔ Document g.settings s fs :=
  ⟨hg.document_of_read, hg.read_of_document⟩

/-- A diagnostic is about the first obstacle. -/
theorem HasNotation.rejected_of_read (hg : g.HasNotation) {d : Diagnostic}
    (h : g.read s = some (.error d)) :
    ∃ ob o, Rejected g.settings s ob o ∧ d = Fault.locate ⟨ob.cause, o⟩ s := by
  rcases document_or_rejected g.settings s with ⟨gs, hgs⟩ | ⟨ob, o, hob⟩
  · exact absurd (h.symm.trans (hg.read_of_document hgs)) nofun
  · have := h.symm.trans (hg.read_of_rejected hob)
    exact ⟨ob, o, hob, Except.error.inj (Option.some.inj this)⟩

/-- Every reading has a result. -/
theorem HasNotation.exists_read (hg : g.HasNotation) (s : Text) :
    (∃ fs, g.read s = some (.ok fs)) ∨ ∃ d, g.read s = some (.error d) := by
  rcases document_or_rejected g.settings s with ⟨gs, hgs⟩ | ⟨ob, o, hob⟩
  · exact Or.inl ⟨gs, hg.read_of_document hgs⟩
  · exact Or.inr ⟨_, hg.read_of_rejected hob⟩

end Grammar

end LispReader
