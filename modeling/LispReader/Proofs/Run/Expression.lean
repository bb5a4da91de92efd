import LispReader.Proofs.Run.Alternation

/-!
# Reading what the grammar says

The slot for expressions accepts every text that spells a form, with the form that
it spells, and stops at every obstacle with the reply that belongs to it. The fuel
needed is linear in the width of the text: two runs are open for each list around
a form, and a loop has no more rounds than there are bytes.
-/

namespace LispReader

open Notation

namespace Notation

theorem SpellsAll.length_le {pos : Nat} {v w : Text} {fs : List Form}
    (h : SpellsAll pos v fs w) : fs.length ≤ Text.width v := by
  induction fs generalizing pos v with
  | nil => exact Nat.zero_le _
  | cons f fs ih =>
    cases h with
    | cons _ hf hfs =>
      have hv := Text.width_pos hf.ne_nil
      have := ih hfs
      rw [List.length_cons, Text.width_append, Text.width_append]
      omega

/-- What a rule replies at an obstacle. -/
def Obstacle.reply : Obstacle → Nat → Reply Form
  | missing .source, o => .reject ((wantedForm o).merge (Expectation.one o Wanted.endOfInput))
  | missing .list, o => .reject ((wantedForm o).merge (Expectation.one o Wanted.closingParen))
  | missing .quote, o => .reject (wantedForm o)
  | unterminated, o =>
    .reject ((Expectation.one o Wanted.stringContent).merge
      (Expectation.one o Wanted.stringTerminator))
  | badEscape c, o => .abortAt o (.invalidEscape c)
  | tooDeep, o => .abortAt o .nestingTooDeep

@[simp] theorem offset_wantedForm (o : Nat) : (wantedForm o).offset = o := rfl

theorem one_ne_none (o : Nat) (what : String) : Expectation.one o what ≠ Expectation.none := by
  intro h
  exact absurd (congrArg Expectation.items h) nofun

theorem wantedForm_ne_none (o : Nat) : wantedForm o ≠ Expectation.none := by
  intro h
  exact absurd (congrArg Expectation.items h) nofun

theorem ofExpectation_eq_unterminated {e : Expectation} (h : Wanted.stringTerminator ∈ e.items) :
    Cause.ofExpectation e = .unterminatedString :=
  if_pos (List.contains_iff_mem.mpr h)

theorem ofExpectation_eq_unexpected {e : Expectation} (hn : e ≠ Expectation.none)
    (ht : Wanted.stringTerminator ∉ e.items) : Cause.ofExpectation e = .unexpected e.items := by
  rw [Cause.ofExpectation, if_neg, if_neg]
  · rw [Expectation.isNone_eq_false hn]
    decide
  · exact fun h => ht (List.contains_iff_mem.mp h)

/-- One more thing that is expected where a form is missing. -/
theorem ofExpectation_merge_wantedForm {o : Nat} {what : String} {wanted : List String}
    (hw : Expectation.union (wantedForm o).items [what] = wanted)
    (ht : Wanted.stringTerminator ∉ wanted) :
    Fault.ofExpectation ((wantedForm o).merge (Expectation.one o what)) =
      ⟨.unexpected wanted, o⟩ := by
  have hi := Expectation.items_merge_of_eq (wantedForm_ne_none o) (one_ne_none o what) rfl
  have ho := Expectation.offset_merge_of_eq (wantedForm_ne_none o) (one_ne_none o what) rfl
  rw [← hw] at ht ⊢
  rw [Fault.ofExpectation, ho, ofExpectation_eq_unexpected _ (by rwa [hi]), hi]
  · rfl
  · intro hn
    rw [hn] at hi
    exact absurd (Expectation.union_eq_nil hi.symm) nofun

/-- The reply at an obstacle expects something there, or aborts. Where it expects
something, it is not for being too deep. -/
theorem Obstacle.reply_cases (ob : Obstacle) (o : Nat) :
    (∃ e, ob.reply o = .reject e ∧ e.offset = o ∧ Fault.ofExpectation e = ⟨ob.cause, o⟩ ∧
        ob ≠ tooDeep) ∨
      ob.reply o = .abort ⟨ob.cause, o⟩ := by
  match ob with
  | missing .source =>
    have h : Fault.ofExpectation ((wantedForm o).merge (Expectation.one o Wanted.endOfInput)) =
        ⟨cause (missing .source), o⟩ := ofExpectation_merge_wantedForm rfl (by decide)
    exact Or.inl ⟨_, rfl, congrArg Fault.offset h, h, nofun⟩
  | missing .list =>
    have h : Fault.ofExpectation ((wantedForm o).merge (Expectation.one o Wanted.closingParen)) =
        ⟨cause (missing .list), o⟩ := ofExpectation_merge_wantedForm rfl (by decide)
    exact Or.inl ⟨_, rfl, congrArg Fault.offset h, h, nofun⟩
  | missing .quote => exact Or.inl ⟨_, rfl, rfl, rfl, nofun⟩
  | unterminated =>
    have hm := Expectation.offset_merge_of_eq (one_ne_none o Wanted.stringContent)
      (one_ne_none o Wanted.stringTerminator) rfl
    refine Or.inl ⟨_, rfl, hm, ?_, nofun⟩
    rw [Fault.ofExpectation, hm, ofExpectation_eq_unterminated]
    · rfl
    · rw [Expectation.items_merge_of_eq (one_ne_none o Wanted.stringContent)
        (one_ne_none o Wanted.stringTerminator) rfl, Expectation.mem_union]
      exact Or.inr List.mem_cons_self
  | badEscape c => exact Or.inr rfl
  | tooDeep => exact Or.inr rfl

end Notation

namespace Grammar

variable {g : Grammar} {source : Source}

/-! ## Forms -/

/-- The rule for the kind of a form reads the form. It may read trivia behind it as well. -/
def RunsForm (g : Grammar) (source : Source) (fuel : Nat) (d : Depth) (pos : Nat) (v w : Text)
    (f : Form) : Prop :=
  ∃ (kind : Kind) (k u : Text) (e : Expectation), kind.Opens (v ++ w) ∧ w = k ++ u ∧
    Trivia k u ∧ e.offset < pos + Text.width v ∧
    g.runNode source fuel kind.slot d pos =
      some (.accept f (pos + Text.width v + Text.width k) e)

/-- An expression reads the form that one of its rules reads, and all trivia behind it. -/
theorem HasNotation.runNode_expression_of_runsForm (hg : g.HasNotation) {fuel pos : Nat}
    {d : Depth} {v w : Text} {f : Form} (h : g.RunsForm source fuel d pos v w f)
    (hs : source.suffix? pos = some (v ++ w)) (hv : v ≠ []) (hf : Text.width w + 3 ≤ fuel) :
    ∃ k u e, w = k ++ u ∧ Trivia k u ∧ ¬ StartsTrivia u ∧ e.offset < pos + Text.width v ∧
      g.runNode source (fuel + 1) Grammar.expression d pos =
        some (.accept f (pos + Text.width v + Text.width k) e) := by
  obtain ⟨kind, k, u, e, hkind, rfl, hk, he, hrun⟩ := h
  obtain ⟨n, rfl⟩ : ∃ n, fuel = n + 1 := ⟨fuel - 1, by omega⟩
  obtain ⟨k', u, rfl, hk', hu⟩ := exists_trivia u
  rw [Text.width_append] at hf
  have hpos := Text.width_pos hv
  obtain ⟨e', he', hrun'⟩ := hg.runNode_expression_of_accept hs hkind hrun
    (p := pos + Text.width v) (by omega) he (Source.suffix?_add (Source.suffix?_add hs)) hk' hu
    (by omega)
  refine ⟨k ++ k', u, e', by simp, hk.append hk', hu, he', ?_⟩
  rw [hrun', Text.width_append, Nat.add_assoc]

/-- The loop over the items of a list goes through forms. It begins behind the trivia in front
of the first one, and leaves none behind the last. -/
def RunsItems (g : Grammar) (source : Source) (fuel : Nat) (d : Depth) (pos : Nat) (v w : Text)
    (fs : List Form) : Prop :=
  ∃ k u, v ++ w = k ++ u ∧ Trivia k u ∧ ¬ StartsTrivia u ∧
    ∀ finish rounds items e, e.Below pos → ∃ e' : Expectation, e'.Below (pos + Text.width v) ∧
      (NodeRule.itemsFrom Grammar.expression d finish (rounds + fs.length) items
          (pos + Text.width k) e).run (g.runNode source fuel) (g.runSkip source fuel) =
        (NodeRule.itemsFrom Grammar.expression d finish rounds (fs.reverse ++ items)
          (pos + Text.width v) e').run (g.runNode source fuel) (g.runSkip source fuel)

/-- The rule for lists, behind the opening parenthesis and forms. -/
theorem HasNotation.runNode_list (hg : g.HasNotation) {fuel pos : Nat} {d d' : Depth}
    {v w : Text} {fs : List Form}
    (hs : source.suffix? pos = some (Alphabet.openParen :: (v ++ w))) (hd : d.inner? = some d')
    (hitems : g.RunsItems source fuel d' (pos + 1) v w fs) (hlen : fs.length ≤ Text.width v)
    (hf : Text.width (v ++ w) + 3 ≤ fuel) :
    ∃ (rounds : Nat) (e : Expectation), e.Below (pos + 1 + Text.width v) ∧
      g.runNode source (fuel + 1) Grammar.list d pos =
        (NodeRule.itemsFrom Grammar.expression d' (NodeRule.closeList ⟨source, d⟩ pos)
          (rounds + 1) fs.reverse (pos + 1 + Text.width v) e).run
            (g.runNode source fuel) (g.runSkip source fuel) := by
  have hrest : (View.mk source d).rest pos = _ := Source.rest_of_suffix? hs
  have hs' : source.suffix? (pos + 1) = some (v ++ w) :=
    Source.suffix?_cons hs
  obtain ⟨k, u, he, hk, hu, hrun⟩ := hitems
  rw [Text.width_append] at hf
  obtain ⟨r, hr⟩ : ∃ r, fuel = r + 1 + fs.length := ⟨fuel - fs.length - 1, by omega⟩
  obtain ⟨e, hbelow, hrun⟩ := hrun (NodeRule.closeList ⟨source, d⟩ pos) (r + 1) []
    Expectation.none (Expectation.below_none _)
  refine ⟨r, e, hbelow, ?_⟩
  rw [runNode_succ hg.list, NodeRule.script, NodeRule.listScript, hrest, if_pos (by simp)]
  dsimp only
  rw [hd, Alphabet.utf8Size_openParen]
  dsimp only
  rw [hg.run_skipOptional_trivia (he ▸ hs') hk hu (by rw [← he, Text.width_append]; omega),
    ← hr, List.append_nil] at *
  exact hrun

/-- The rule for quote operators, behind the operator and trivia. -/
theorem HasNotation.runNode_quote (hg : g.HasNotation) {fuel pos : Nat} {d d' : Depth}
    {op : QuoteOperator} {k u : Text} (hs : source.suffix? pos = some (op.sign ++ (k ++ u)))
    (hop : op = .unquote → (k ++ u).head? ≠ some '@') (hd : d.inner? = some d')
    (hk : Trivia k u) (hu : ¬ StartsTrivia u) (hf : Text.width (k ++ u) + 3 ≤ fuel) :
    g.runNode source (fuel + 1) Grammar.quote d pos =
      (g.runNode source fuel Grammar.expression d'
        (pos + Text.width op.sign + Text.width k)).map (Reply.map (NodeRule.quoteForm op pos)) := by
  have hrest : (View.mk source d).rest pos = _ := Source.rest_of_suffix? hs
  rw [runNode_succ hg.quote, NodeRule.script, NodeRule.quoteScript, hrest,
    ofText?_sign_append hop]
  dsimp only
  rw [hd]
  dsimp only
  rw [hg.run_skipOptional_trivia (Source.suffix?_add hs) hk hu hf, Script.run]
  cases g.runNode source fuel Grammar.expression d' _ with
  | none => rfl
  | some reply => rfl

mutual
theorem HasNotation.runsForm_of_spells (hg : g.HasNotation) {pos : Nat} {v w : Text} {f : Form}
    (h : Spells pos v f w) {fuel : Nat} {d : Depth} (hs : source.suffix? pos = some (v ++ w))
    (hd : d.Admits f.depth) (hf : 2 * Text.width (v ++ w) + 3 ≤ fuel) :
    g.RunsForm source fuel d pos v w f := by
  have hrest : (View.mk source d).rest pos = v ++ w := Source.rest_of_suffix? hs
  have hpos := Text.width_pos h.ne_nil
  obtain ⟨n, rfl⟩ : ∃ n, fuel = n + 1 := ⟨fuel - 1, by omega⟩
  cases h with
  | atom hx hv hw =>
    refine ⟨.atom, [], w, Expectation.none, .atom (hx.startsConstituent hv w), rfl, .nil,
      Nat.lt_of_lt_of_le hpos (Nat.le_add_left _ _), ?_⟩
    rw [Kind.slot, runNode_succ hg.atom, NodeRule.script, hrest,
      Token.atom_of_constituents hx hv hw]
    rfl
  | string hx =>
    refine ⟨.string, [], w, Expectation.none, .string, rfl, .nil,
      Nat.lt_of_lt_of_le hpos (Nat.le_add_left _ _), ?_⟩
    rw [Kind.slot, runNode_succ hg.string, NodeRule.script, hrest, List.cons_append,
      List.append_assoc, List.singleton_append, Token.string_of_literal hx]
    simp only [Script.run, Reply.done, Text.width_cons, Text.width_append, Text.width_nil,
      Alphabet.utf8Size_quotation, Option.some.injEq, Reply.accept.injEq, true_and, and_true]
    omega
  | @list _ v _ fs hfs =>
    have hw : Text.width (Alphabet.openParen :: (v ++ [Alphabet.closeParen])) =
        Text.width v + 2 := by
      simp only [Text.width_cons, Text.width_append, Text.width_nil,
        Alphabet.utf8Size_openParen, Alphabet.utf8Size_closeParen]
      omega
    have hw' : Text.width (v ++ Alphabet.closeParen :: w) = Text.width v + 1 + Text.width w := by
      rw [Text.width_append, Text.width_cons, Alphabet.utf8Size_closeParen, Nat.add_assoc]
    rw [Text.width_append, hw] at hf
    rw [RunsForm, List.cons_append, List.append_assoc, List.singleton_append]
    rw [List.cons_append, List.append_assoc, List.singleton_append] at hs
    obtain ⟨d', hd', hdfs⟩ := Depth.exists_inner hd
    have hs' : source.suffix? (pos + 1) = some (v ++ Alphabet.closeParen :: w) :=
      Source.suffix?_cons hs
    have hitems := hg.runsItems_of_spellsAll hfs hs' Barren.close.not_startsTrivia hdfs
      (show 2 * Text.width (v ++ Alphabet.closeParen :: w) + 4 ≤ n by omega)
    obtain ⟨r, e, he, hrun⟩ := hg.runNode_list hs hd' hitems hfs.length_le (by omega)
    -- The last round meets the closing parenthesis.
    have hend := Source.suffix?_add hs'
    obtain ⟨m, rfl⟩ : ∃ m, n = m + 2 := ⟨n - 2, by omega⟩
    refine ⟨.list, [], w, e.merge (wantedForm (pos + 1 + Text.width v)), .list, rfl, .nil,
      Expectation.offset_merge_lt ?_ ?_, ?_⟩
    · have := he.offset_le
      omega
    · rw [offset_wantedForm]
      omega
    · rw [Kind.slot, hrun, NodeRule.itemsFrom, Script.run,
        hg.runNode_expression_of_barren hend .close]
      dsimp only
      rw [NodeRule.closeList, View.rest, Source.rest_of_suffix? hend, if_pos (by simp),
        List.reverse_reverse, Alphabet.utf8Size_closeParen, Script.run, hw]
      simp only [Text.width_nil, Option.some.injEq, Reply.accept.injEq, Form.list.injEq,
        Span.mk.injEq, true_and, and_true]
      omega
  | @quote _ op k v _ f hop hk hf' =>
    have hsign := width_sign_pos op
    rw [depth_quoted] at hd
    obtain ⟨d', hd', hdf⟩ := Depth.exists_inner hd
    rw [RunsForm, List.append_assoc, List.append_assoc]
    rw [List.append_assoc, List.append_assoc] at hs
    have hop' : op = .unquote → (k ++ (v ++ w)).head? ≠ some '@' := by
      intro ho
      rw [Text.head?_append_congr k hf'.ne_nil w [], List.append_nil]
      exact hop ho
    have hs' := Source.suffix?_add (Source.suffix?_add hs)
    simp only [Text.width_append] at hf
    obtain ⟨m, rfl⟩ : ∃ m, n = m + 1 := ⟨n - 1, by omega⟩
    have hm : 2 * Text.width (v ++ w) + 3 ≤ m := by
      rw [Text.width_append]
      omega
    have hform := hg.runsForm_of_spells hf' hs' hdf hm
    obtain ⟨k', u, e, hw, hk', -, he, hrun⟩ :=
      hg.runNode_expression_of_runsForm hform hs' hf'.ne_nil (by omega)
    refine ⟨.quote, k', u, e, .sign op _, hw, hk', ?_, ?_⟩
    · rw [Text.width_append, Text.width_append]
      omega
    · rw [Kind.slot, hg.runNode_quote hs hop' hd' hk (hf'.not_startsTrivia w) (by
          simp only [Text.width_append]
          omega), hrun]
      simp only [Option.map_some, Reply.map, NodeRule.quoteForm, quoted, symbol, hf'.span_eq,
        Text.width_append, Option.some.injEq, Reply.accept.injEq, true_and, and_true]
      omega

theorem HasNotation.runsItems_of_spellsAll (hg : g.HasNotation) {pos : Nat} {v w : Text}
    {fs : List Form} (h : SpellsAll pos v fs w) {fuel : Nat} {d : Depth}
    (hs : source.suffix? pos = some (v ++ w)) (hw : ¬ StartsTrivia w)
    (hd : d.Admits (Form.depths fs)) (hf : 2 * Text.width (v ++ w) + 4 ≤ fuel) :
    g.RunsItems source fuel d pos v w fs := by
  cases h with
  | nil hk =>
    refine ⟨v, w, rfl, hk, hw, ?_⟩
    intro finish rounds items e he
    exact ⟨e, he.mono (Nat.le_add_right _ _), rfl⟩
  | @cons _ k v v' _ f fs hk hf' hfs =>
    have hpos := Text.width_pos hf'.ne_nil
    have hadmits := Depth.admits_max.mp hd
    rw [RunsItems, List.append_assoc, List.append_assoc]
    rw [List.append_assoc, List.append_assoc] at hs hf
    have hs' := Source.suffix?_add hs
    simp only [Text.width_append] at hf
    obtain ⟨m, rfl⟩ : ∃ m, fuel = m + 1 := ⟨fuel - 1, by omega⟩
    have hm : 2 * Text.width (v ++ (v' ++ w)) + 3 ≤ m := by
      simp only [Text.width_append]
      omega
    have hm' : 2 * Text.width (v' ++ w) + 4 ≤ m + 1 := by
      rw [Text.width_append]
      omega
    have hform := hg.runsForm_of_spells hf' hs' hadmits.1 hm
    obtain ⟨k₁, u₁, e₁, hw₁, hk₁, hu₁, he₁, hrun₁⟩ :=
      hg.runNode_expression_of_runsForm hform hs' hf'.ne_nil (by omega)
    obtain ⟨k₂, u₂, hw₂, hk₂, hu₂, hrun₂⟩ :=
      hg.runsItems_of_spellsAll hfs (Source.suffix?_add hs') hw hadmits.2 hm'
    -- The expression skips as much trivia as there is in front of the other forms.
    obtain ⟨rfl, rfl⟩ := hk₁.unique hk₂ hu₁ hu₂ (hw₁.symm.trans hw₂)
    refine ⟨k, v ++ (v' ++ w), rfl, hk, hf'.not_startsTrivia _, ?_⟩
    intro finish rounds items e he
    obtain ⟨e', he', hrest⟩ := hrun₂ finish rounds (f :: items) (e.merge e₁)
      (Expectation.Below.merge (he.mono (by omega)) (Or.inr he₁))
    refine ⟨e', ?_, ?_⟩
    · rw [Text.width_append, Text.width_append, ← Nat.add_assoc, ← Nat.add_assoc]
      exact he'
    · rw [List.length_cons, ← Nat.add_assoc, NodeRule.itemsFrom, Script.run, hrun₁]
      dsimp only
      rw [if_neg (by omega), hrest, List.reverse_cons, List.append_assoc, List.singleton_append,
        Text.width_append, Text.width_append, ← Nat.add_assoc, ← Nat.add_assoc]
end

/-- An expression reads a form, and all trivia behind it. -/
theorem HasNotation.runNode_expression_of_spells (hg : g.HasNotation) {fuel pos : Nat}
    {d : Depth} {v w : Text} {f : Form} (h : Spells pos v f w)
    (hs : source.suffix? pos = some (v ++ w)) (hd : d.Admits f.depth)
    (hf : 2 * Text.width (v ++ w) + 4 ≤ fuel) :
    ∃ k u e, w = k ++ u ∧ Trivia k u ∧ ¬ StartsTrivia u ∧ e.offset < pos + Text.width v ∧
      g.runNode source fuel Grammar.expression d pos =
        some (.accept f (pos + Text.width v + Text.width k) e) := by
  obtain ⟨n, rfl⟩ : ∃ n, fuel = n + 1 := ⟨fuel - 1, by omega⟩
  have hform := hg.runsForm_of_spells h hs hd (show 2 * Text.width (v ++ w) + 3 ≤ n by omega)
  rw [Text.width_append] at hf
  exact hg.runNode_expression_of_runsForm hform hs h.ne_nil (by omega)

/-! ## Obstacles -/

theorem isPrefixOf_closeParen {u : Text} (h : ∀ t, u ≠ Alphabet.closeParen :: t) :
    [Alphabet.closeParen].isPrefixOf u = false := by
  cases u with
  | nil => rfl
  | cons c u =>
    have hc : Alphabet.closeParen ≠ c := by
      rintro rfl
      exact h u rfl
    simp [List.isPrefixOf, hc]

/-- A list that is not closed rejects, and expects its end as well. -/
theorem run_closeList_of_ne {node : NodeHandle → Depth → Nat → Option (Reply Form)}
    {skip : SkipHandle → Depth → Nat → Option (Reply Unit)} {start pos : Nat} {d : Depth}
    {u : Text} {items : List Form} {e : Expectation} (hs : source.suffix? pos = some u)
    (hu : ∀ t, u ≠ Alphabet.closeParen :: t) :
    (NodeRule.closeList ⟨source, d⟩ start items pos e).run node skip =
      some (.reject (e.merge (Expectation.one pos Wanted.closingParen))) := by
  rw [NodeRule.closeList, View.rest, Source.rest_of_suffix? hs,
    if_neg (by rw [isPrefixOf_closeParen hu]; decide)]
  rfl

/-- A list that gets neither another item nor its end rejects. -/
theorem run_itemsFrom_of_reject {fuel start pos rounds : Nat} {d d' : Depth} {u : Text}
    {items : List Form} {e e' : Expectation} (hs : source.suffix? pos = some u)
    (hu : ∀ t, u ≠ Alphabet.closeParen :: t)
    (hrun : g.runNode source fuel Grammar.expression d' pos = some (.reject e')) :
    (NodeRule.itemsFrom Grammar.expression d' (NodeRule.closeList ⟨source, d⟩ start) (rounds + 1)
        items pos e).run (g.runNode source fuel) (g.runSkip source fuel) =
      some (.reject ((e.merge e').merge (Expectation.one pos Wanted.closingParen))) := by
  rw [NodeRule.itemsFrom, Script.run, hrun]
  exact run_closeList_of_ne hs hu

/-- The rule for lists, behind forms that are read. -/
theorem HasNotation.runNode_list_of_spellsAll (hg : g.HasNotation) {fuel pos : Nat}
    {d d' : Depth} {v u : Text} {fs : List Form}
    (hs : source.suffix? pos = some (Alphabet.openParen :: (v ++ u))) (hd : d.inner? = some d')
    (hfs : SpellsAll (pos + 1) v fs u) (hdepth : d'.Admits (Form.depths fs))
    (hu : ¬ StartsTrivia u) (hf : 2 * Text.width (v ++ u) + 4 ≤ fuel) :
    ∃ (rounds : Nat) (e : Expectation), e.Below (pos + 1 + Text.width v) ∧
      g.runNode source (fuel + 1) Grammar.list d pos =
        (NodeRule.itemsFrom Grammar.expression d' (NodeRule.closeList ⟨source, d⟩ pos)
          (rounds + 1) fs.reverse (pos + 1 + Text.width v) e).run
            (g.runNode source fuel) (g.runSkip source fuel) := by
  have hs' : source.suffix? (pos + 1) = some (v ++ u) := Source.suffix?_cons hs
  have hitems := hg.runsItems_of_spellsAll hfs hs' hu hdepth hf
  exact hg.runNode_list hs hd hitems hfs.length_le (by omega)

/-- Where no more lists may be opened, the rules that open one abort. -/
theorem HasNotation.runNode_of_tooDeep (hg : g.HasNotation) {pos : Nat} {d : Depth} {t : Text}
    {kind : Kind} (hs : source.suffix? pos = some t) (hd : d.inner? = none)
    (hk : kind = .list ∨ kind = .quote) (ho : kind.Opens t) (fuel : Nat) :
    g.runNode source (fuel + 1) kind.slot d pos = some (.abortAt pos .nestingTooDeep) := by
  have hrest : (View.mk source d).rest pos = t := Source.rest_of_suffix? hs
  cases ho with
  | list =>
    rw [Kind.slot, runNode_succ hg.list, NodeRule.script, NodeRule.listScript, hrest,
      if_pos (by simp)]
    dsimp only
    rw [hd]
    rfl
  | quote hc =>
    obtain ⟨op, u, hu, hop⟩ := exists_operator hc _
    rw [hu] at hrest
    rw [Kind.slot, runNode_succ hg.quote, NodeRule.script, NodeRule.quoteScript, hrest,
      ofText?_sign_append hop]
    dsimp only
    rw [hd]
    rfl
  | atom _ => exact absurd hk (by decide)
  | string => exact absurd hk (by decide)

/-- What a rule replies at an obstacle, the expression replies. -/
theorem HasNotation.runNode_expression_of_obstacle (hg : g.HasNotation) {fuel pos o : Nat}
    {d : Depth} {t : Text} {ob : Obstacle} {kind : Kind} (h : Blocked d pos t ob o)
    (hs : source.suffix? pos = some t) (hkind : kind.Opens t)
    (hrun : g.runNode source (fuel + 1) kind.slot d pos = some (ob.reply o)) :
    g.runNode source (fuel + 2) Grammar.expression d pos = some (ob.reply o) := by
  rcases ob.reply_cases o with ⟨e, he, ho, -, hne⟩ | hfault
  · have hlt : pos < e.offset := ho ▸ h.lt_offset hne
    rw [he] at hrun ⊢
    exact hg.runNode_expression_of_reject hs hkind hlt hrun
  · rw [hfault] at hrun ⊢
    exact hg.runNode_expression_of_abort hs hkind hrun

/-- An expression stops at the obstacle that the text meets. -/
theorem HasNotation.runNode_expression_of_blocked (hg : g.HasNotation) {fuel pos o : Nat}
    {d : Depth} {t : Text} {ob : Obstacle} (h : Blocked d pos t ob o)
    (hs : source.suffix? pos = some t) (hf : 2 * Text.width t + 4 ≤ fuel) :
    g.runNode source fuel Grammar.expression d pos = some (ob.reply o) := by
  induction h generalizing fuel with
  | @unterminated d pos v hv =>
    obtain ⟨n, rfl⟩ : ∃ n, fuel = n + 2 := ⟨fuel - 2, by omega⟩
    apply hg.runNode_expression_of_obstacle (.unterminated hv) hs .string
    rw [Kind.slot, runNode_succ hg.string, NodeRule.script, View.rest, Source.rest_of_suffix? hs,
      Token.string_of_unclosed hv]
    rfl
  | @badEscape d pos v x t e hv he =>
    obtain ⟨n, rfl⟩ : ∃ n, fuel = n + 2 := ⟨fuel - 2, by omega⟩
    apply hg.runNode_expression_of_obstacle (.badEscape hv he) hs .string
    rw [Kind.slot, runNode_succ hg.string, NodeRule.script, View.rest, Source.rest_of_suffix? hs,
      Token.string_of_badEscape hv he]
    rfl
  | @tooDeep d pos t kind hd hk ho =>
    obtain ⟨n, rfl⟩ : ∃ n, fuel = n + 2 := ⟨fuel - 2, by omega⟩
    apply hg.runNode_expression_of_obstacle (.tooDeep hd hk ho) hs ho
    exact hg.runNode_of_tooDeep hs hd hk ho n
  | @item d d' pos o v u fs ob hd hfs hdepth hu ih =>
    have hend : source.suffix? (pos + 1 + Text.width v) = some u :=
      Source.suffix?_add (Source.suffix?_cons hs)
    have hclose : ∀ t, u ≠ Alphabet.closeParen :: t := by
      rintro t rfl
      obtain ⟨kind, -, hkind⟩ := hu.exists_opens
      exact Barren.close.not_opens kind hkind
    rw [Text.width_cons, Text.width_append, Alphabet.utf8Size_openParen] at hf
    obtain ⟨n, rfl⟩ : ∃ n, fuel = n + 2 := ⟨fuel - 2, by omega⟩
    apply hg.runNode_expression_of_obstacle (.item hd hfs hdepth hu) hs .list
    have hn : 2 * Text.width (v ++ u) + 4 ≤ n := by
      rw [Text.width_append]
      omega
    obtain ⟨r, e, he, hrun⟩ :=
      hg.runNode_list_of_spellsAll hs hd hfs hdepth hu.not_startsTrivia hn
    have hlast := ih hend (show _ ≤ n by omega)
    rcases ob.reply_cases o with ⟨e', he', ho, -, hne⟩ | hfault
    · -- What the blocked form expects lies behind what was expected in front of it.
      have hlt : pos + 1 + Text.width v < e'.offset := ho ▸ hu.lt_offset hne
      rw [he'] at hlast ⊢
      rw [Kind.slot, hrun, run_itemsFrom_of_reject hend hclose hlast,
        Expectation.merge_eq_right (he.mono (Nat.le_of_lt hlt)),
        Expectation.merge_eq_left (Expectation.below_one hlt)]
    · rw [Kind.slot, hrun, NodeRule.itemsFrom, Script.run, hlast, hfault]
      rfl
  | @unclosed d d' pos v u fs hd hfs hdepth hu hc =>
    have hend : source.suffix? (pos + 1 + Text.width v) = some u :=
      Source.suffix?_add (Source.suffix?_cons hs)
    rw [Text.width_cons, Text.width_append, Alphabet.utf8Size_openParen] at hf
    obtain ⟨n, rfl⟩ : ∃ n, fuel = n + 2 + 2 := ⟨fuel - 4, by omega⟩
    apply hg.runNode_expression_of_obstacle (.unclosed hd hfs hdepth hu hc) hs .list
    have hn : 2 * Text.width (v ++ u) + 4 ≤ n + 2 := by
      rw [Text.width_append]
      omega
    obtain ⟨r, e, he, hrun⟩ :=
      hg.runNode_list_of_spellsAll hs hd hfs hdepth hu.not_startsTrivia hn
    rw [Kind.slot, hrun,
      run_itemsFrom_of_reject hend hc (hg.runNode_expression_of_barren hend hu),
      Expectation.merge_eq_right (b := wantedForm (pos + 1 + Text.width v)) he]
    rfl
  | @operand d d' pos o op k u ob hd hop hk hu ih =>
    have hsign := width_sign_pos op
    rw [Text.width_append, Text.width_append] at hf
    obtain ⟨n, rfl⟩ : ∃ n, fuel = n + 2 := ⟨fuel - 2, by omega⟩
    apply hg.runNode_expression_of_obstacle (.operand hd hop hk hu) hs (.sign op _)
    rw [Kind.slot, hg.runNode_quote hs hop hd hk hu.not_startsTrivia (by
        rw [Text.width_append]
        omega), ih (Source.suffix?_add (Source.suffix?_add hs)) (by omega)]
    rcases ob.reply_cases o with ⟨e, he, -⟩ | hfault
    · rw [he]
      rfl
    · rw [hfault]
      rfl
  | @noOperand d d' pos op k u hd hop hk hu =>
    have hsign := width_sign_pos op
    rw [Text.width_append, Text.width_append] at hf
    obtain ⟨n, rfl⟩ : ∃ n, fuel = n + 2 + 2 := ⟨fuel - 4, by omega⟩
    apply hg.runNode_expression_of_obstacle (.noOperand hd hop hk hu) hs (.sign op _)
    rw [Kind.slot, hg.runNode_quote hs hop hd hk hu.not_startsTrivia (by
        rw [Text.width_append]
        omega),
      hg.runNode_expression_of_barren (Source.suffix?_add (Source.suffix?_add hs)) hu]
    rfl

end Grammar

end LispReader
