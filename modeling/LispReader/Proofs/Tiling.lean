import LispReader.Proofs.Locality

/-!
# Spans tile the source

No text is lost between the forms of a source. The spans of siblings follow one
another and only trivia is left between them; the same holds inside of every list,
up to the parentheses or the quote operator that make it a list. What remains in
front of the first form of a source is an interpreter line and trivia.
-/

namespace LispReader

open Alphabet Notation

/-- The spans of forms follow one another and do not overlap. -/
def Form.InOrder (fs : List Form) : Prop := fs.Pairwise fun f g => f.span.stop ≤ g.span.start

namespace Notation

/-! ## Gaps and tilings -/

/-- Between two offsets of a source there is nothing but trivia. -/
def TriviaBetween (s : Text) (p q : Nat) : Prop :=
  ∃ k w, Span.slice? ⟨p, q⟩ s = some k ∧ Text.dropBytes? s q = some w ∧ Trivia k w

/-- Between two offsets of a source there are forms at their spans, one behind the
other, and nothing but trivia around them. -/
def Tiled (s : Text) : Nat → List Form → Nat → Prop
  | p, [], q => TriviaBetween s p q
  | p, f :: fs, q => TriviaBetween s p f.span.start ∧ Tiled s f.span.stop fs q

/-- How a list is written in a source. -/
inductive ListWritten (s : Text) : List Form → Span → Prop where
  /-- Parentheses at both ends of the span, and nothing but items and trivia inside. -/
  | parentheses {items : List Form} {start stop : Nat} {v : Text}
      (hslice : Span.slice? ⟨start, stop⟩ s = some (openParen :: (v ++ [closeParen])))
      (hitems : Tiled s (start + 1) items (stop - 1)) : ListWritten s items ⟨start, stop⟩
  /-- An operator at the start, an operand up to the end, and nothing but trivia between. -/
  | operator {op : QuoteOperator} {operand : Form} {start stop : Nat} {v : Text}
      (hslice : Span.slice? ⟨start, stop⟩ s = some (op.sign ++ v))
      (hstop : operand.span.stop = stop)
      (hgap : TriviaBetween s (start + Text.width op.sign) operand.span.start) :
      ListWritten s [symbol op start, operand] ⟨start, stop⟩

variable {s a k v w : Text} {pos : Nat} {f : Form} {fs : List Form}

theorem triviaBetween_of_append (hk : Trivia k w) (hs : s = a ++ (k ++ w))
    (ha : Text.width a = pos) : TriviaBetween s pos (pos + Text.width k) := by
  subst ha
  refine ⟨k, w, ?_, ?_, hk⟩
  · rw [hs]
    exact Span.slice?_append a k w
  · rw [hs, ← List.append_assoc, ← Text.width_append]
    exact Text.dropBytes?_width_append (a ++ k) w

/-- Forms that a piece of a source spells tile the piece. -/
theorem SpellsAll.tiled (h : SpellsAll pos v fs w) (hs : s = a ++ (v ++ w))
    (ha : Text.width a = pos) : Tiled s pos fs (pos + Text.width v) := by
  induction fs generalizing a v pos with
  | nil =>
    cases h with
    | nil hk => exact triviaBetween_of_append hk hs ha
  | cons f fs ih =>
    cases h with
    | @cons _ k v v' _ _ _ hk hf hfs =>
      have hend : Text.width (a ++ (k ++ v)) = pos + Text.width k + Text.width v := by
        rw [Text.width_append, Text.width_append, ha, Nat.add_assoc]
      have hrest := ih hfs (by simp [hs]) hend
      rw [Text.width_append, Text.width_append, ← Nat.add_assoc, ← Nat.add_assoc, Tiled,
        hf.span_eq]
      exact ⟨triviaBetween_of_append hk (by simp [hs]) ha, hrest⟩

/-! ## Order and containment -/

theorem Spells.start_lt_stop (h : Spells pos v f w) : f.span.start < f.span.stop := by
  have hv := Text.width_pos h.ne_nil
  rw [h.span_eq]
  exact Nat.lt_add_of_pos_right hv

/-- Forms stay within the piece that spells them. -/
theorem SpellsAll.bounds (h : SpellsAll pos v fs w) (hf : f ∈ fs) :
    pos ≤ f.span.start ∧ f.span.stop ≤ pos + Text.width v := by
  induction fs generalizing pos v with
  | nil => exact absurd hf List.not_mem_nil
  | cons g gs ih =>
    cases h with
    | cons hk hg hgs =>
      rw [Text.width_append, Text.width_append]
      rcases List.mem_cons.mp hf with rfl | hf
      · rw [hg.span_eq]
        dsimp only
        omega
      · have hbounds := ih hgs hf
        omega

theorem SpellsAll.inOrder (h : SpellsAll pos v fs w) : Form.InOrder fs := by
  induction fs generalizing pos v with
  | nil => exact List.Pairwise.nil
  | cons f fs ih =>
    cases h with
    | cons hk hf hfs =>
      apply List.pairwise_cons.mpr
      refine ⟨fun g hg => ?_, ih hfs⟩
      rw [hf.span_eq]
      exact (hfs.bounds hg).1

/-! ## Lists -/

/-- The items of a list follow one another inside of the list, and with what makes it
a list and trivia they are all that the source has there. -/
structure ItemsTile (s : Text) (items : List Form) (span : Span) : Prop where
  inOrder : Form.InOrder items
  inside : ∀ f ∈ items, span.contains f.span = true ∧ f.span ≠ span
  written : ListWritten s items span

/-- Items lie between the parentheses of their list. -/
theorem itemsTile_of_parentheses (hfs : SpellsAll (pos + 1) v fs (closeParen :: w))
    (hs : s = a ++ (openParen :: (v ++ closeParen :: w))) (ha : Text.width a = pos) :
    ItemsTile s fs ⟨pos, pos + Text.width v + 2⟩ where
  inOrder := hfs.inOrder
  inside := by
    intro f hf
    have hbounds := hfs.bounds hf
    constructor
    · apply Span.contains_iff.mpr
      dsimp only
      omega
    · intro he
      rw [he] at hbounds
      dsimp only at hbounds
      omega
  written := by
    have hopen : Text.width (a ++ [openParen]) = pos + 1 := by
      rw [Text.width_append, ha]
      rfl
    have htiled := hfs.tiled (s := s) (by simp [hs]) hopen
    refine .parentheses (v := v) ?_ ?_
    · apply Span.slice?_of_append (a := a) (c := w) (by simp [hs]) ha.symm
      rw [Text.width_cons, Text.width_append, Text.width_cons, Text.width_nil]
      simp only [utf8Size_openParen, utf8Size_closeParen]
      omega
    · have hstop : pos + Text.width v + 2 - 1 = pos + 1 + Text.width v := by omega
      rwa [hstop]

/-- Symbol and operand lie behind one another, up to the end of the list. -/
theorem itemsTile_of_operator {op : QuoteOperator} (hk : Trivia k (v ++ w))
    (hf : Spells (pos + Text.width op.sign + Text.width k) v f w)
    (hs : s = a ++ (op.sign ++ (k ++ (v ++ w)))) (ha : Text.width a = pos) :
    ItemsTile s [symbol op pos, f]
      ⟨pos, pos + Text.width op.sign + Text.width k + Text.width v⟩ where
  inOrder := by
    apply List.pairwise_pair.mpr
    rw [hf.span_eq]
    exact Nat.le_add_right _ _
  inside := by
    have hsign := width_sign_pos op
    have hv := Text.width_pos hf.ne_nil
    intro g hg
    rw [Span.contains_iff]
    rw [List.mem_cons, List.mem_singleton] at hg
    rcases hg with rfl | rfl
    · simp only [symbol, Form.span, ne_eq, Span.mk.injEq]
      omega
    · simp only [hf.span_eq, ne_eq, Span.mk.injEq]
      omega
  written := by
    refine .operator (v := k ++ v) ?_ ?_ ?_
    · apply Span.slice?_of_append (a := a) (c := w) (by simp [hs]) ha.symm
      simp only [Text.width_append]
      omega
    · rw [hf.span_eq]
    · have hsign : Text.width (a ++ op.sign) = pos + Text.width op.sign := by
        rw [Text.width_append, ha]
      rw [hf.span_eq]
      exact triviaBetween_of_append hk (by simp [hs]) hsign

/-- The items of every list in a document tile the list. -/
theorem Document.itemsTile {settings : Settings} (h : Document settings s fs) {level : Nat}
    {items : List Form} {span : Span} (hmem : (level, Form.list items span) ∈ Form.preorders 0 fs) :
    ItemsTile s items span := by
  have hloc := h.located hmem
  generalize hlist : Form.list items span = list at hloc
  cases hloc with
  | symbol _ _ => exact absurd hlist nofun
  | @spelled x u y _ hs hf =>
    rw [Nat.zero_add, List.append_nil] at hf
    cases hf with
    | atom _ _ _ => exact absurd hlist nofun
    | string _ => exact absurd hlist nofun
    | list hfs =>
      obtain ⟨rfl, rfl⟩ := Form.list.inj hlist
      exact itemsTile_of_parentheses hfs (by simp [hs]) rfl
    | quote _ hk hf =>
      obtain ⟨rfl, rfl⟩ := Form.list.inj hlist
      exact itemsTile_of_operator hk hf (by simp [hs]) rfl

/-- Every node of a document has some text at its span. -/
theorem Document.exists_slice {settings : Settings} (h : Document settings s fs)
    {p : Nat × Form} (hp : p ∈ Form.preorders 0 fs) :
    p.2.span.start < p.2.span.stop ∧ ∃ t, p.2.span.slice? s = some t ∧ t ≠ [] := by
  obtain ⟨level, f⟩ := p
  cases h.located hp with
  | spelled hs hf =>
    refine ⟨hf.start_lt_stop, _, Span.slice?_of_append hs ?_ ?_, hf.ne_nil⟩
    · rw [hf.span_eq, Nat.zero_add]
    · rw [hf.span_eq, Nat.zero_add]
  | @symbol x y op _ _ _ hs _ =>
    have hsign := width_sign_pos op
    refine ⟨Nat.lt_add_of_pos_right hsign, op.sign, Span.slice?_of_append hs ?_ ?_, ?_⟩
    · exact Nat.zero_add _
    · exact congrArg (· + Text.width op.sign) (Nat.zero_add _)
    · obtain ⟨c, u, hc, -⟩ := sign_eq_cons op
      rw [hc]
      exact nofun

end Notation

namespace Grammar

/-- The spans of a reading account for all of its source. Every span has some text. Siblings
follow one another with nothing but trivia around them, and with the parentheses or the
operator of their list; at the top, with an interpreter line where one may be. -/
theorem spans_tile_source (settings : Settings) (s : Text) (fs : List Form)
    (h : (standard settings).read s = some (.ok fs)) :
    (∀ p ∈ Form.preorders 0 fs, p.2.span.start < p.2.span.stop ∧
      ∃ t, p.2.span.slice? s = some t ∧ t ≠ []) ∧
    Form.InOrder fs ∧
    (∃ line v, s = line ++ v ∧ InterpreterLine settings.allowShebang line v ∧
      Tiled s (Text.width line) fs (Text.width s)) ∧
    ∀ level items span, (level, Form.list items span) ∈ Form.preorders 0 fs →
      ItemsTile s items span := by
  have hdocument := (hasNotation_standard settings).document_of_read h
  obtain ⟨line, v, hs, hline, hfs, -⟩ := id hdocument
  refine ⟨fun p hp => hdocument.exists_slice hp, hfs.inOrder, ⟨line, v, hs, hline, ?_⟩, ?_⟩
  · have htiled := hfs.tiled (s := s) (by rw [hs, List.append_nil]) rfl
    rwa [← Text.width_append, ← hs] at htiled
  · intro level items span hmem
    exact hdocument.itemsTile hmem

/-- An interpreter line, a character of two bytes, a space behind an operator, and a
parenthesis in a comment. -/
theorem spans_tile_source_comment :
    (standard ⟨true, some 2⟩).read
        ['#', '!', '\n', '(', 'é', '\x27', ' ', 'b', ';', ')', '\n', ')'] =
      some (.ok [.list [.atom ['é'] ⟨4, 6⟩, quoted .quote 6 (.atom ['b'] ⟨8, 9⟩) 9] ⟨3, 13⟩]) ∧
    (∀ p ∈ Form.preorders 0
        [.list [.atom ['é'] ⟨4, 6⟩, quoted .quote 6 (.atom ['b'] ⟨8, 9⟩) 9] ⟨3, 13⟩],
      p.2.span.start < p.2.span.stop ∧ ∃ t, p.2.span.slice?
        ['#', '!', '\n', '(', 'é', '\x27', ' ', 'b', ';', ')', '\n', ')'] = some t ∧ t ≠ []) ∧
    Form.InOrder [.list [.atom ['é'] ⟨4, 6⟩, quoted .quote 6 (.atom ['b'] ⟨8, 9⟩) 9] ⟨3, 13⟩] ∧
    (∃ line v, ['#', '!', '\n', '(', 'é', '\x27', ' ', 'b', ';', ')', '\n', ')'] = line ++ v ∧
      InterpreterLine true line v ∧
      Tiled ['#', '!', '\n', '(', 'é', '\x27', ' ', 'b', ';', ')', '\n', ')'] (Text.width line)
        [.list [.atom ['é'] ⟨4, 6⟩, quoted .quote 6 (.atom ['b'] ⟨8, 9⟩) 9] ⟨3, 13⟩] 13) ∧
    ∀ level items span, (level, Form.list items span) ∈ Form.preorders 0
        [.list [.atom ['é'] ⟨4, 6⟩, quoted .quote 6 (.atom ['b'] ⟨8, 9⟩) 9] ⟨3, 13⟩] →
      ItemsTile ['#', '!', '\n', '(', 'é', '\x27', ' ', 'b', ';', ')', '\n', ')'] items span :=
  ⟨rfl, spans_tile_source ⟨true, some 2⟩ _ _ rfl⟩

end Grammar

end LispReader
