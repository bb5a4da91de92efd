import LispReader.Proofs.Notation.Node
import LispReader.Proofs.Run.Reading

/-!
# Spans are local

What a node of a reading is depends on the text at its span alone: reading this text
by itself gives the same form, with offsets counted from its beginning. An
interpreter line is left aside, since a piece of a source has no business with it.
The symbol for a quote operator is the exception. Its text is the operator, which no
reading accepts by itself.
-/

namespace LispReader

open Notation

/-- A node stands for the operator of a quote form: it is the first item of a list
that begins where it does. A list in parentheses begins in front of its items. -/
def Form.IsOperator (fs : List Form) (n : Form) : Prop :=
  ∃ level items span, (level, Form.list items span) ∈ Form.preorders 0 fs ∧
    items.head? = some n ∧ n.span.start = span.start

namespace Notation

variable {settings : Settings} {s : Text} {fs : List Form}

/-- All nodes of a document are located in its text. -/
theorem Document.located (h : Document settings s fs) {p : Nat × Form}
    (hp : p ∈ Form.preorders 0 fs) : Located (Form.preorders 0 fs) 0 s [] p.2 := by
  obtain ⟨line, v, rfl, -, hfs, -⟩ := h
  have hloc := hfs.located 0 hp
  rw [← Nat.zero_add (Text.width line)] at hloc
  have hextend := hloc.extend (b := []) fun q hq => hq
  rwa [List.append_nil] at hextend

/-- The items of a list in parentheses begin behind the list. -/
theorem SpellsAll.lt_start {pos : Nat} {v w : Text} {f : Form} (h : SpellsAll (pos + 1) v fs w)
    (hf : fs.head? = some f) : pos < f.span.start := by
  cases h with
  | nil _ => exact absurd hf nofun
  | cons _ hspells _ =>
    obtain rfl := Option.some.inj hf
    rw [hspells.span_eq]
    dsimp only
    omega

/-- A node that stands for an operator is the symbol for the operator at its span. -/
theorem Document.eq_symbol (h : Document settings s fs) {n : Form} (hn : Form.IsOperator fs n) :
    ∃ x y op, s = x ++ (QuoteOperator.sign op ++ y) ∧ n = symbol op (Text.width x) := by
  obtain ⟨level, items, span, hmem, hhead, hstart⟩ := hn
  generalize hlist : Form.list items span = list at hmem
  cases h.located hmem with
  | symbol _ _ => exact absurd hlist nofun
  | @spelled x u y _ hv hf =>
    cases hf with
    | atom _ _ _ => exact absurd hlist nofun
    | string _ => exact absurd hlist nofun
    | list hfs =>
      obtain ⟨rfl, rfl⟩ := Form.list.inj hlist
      have hlt := hfs.lt_start hhead
      dsimp only at hstart
      omega
    | @quote _ op k v _ f _ _ _ =>
      obtain ⟨rfl, -⟩ := Form.list.inj hlist
      refine ⟨x, k ++ v ++ y, op, by simp [hv], ?_⟩
      rw [← Option.some.inj hhead, Nat.zero_add]

/-- A form that is spelled by a piece of a text is all that the piece spells. -/
theorem Spells.exists_document {pos : Nat} {u w : Text} {n : Form} (h : Spells pos u n w)
    (hd : settings.depth.Admits n.depth) :
    ∃ f, Document { settings with allowShebang := false } u [f] ∧ f.shift pos = n := by
  obtain ⟨f, rfl, hf⟩ := h.exists_shift (Nat.zero_add pos).symm
  rw [Form.depth_shift] at hd
  have hend : Spells 0 u f [] := hf.follow nofun
  refine ⟨f, ⟨[], u, rfl, .absent nofun, hend.spellsAll, ?_⟩, rfl⟩
  exact Depth.admits_max.mpr ⟨hd, Depth.admits_zero _⟩

end Notation

namespace Grammar

/-- Reading the text at the span of a node gives the node, moved to the beginning. For the
symbol of a quote operator, the text is the operator and the content is its name. -/
theorem read_slice_of_node (settings : Settings) (s : Text) (fs : List Form)
    (h : (standard settings).read s = some (.ok fs)) :
    ∀ p ∈ Form.preorders 0 fs,
      (¬ Form.IsOperator fs p.2 → ∃ t f, p.2.span.slice? s = some t ∧
        (standard { settings with allowShebang := false }).read t = some (.ok [f]) ∧
        f.shift p.2.span.start = p.2) ∧
      (Form.IsOperator fs p.2 → ∃ op span, p.2 = .atom (QuoteOperator.name op).toList span ∧
        span.slice? s = some op.sign ∧ QuoteOperator.ofText? op.sign = some op) := by
  have hdocument := (hasNotation_standard settings).document_of_read h
  obtain ⟨-, -, -, -, -, hdepth⟩ := id hdocument
  rintro ⟨level, n⟩ hp
  constructor
  · intro hno
    have hd := hdepth.mono (Form.depth_le_of_mem_preorders hp)
    cases hdocument.located hp with
    | @symbol x y op level' stop f hv hmem =>
      exact absurd ⟨level', _, _, hmem, rfl, rfl⟩ hno
    | @spelled x u y _ hv hf =>
      obtain ⟨f, hread, hshift⟩ := hf.exists_document hd
      rw [Nat.zero_add] at hf hshift
      refine ⟨u, f, ?_, (hasNotation_standard _).read_of_document hread, ?_⟩
      · apply Span.slice?_of_append hv
        · rw [hf.span_eq]
        · rw [hf.span_eq]
      · rw [hf.span_eq]
        exact hshift
  · intro hop
    obtain ⟨x, y, op, hv, hn⟩ := hdocument.eq_symbol hop
    refine ⟨op, _, hn, Span.slice?_of_append hv rfl rfl, ?_⟩
    cases op <;> rfl

/-- A quoted atom inside a list, with a comment behind it. -/
theorem read_slice_of_node_quote :
    (standard ⟨true, some 2⟩).read ['(', '\x27', 'a', ';', '\n', ')'] =
        some (.ok [.list [quoted .quote 1 (.atom ['a'] ⟨2, 3⟩) 3] ⟨0, 6⟩]) ∧
    ∀ p ∈ Form.preorders 0 [.list [quoted .quote 1 (.atom ['a'] ⟨2, 3⟩) 3] ⟨0, 6⟩],
      (¬ Form.IsOperator [.list [quoted .quote 1 (.atom ['a'] ⟨2, 3⟩) 3] ⟨0, 6⟩] p.2 →
        ∃ t f, p.2.span.slice? ['(', '\x27', 'a', ';', '\n', ')'] = some t ∧
          (standard ⟨false, some 2⟩).read t = some (.ok [f]) ∧
          f.shift p.2.span.start = p.2) ∧
      (Form.IsOperator [.list [quoted .quote 1 (.atom ['a'] ⟨2, 3⟩) 3] ⟨0, 6⟩] p.2 →
        ∃ op span, p.2 = .atom (QuoteOperator.name op).toList span ∧
          span.slice? ['(', '\x27', 'a', ';', '\n', ')'] = some op.sign ∧
          QuoteOperator.ofText? op.sign = some op) :=
  ⟨rfl, read_slice_of_node ⟨true, some 2⟩ ['(', '\x27', 'a', ';', '\n', ')'] _ rfl⟩

end Grammar

end LispReader
