import LispReader.Form.Outline
import LispReader.Proofs.LinesAndColumns
import LispReader.Proofs.SelfDelimiting

/-!
# Outlines lose nothing

An outline is read from the top. Its first line has one indentation and one headline, whatever
the content holds, for the content is quoted and a quoted text has no line feed in it. A headline
tells an atom or a string completely, and of a list it tells the span and how many items there
are. The lines below are those of so many items, one level further in, and then of the forms
behind the list. Nothing has to be read off the source for this: the text at a span only repeats
what the span tells.
-/

namespace LispReader

namespace Form

open Text (IsFullLine SelfDelimiting)

variable {source : Source} {f g : Form} {fs gs : List Form} {level : Nat} {t u : Text}

/-! ## Headlines -/

/-- The same form, but for the items of a list, of which there are equally many. -/
inductive SameHead : Form → Form → Prop where
  | atom (content : Text) (s : Span) : SameHead (.atom content s) (.atom content s)
  | string (content : Text) (s : Span) : SameHead (.string content s) (.string content s)
  | list {items others : List Form} (s : Span) (h : items.length = others.length) :
      SameHead (.list items s) (.list others s)

theorem headline_list (source : Source) (items : List Form) (s : Span) :
    headline source (.list items s) =
      "list ".toList ++ (s.render.toList ++
        ' ' :: '(' :: (Nat.toDigits 10 items.length ++ " items)".toList)) := by
  have hline : headline source (.list items s) =
      ("list " ++ s.render ++ " (" ++ toString items.length ++ " items)").toList := rfl
  rw [hline]
  simp [String.toList_append]

theorem leaf_append_inj {kind : String} {a b : Text} {s s' : Span}
    (h : headline.leaf source kind a s ++ t = headline.leaf source kind b s' ++ u) :
    a = b ∧ s = s' ∧ t = u := by
  simp only [headline.leaf, List.append_assoc, List.cons_append] at h
  obtain ⟨rfl, hcontent⟩ := Text.selfDelimiting_render_span (List.append_cancel_left h)
  obtain ⟨rfl, hslice⟩ := Text.selfDelimiting_quoted (List.cons.inj hcontent).2
  obtain ⟨-, hrest⟩ := Text.selfDelimiting_quoted (List.cons.inj hslice).2
  exact ⟨rfl, rfl, hrest⟩

/-- The letter that the headline of a form begins with. It tells the kind of the form. -/
def initial : Form → Char
  | .atom _ _ => 'a'
  | .string _ _ => 's'
  | .list _ _ => 'l'

theorem exists_headline_eq (source : Source) (f : Form) :
    ∃ v, headline source f = f.initial :: v := by
  cases f with
  | atom content s => exact ⟨_, rfl⟩
  | string content s => exact ⟨_, rfl⟩
  | list items s => exact ⟨_, headline_list source items s⟩

theorem initial_ne_space (f : Form) : f.initial ≠ ' ' := by
  cases f with
  | atom content s => simp [initial]
  | string content s => simp [initial]
  | list items s => simp [initial]

theorem initial_eq_of_headline_append (h : headline source f ++ t = headline source g ++ u) :
    f.initial = g.initial := by
  obtain ⟨v, hf⟩ := exists_headline_eq source f
  obtain ⟨w, hg⟩ := exists_headline_eq source g
  rw [hf, hg] at h
  exact (List.cons.inj h).1

/-- A headline tells where it ends, and everything about the form except for its items. -/
theorem headline_append_inj (h : headline source f ++ t = headline source g ++ u) :
    SameHead f g ∧ t = u := by
  have hkind := initial_eq_of_headline_append h
  cases f with
  | atom a s =>
    cases g with
    | atom b s' =>
      obtain ⟨rfl, rfl, hrest⟩ := leaf_append_inj h
      exact ⟨.atom a s, hrest⟩
    | string b s' => exact absurd hkind (by simp [initial])
    | list others s' => exact absurd hkind (by simp [initial])
  | string a s =>
    cases g with
    | atom b s' => exact absurd hkind (by simp [initial])
    | string b s' =>
      obtain ⟨rfl, rfl, hrest⟩ := leaf_append_inj h
      exact ⟨.string a s, hrest⟩
    | list others s' => exact absurd hkind (by simp [initial])
  | list items s =>
    cases g with
    | atom b s' => exact absurd hkind (by simp [initial])
    | string b s' => exact absurd hkind (by simp [initial])
    | list others s' =>
      simp only [headline_list, List.append_assoc, List.cons_append] at h
      obtain ⟨rfl, hcount⟩ := Text.selfDelimiting_render_span (List.append_cancel_left h)
      have hdigits := (List.cons.inj (List.cons.inj hcount).2).2
      obtain ⟨hlength, hrest⟩ : items.length = others.length ∧
          "items)".toList ++ t = "items)".toList ++ u :=
        Text.toDigits_append_inj (by decide) (by decide) (by decide) hdigits
      exact ⟨.list s hlength, List.append_cancel_left hrest⟩

theorem newline_notMem_leaf {kind : String} (hkind : '\n' ∉ kind.toList) (content : Text)
    (s : Span) : '\n' ∉ headline.leaf source kind content s := by
  simp [headline.leaf, hkind, Text.newline_notMem_render_span, Text.newline_notMem_quoted]

theorem newline_notMem_headline (source : Source) (f : Form) : '\n' ∉ headline source f := by
  cases f with
  | atom content s => exact newline_notMem_leaf (by decide) content s
  | string content s => exact newline_notMem_leaf (by decide) content s
  | list items s =>
    rw [headline_list]
    simp [Text.newline_notMem_toDigits, Text.newline_notMem_render_span]

/-! ## Lines -/

theorem outlineLine_append_inj
    (h : outlineLine source level f ++ t = outlineLine source level g ++ u) :
    SameHead f g ∧ t = u := by
  simp only [outlineLine, List.append_assoc] at h
  obtain ⟨hhead, hrest⟩ := headline_append_inj (List.append_cancel_left h)
  exact ⟨hhead, (List.cons.inj hrest).2⟩

theorem isFullLine_outlineLine (source : Source) (level : Nat) (f : Form) :
    IsFullLine (outlineLine source level f) := by
  refine ⟨List.replicate (2 * level) ' ' ++ headline source f, ?_, rfl⟩
  simp [newline_notMem_headline]

/-- A line is indented by two spaces for each level, and by no more. -/
theorem exists_outlineLine_eq (source : Source) (level : Nat) (f : Form) :
    ∃ c v, c ≠ ' ' ∧ outlineLine source level f = List.replicate (2 * level) ' ' ++ c :: v := by
  obtain ⟨v, hv⟩ := exists_headline_eq source f
  refine ⟨f.initial, v ++ ['\n'], f.initial_ne_space, ?_⟩
  rw [outlineLine, hv, List.append_assoc, List.cons_append]

/-! ## Forests -/

/-- The lines for forms at their levels, one below the other. -/
def shown (source : Source) (ps : List (Nat × Form)) : Text :=
  ps.flatMap fun p => outlineLine source p.1 p.2

theorem outline_eq_shown (f : Form) : f.outline source = shown source (f.preorder 0) := rfl

theorem outlines_eq_shown (fs : List Form) :
    outlines fs source = shown source (preorders 0 fs) := by
  rw [shown, preorders_eq_flatMap, List.flatMap_assoc]
  rfl

@[simp] theorem shown_cons (p : Nat × Form) (ps : List (Nat × Form)) :
    shown source (p :: ps) = outlineLine source p.1 p.2 ++ shown source ps :=
  List.flatMap_cons

@[simp] theorem shown_append (ps qs : List (Nat × Form)) :
    shown source (ps ++ qs) = shown source ps ++ shown source qs :=
  List.flatMap_append

theorem lines_shown (ps : List (Nat × Form)) :
    Text.lines (shown source ps) = (ps.map fun p => outlineLine source p.1 p.2) ++ [[]] := by
  have hfull : ∀ line ∈ ps.map fun p => outlineLine source p.1 p.2, IsFullLine line := by
    intro line hline
    obtain ⟨p, -, rfl⟩ := List.mem_map.mp hline
    exact isFullLine_outlineLine source p.1 p.2
  have hlines := Text.lines_full_append hfull []
  rwa [List.append_nil, ← List.flatMap_def] at hlines

/-- The first line of what is shown for a form is the line of the form itself. -/
theorem exists_preorder_eq (level : Nat) (f : Form) :
    ∃ ps, f.preorder level = (level, f) :: ps := by
  cases f with
  | atom content s => exact ⟨_, rfl⟩
  | string content s => exact ⟨_, rfl⟩
  | list items s => exact ⟨_, rfl⟩

mutual
/-- What is shown for a form tells the form, and where its last line ends. -/
theorem shown_preorder_append_inj (f g : Form) {level : Nat} {t u : Text}
    (h : shown source (f.preorder level) ++ t = shown source (g.preorder level) ++ u) :
    f = g ∧ t = u := by
  have hfirst : SameHead f g := by
    obtain ⟨ps, hf⟩ := exists_preorder_eq level f
    obtain ⟨qs, hg⟩ := exists_preorder_eq level g
    rw [hf, hg, shown_cons, shown_cons, List.append_assoc, List.append_assoc] at h
    exact (outlineLine_append_inj h).1
  -- The first line leaves open only which items a list has, and it says how many they are.
  match f, g, hfirst with
  | _, _, .atom content s => exact ⟨rfl, List.append_cancel_left h⟩
  | _, _, .string content s => exact ⟨rfl, List.append_cancel_left h⟩
  | .list items _, .list others _, .list s hlength =>
    rw [preorder, preorder, shown_cons, shown_cons, List.append_assoc, List.append_assoc] at h
    obtain ⟨rfl, hrest⟩ := shown_preorders_append_inj items others hlength
      (outlineLine_append_inj h).2
    exact ⟨rfl, hrest⟩

/-- What is shown for forms tells the forms when it is known how many they are. -/
theorem shown_preorders_append_inj (fs gs : List Form) {level : Nat} {t u : Text}
    (hlength : fs.length = gs.length)
    (h : shown source (preorders level fs) ++ t = shown source (preorders level gs) ++ u) :
    fs = gs ∧ t = u := by
  match fs, gs with
  | [], [] => exact ⟨rfl, h⟩
  | f :: fs, g :: gs =>
    rw [preorders, preorders, shown_append, shown_append, List.append_assoc,
      List.append_assoc] at h
    obtain ⟨rfl, hbehind⟩ := shown_preorder_append_inj f g h
    obtain ⟨rfl, hrest⟩ := shown_preorders_append_inj fs gs (Nat.succ.inj hlength) hbehind
    exact ⟨rfl, hrest⟩
end

theorem selfDelimiting_outline (source : Source) :
    SelfDelimiting fun f : Form => f.outline source := by
  intro f g t u h
  exact shown_preorder_append_inj f g h

/-- No outline begins with a space, so that a space behind outlines ends them. -/
theorem exists_outline_eq (source : Source) (f : Form) :
    ∃ c v, f.outline source = c :: v ∧ c ≠ ' ' := by
  obtain ⟨ps, hf⟩ := exists_preorder_eq 0 f
  obtain ⟨c, v, hc, hline⟩ := exists_outlineLine_eq source 0 f
  refine ⟨c, v ++ shown source ps, ?_, hc⟩
  rw [outline_eq_shown, hf, shown_cons, hline]
  rfl

theorem outlines_inj : outlines fs source = outlines gs source ↔ fs = gs := by
  constructor
  · intro h
    have hended : outlines fs source ++ [' '] = outlines gs source ++ [' '] :=
      congrArg (· ++ [' ']) h
    exact ((selfDelimiting_outline source).flatMap_inj (exists_outline_eq source) hended).1
  · intro h
    rw [h]

/-- The outlines of forms over a source tell the forms with all their spans, whatever the source
is and whatever the contents hold. They have one line for each form, forms inside of lists
included and in the order of their beginnings, and behind the line feed of the last line nothing
is left. Each line is indented by two spaces for every list around its form and by no more, and
the outlines of several forms are the outlines of the single forms in a row. -/
theorem outlines_lossless (source : Source) :
    (∀ fs gs : List Form, outlines fs source = outlines gs source ↔ fs = gs) ∧
    (∀ fs : List Form, Text.lines (outlines fs source) =
      ((preorders 0 fs).map fun p => outlineLine source p.1 p.2) ++ [[]]) ∧
    (∀ (level : Nat) (f : Form), ∃ c v, c ≠ ' ' ∧
      outlineLine source level f = List.replicate (2 * level) ' ' ++ c :: v) ∧
    ∀ fs : List Form, outlines fs source = (fs.map fun f => f.outline source).flatten := by
  refine ⟨?_, ?_, ?_, ?_⟩
  · intro fs gs
    exact outlines_inj
  · intro fs
    rw [outlines_eq_shown, lines_shown]
  · intro level f
    exact exists_outlineLine_eq source level f
  · intro fs
    rw [outlines, List.flatMap_def]

-- The text at the last span does not exist, and a line feed in a content makes no line.
example : Text.lines ((Form.list [.atom ['a'] ⟨1, 2⟩, .string ['b', '\n'] ⟨3, 9⟩] ⟨0, 7⟩).outline
      (Source.ofText ['(', 'a', ' ', 'b', ')'])) =
    ["list [0, 7) (2 items)\n".toList, "  atom [1, 2) \"a\" \"a\"\n".toList,
      "  string [3, 9) \"b\\n\" \"?\"\n".toList, []] := by decide

end Form

end LispReader
