import LispReader.Form.Writer
import LispReader.Proofs.Run.Reading

/-!
# Reading what was written

The writer and the reader have their own tables of escapes and reserved characters.
Written forms spell forms with the same content at the offsets where they were
written, so reading them gives the content back. The spans of the forms that are
written have no influence. An atom without characters is written as nothing, so
atoms have to be filled.
-/

namespace LispReader

open Alphabet Notation

namespace Notation

/-! ## Tokens -/

theorem constituents_atomChar (x : Text) :
    Constituents isReserved (x.flatMap Datum.atomChar) x :=
  constituents_escapeReserved (by decide) x

theorem literal_stringChar (x : Text) : Literal (x.flatMap Datum.stringChar) x := by
  induction x with
  | nil => exact .nil
  | cons c x ih =>
    rw [List.flatMap_cons, Datum.stringChar]
    cases hc : letter? c with
    | some letter => exact .escaped (escaped?_eq_some_iff.mpr hc) ih
    | none =>
      apply Literal.plain ?_ ?_ ih
      · rintro rfl
        exact absurd hc (by decide)
      · rintro rfl
        exact absurd hc (by decide)

/-- A form in front of a blank character and further forms. -/
theorem SpellsAll.cons_blank {pos : Nat} {c : Char} {v v' w : Text} {f : Form} {fs : List Form}
    (hc : Text.isBlank c = true) (hf : Spells pos v f (c :: (v' ++ w)))
    (hfs : SpellsAll (pos + Text.width v + Text.width [c]) v' fs w) :
    SpellsAll pos (v ++ c :: v') (f :: fs) w := by
  have hrest : SpellsAll (pos + Text.width v) ([c] ++ v') ([] ++ fs) w :=
    SpellsAll.append (.nil (.blank hc .nil)) hfs
  exact .cons (k := []) .nil hf hrest

end Notation

namespace Form

/-! ## Forms -/

/-- A form has the content of another, and is found in a text where its spans say. -/
structure ReadsBack (t : Text) (level : Nat) (f g : Form) : Prop where
  datum : g.datum = f.datum
  depth : g.depth = f.depth
  slice : ∀ p ∈ g.preorder level, p.2.span.slice? t = some p.2.render

/-- Several forms have the contents of others, and are found where their spans say. -/
structure ReadsBackAll (t : Text) (level : Nat) (fs gs : List Form) : Prop where
  data : data gs = data fs
  depths : depths gs = depths fs
  slice : ∀ p ∈ preorders level gs, p.2.span.slice? t = some p.2.render

variable {t : Text} {level : Nat} {f g : Form} {fs gs : List Form}

theorem ReadsBackAll.nil : ReadsBackAll t level [] [] where
  data := rfl
  depths := rfl
  slice := nofun

theorem ReadsBackAll.cons (h : ReadsBack t level f g) (hs : ReadsBackAll t level fs gs) :
    ReadsBackAll t level (f :: fs) (g :: gs) where
  data := by rw [Form.data, Form.data, h.datum, hs.data]
  depths := by rw [Form.depths, Form.depths, h.depth, hs.depths]
  slice := by
    intro p hp
    rcases List.mem_append.mp hp with hp | hp
    · exact h.slice p hp
    · exact hs.slice p hp

/-- No atom without characters is among the forms, and the forms inside them. -/
def Filled (nodes : List (Nat × Form)) : Prop := ∀ p ∈ nodes, ∀ s, p.2 ≠ .atom [] s

/-- What spells a form as it is written is found where the span of the form says. -/
theorem slice?_of_spells_render {a w : Text} (h : Spells (Text.width a) g.render g w) :
    g.span.slice? (a ++ (g.render ++ w)) = some g.render := by
  rw [h.span_eq]
  exact Span.slice?_of_append rfl rfl rfl

theorem render_list (items : List Form) (s : Span) :
    (list items s).render =
      openParen :: (Datum.writeItemsBefore (data items) [] ++ [closeParen]) := by
  rw [render, datum, Datum.render, Datum.writeBefore, ← Datum.writeItemsBefore_append]
  rfl

theorem writeItemsBefore_cons_cons (f g : Form) (fs : List Form) :
    Datum.writeItemsBefore (data (f :: g :: fs)) [] =
      f.render ++ ' ' :: Datum.writeItemsBefore (data (g :: fs)) [] := by
  rw [data, data, Datum.writeItemsBefore, Datum.writeBefore_eq]
  rfl

mutual
/-- A written form spells a form with the same content where it was written. -/
theorem exists_spells_render (f : Form) (level : Nat) (hf : Filled (f.preorder level))
    (a w : Text) (hw : ¬ StartsConstituent isReserved w) :
    ∃ g, ReadsBack (a ++ (f.render ++ w)) level f g ∧ Spells (Text.width a) f.render g w := by
  match f with
  | .atom x s =>
    have hx : x ≠ [] := by
      rintro rfl
      exact hf _ List.mem_cons_self s rfl
    have hrender : (Form.atom x s).render = x.flatMap Datum.atomChar := List.append_nil _
    have hv : x.flatMap Datum.atomChar ≠ [] := by
      intro hv
      have hc := constituents_atomChar x
      rw [hv] at hc
      cases hc with
      | nil => exact hx rfl
    obtain ⟨span, hspells⟩ :
        ∃ span, Spells (Text.width a) (Form.atom x s).render (.atom x span) w := by
      rw [hrender]
      exact ⟨_, .atom (constituents_atomChar x) hv hw⟩
    refine ⟨.atom x span, ⟨rfl, rfl, ?_⟩, hspells⟩
    intro p hp
    obtain rfl := List.mem_singleton.mp hp
    exact slice?_of_spells_render hspells
  | .string x s =>
    obtain ⟨span, hspells⟩ :
        ∃ span, Spells (Text.width a) (Form.string x s).render (.string x span) w :=
      ⟨_, .string (literal_stringChar x)⟩
    refine ⟨.string x span, ⟨rfl, rfl, ?_⟩, hspells⟩
    intro p hp
    obtain rfl := List.mem_singleton.mp hp
    exact slice?_of_spells_render hspells
  | .list items s =>
    have hitems : Filled (preorders (level + 1) items) := fun p hp =>
      hf p (List.mem_cons_of_mem _ hp)
    obtain ⟨gs, hgs, hspells⟩ := exists_spellsAll_items items (level + 1) hitems
      (a ++ [openParen]) (closeParen :: w)
      (not_startsConstituent_of_reserved (by decide) (by decide) w)
    have htext : a ++ ((Form.list items s).render ++ w) = a ++ [openParen] ++
        (Datum.writeItemsBefore (data items) [] ++ closeParen :: w) := by
      rw [render_list]
      simp
    rw [Text.width_append] at hspells
    obtain ⟨span, hlist⟩ :
        ∃ span, Spells (Text.width a) (Form.list items s).render (.list gs span) w := by
      rw [render_list]
      exact ⟨_, .list hspells⟩
    have hdatum : (Form.list gs span).datum = (Form.list items s).datum := by
      rw [datum, datum, hgs.data]
    have hrender : (Form.list items s).render = (Form.list gs span).render := by
      rw [render, render, hdatum]
    refine ⟨.list gs span, ⟨hdatum, ?_, ?_⟩, hlist⟩
    · rw [depth, depth, hgs.depths]
    · intro p hp
      rcases List.mem_cons.mp hp with rfl | hp
      · rw [hrender] at hlist ⊢
        exact slice?_of_spells_render hlist
      · rw [htext]
        exact hgs.slice p hp

/-- The written items of a list spell forms with the same contents. -/
theorem exists_spellsAll_items (fs : List Form) (level : Nat) (hfs : Filled (preorders level fs))
    (a w : Text) (hw : ¬ StartsConstituent isReserved w) :
    ∃ gs, ReadsBackAll (a ++ (Datum.writeItemsBefore (data fs) [] ++ w)) level fs gs ∧
      SpellsAll (Text.width a) (Datum.writeItemsBefore (data fs) []) gs w := by
  match fs with
  | [] => exact ⟨[], .nil, .nil .nil⟩
  | [f] =>
    have hf : Filled (f.preorder level) := fun p hp => hfs p (List.mem_append_left _ hp)
    obtain ⟨g, hg, hspells⟩ := exists_spells_render f level hf a w hw
    exact ⟨[g], .cons hg .nil, hspells.spellsAll⟩
  | f :: f' :: fs =>
    have hf : Filled (f.preorder level) := fun p hp => hfs p (List.mem_append_left _ hp)
    have hfs' : Filled (preorders level (f' :: fs)) := fun p hp =>
      hfs p (List.mem_append_right _ hp)
    rw [writeItemsBefore_cons_cons]
    obtain ⟨gs, hgs, hspells⟩ := exists_spellsAll_items (f' :: fs) level hfs'
      (a ++ f.render ++ [' ']) w hw
    obtain ⟨g, hg, hspells'⟩ := exists_spells_render f level hf a
      (' ' :: (Datum.writeItemsBefore (data (f' :: fs)) [] ++ w))
      (not_startsConstituent_of_reserved (by decide) (by decide) _)
    rw [Text.width_append, Text.width_append] at hspells
    refine ⟨g :: gs, .cons ?_ ?_, .cons_blank (by decide) hspells' hspells⟩
    · rwa [List.append_assoc]
    · simpa using hgs
end

/-! ## Lines -/

/-- Written forms, one to a line. -/
def lines (fs : List Form) : Text := fs.flatMap fun f => f.render ++ ['\n']

theorem lines_cons (f : Form) (fs : List Form) :
    lines (f :: fs) = f.render ++ '\n' :: lines fs := by
  simp [lines]

/-- Written lines spell forms with the same contents, in front of any text. -/
theorem exists_spellsAll_lines_append (fs : List Form) (hfs : Filled (preorders 0 fs))
    (a w : Text) :
    ∃ gs, ReadsBackAll (a ++ (lines fs ++ w)) 0 fs gs ∧
      SpellsAll (Text.width a) (lines fs) gs w := by
  induction fs generalizing a with
  | nil => exact ⟨[], .nil, .nil .nil⟩
  | cons f fs ih =>
    have hf : Filled (f.preorder 0) := fun p hp => hfs p (List.mem_append_left _ hp)
    have hfs' : Filled (preorders 0 fs) := fun p hp => hfs p (List.mem_append_right _ hp)
    obtain ⟨gs, hgs, hspells⟩ := ih hfs' (a ++ f.render ++ ['\n'])
    obtain ⟨g, hg, hspells'⟩ := exists_spells_render f 0 hf a ('\n' :: (lines fs ++ w))
      (not_startsConstituent_of_reserved (by decide) (by decide) _)
    rw [Text.width_append, Text.width_append] at hspells
    rw [lines_cons, List.append_assoc, List.cons_append]
    refine ⟨g :: gs, .cons hg ?_, .cons_blank (by decide) hspells' hspells⟩
    simpa using hgs

/-- Written lines spell forms with the same contents up to the end of the source. -/
theorem exists_spellsAll_lines (fs : List Form) (hfs : Filled (preorders 0 fs)) (a : Text) :
    ∃ gs, ReadsBackAll (a ++ lines fs) 0 fs gs ∧
      SpellsAll (Text.width a) (lines fs) gs [] := by
  simpa using exists_spellsAll_lines_append fs hfs a []

theorem flatten_pieces (fs : List Form) : (fs.flatMap (pieces false)).flatten = lines fs := by
  induction fs with
  | nil => rfl
  | cons f fs ih =>
    rw [List.flatMap_cons, List.flatten_append, ih, lines, lines, List.flatMap_cons]
    simp [pieces]

/-- Whether the first of several forms is written like the beginning of an interpreter line. -/
def startsLikeShebang : List Form → Bool
  | [] => false
  | f :: _ => shebang.isPrefixOf f.render

/-- Forms are written one to a line, behind a space if the first line would name an
interpreter without it. -/
theorem writeAll_eq (fs : List Form) :
    writeAll fs = if startsLikeShebang fs then ' ' :: lines fs else lines fs := by
  cases fs with
  | nil => rfl
  | cons f fs =>
    rw [writeAll, allPieces, List.flatten_append, flatten_pieces, pieces, Bool.true_and,
      lines_cons, startsLikeShebang]
    split <;> simp

/-- What stands in front of the first line can stand in front of any text. -/
theorem exists_margin (fs : List Form) :
    ∃ k, writeAll fs = k ++ lines fs ∧ ∀ w, Trivia k w := by
  rw [writeAll_eq]
  split
  · exact ⟨[' '], rfl, fun w => .blank (by decide) .nil⟩
  · exact ⟨[], rfl, fun w => .nil⟩

theorem not_shebang_prefix_writeAll (fs : List Form) : ¬ shebang <+: writeAll fs := by
  rw [writeAll_eq]
  cases fs with
  | nil => exact fun h => absurd (List.prefix_nil.mp h) (by decide)
  | cons f fs =>
    split
    next => exact fun hp => absurd (List.cons_prefix_cons.mp hp).1 (by decide)
    next h =>
      rw [lines_cons]
      exact fun hp => h (List.isPrefixOf_iff_prefix.mpr (shebang_prefix_line hp))

/-- Written forms are lines behind trivia, and none of them names an interpreter. -/
theorem exists_writeAll_eq (fs : List Form) :
    ∃ k, writeAll fs = k ++ lines fs ∧ Trivia k (lines fs) ∧ ¬ shebang <+: writeAll fs := by
  obtain ⟨k, hwrite, hk⟩ := exists_margin fs
  exact ⟨k, hwrite, hk _, not_shebang_prefix_writeAll fs⟩

/-! ## Sources -/

/-- Reading what was written gives back as many forms with the same contents in the same
order, and each of them, at any depth, is found in the written text as its span says. -/
theorem read_writeAll (settings : Settings) (fs : List Form)
    (hfilled : ∀ p ∈ preorders 0 fs, ∀ s, p.2 ≠ .atom [] s)
    (hdepth : settings.depth.Admits (depths fs)) :
    ∃ gs, (Grammar.standard settings).read (writeAll fs) = some (.ok gs) ∧
      gs.length = fs.length ∧ sameContents fs gs = true ∧
      ∀ p ∈ preorders 0 gs, p.2.span.slice? (writeAll fs) = some p.2.render := by
  obtain ⟨k, hwrite, hk, hline⟩ := exists_writeAll_eq fs
  obtain ⟨gs, hgs, hspells⟩ := exists_spellsAll_lines fs hfilled k
  have hall : SpellsAll 0 (k ++ lines fs) ([] ++ gs) [] := by
    apply SpellsAll.append
    · rw [List.append_nil]
      exact .nil hk
    · rwa [Nat.zero_add]
  rw [← hwrite] at hall hgs
  have hdocument : Document settings (writeAll fs) gs := by
    refine ⟨[], writeAll fs, rfl, .absent fun _ => hline, hall, ?_⟩
    rwa [hgs.depths]
  refine ⟨gs, (Grammar.hasNotation_standard settings).read_of_document hdocument, ?_, ?_,
    hgs.slice⟩
  · have hlen := congrArg List.length hgs.data
    rwa [data_eq_map, data_eq_map, List.length_map, List.length_map] at hlen
  · exact (sameContents_iff fs gs).mpr hgs.data.symm

/-- A first atom that begins like an interpreter line, and as many lists as are allowed. -/
theorem read_writeAll_interpreter_atom :
    ∃ gs, (Grammar.standard ⟨true, some 1⟩).read
        (writeAll [.atom ['#', '!'] ⟨0, 0⟩, .list [.string ['\n'] ⟨7, 3⟩] ⟨0, 0⟩]) =
          some (.ok gs) ∧
      gs.length = 2 ∧
      sameContents [.atom ['#', '!'] ⟨0, 0⟩, .list [.string ['\n'] ⟨7, 3⟩] ⟨0, 0⟩] gs = true ∧
      ∀ p ∈ preorders 0 gs, p.2.span.slice?
        (writeAll [.atom ['#', '!'] ⟨0, 0⟩, .list [.string ['\n'] ⟨7, 3⟩] ⟨0, 0⟩]) =
          some p.2.render :=
  read_writeAll ⟨true, some 1⟩ _ (by simp [preorders, preorder])
    (by simp [Depth.Admits, depths, depth])

end Form

end LispReader
