import LispReader.Form.Outline
import LispReader.Proofs.Notation.Node
import LispReader.Proofs.Recognition
import LispReader.Proofs.ViablePrefix

/-!
# Unterminated strings

A source is said to have an unterminated string exactly if it ends inside of one: it is
the beginning of an accepted source, and in whatever way it goes on to be accepted, its
end lies behind the opening mark of a string and not behind the closing one. One such
way is enough to tell. What looks like a string inside of a comment, an interpreter line
or an atom does not count, because the forms of the accepted source decide.
-/

namespace LispReader

open Alphabet Notation

/-- An offset lies inside of one of the strings among the nodes, behind its opening mark
and in front of the end of its closing mark. -/
def Form.InsideString (nodes : List (Nat × Form)) (o : Nat) : Prop :=
  ∃ level x span, (level, Form.string x span) ∈ nodes ∧ span.start < o ∧ o < span.stop

namespace Form

variable {nodes nodes' : List (Nat × Form)} {level o : Nat} {fs gs : List Form}

theorem insideString_append :
    InsideString (nodes ++ nodes') o ↔ InsideString nodes o ∨ InsideString nodes' o := by
  simp only [InsideString, List.mem_append, or_and_right, exists_or]

theorem insideString_list {span : Span} :
    InsideString ((list fs span).preorder level) o ↔ InsideString (preorders (level + 1) fs) o := by
  simp only [InsideString, preorder, List.mem_cons, Prod.mk.injEq, reduceCtorEq, and_false,
    false_or]

theorem insideString_of_mem {f : Form} (hf : f ∈ fs) (h : InsideString (f.preorder level) o) :
    InsideString (preorders level fs) o := by
  obtain ⟨inner, x, span, hmem, hspan⟩ := h
  rw [preorders_eq_flatMap]
  exact ⟨inner, x, span, List.mem_flatMap.mpr ⟨f, hf, hmem⟩, hspan⟩

end Form

namespace Notation

variable {d : Depth} {pos level o stop : Nat} {a b t u v w x : Text} {f : Form} {fs : List Form}

theorem insideString_quoted {op : QuoteOperator} :
    Form.InsideString ((quoted op pos f stop).preorder level) o ↔
      Form.InsideString (f.preorder (level + 1)) o := by
  rw [quoted, Form.insideString_list]
  simp only [Form.preorders, symbol, Form.preorder, Form.InsideString, List.singleton_append,
    List.append_nil, List.mem_cons, Prod.mk.injEq, reduceCtorEq, and_false, false_or]

/-- An offset inside of a string is inside of the form that the string belongs to. -/
theorem Spells.bounds_of_insideString (h : Spells pos v f w)
    (ho : Form.InsideString (f.preorder level) o) : pos < o ∧ o < pos + Text.width v := by
  obtain ⟨_, x, span, hmem, hstart, hstop⟩ := ho
  have hbounds := (h.located level hmem).bounds
  rw [Form.span] at hbounds
  omega

theorem SpellsAll.bounds_of_insideString (h : SpellsAll pos v fs w)
    (ho : Form.InsideString (Form.preorders level fs) o) : pos < o ∧ o < pos + Text.width v := by
  obtain ⟨_, x, span, hmem, hstart, hstop⟩ := ho
  have hbounds := (h.located level hmem).bounds
  rw [Form.span] at hbounds
  omega

/-! ## Beginnings of string literals -/

/-- A literal that is cut off is unclosed. -/
theorem Literal.unclosed (h : Literal v x) (hv : v = a ++ b) : Unclosed a := by
  induction h generalizing a with
  | nil =>
    obtain ⟨rfl, -⟩ := List.append_eq_nil_iff.mp hv.symm
    exact .plain .nil
  | @plain c v x hq he _ ih =>
    cases a with
    | nil => exact .plain .nil
    | cons c' a =>
      obtain ⟨rfl, hrest⟩ := List.cons.inj hv
      exact (ih hrest).cons_plain hq he
  | @escaped e c v x he _ ih =>
    match a with
    | [] => exact .plain .nil
    | [c'] =>
      obtain ⟨rfl, -⟩ := List.cons.inj hv
      exact .escaping .nil
    | c' :: e' :: a =>
      obtain ⟨rfl, hback⟩ := List.cons.inj hv
      obtain ⟨rfl, hrest⟩ := List.cons.inj hback
      exact (ih hrest).cons_escaped he

/-- A literal that goes on from another one is closed behind it. -/
theorem Literal.exists_append (h : Literal a x) {y : Text} (hv : Literal v y)
    (ht : a ++ t = v ++ quotation :: w) : ∃ b, v = a ++ b := by
  induction h generalizing v y with
  | nil => exact ⟨v, rfl⟩
  | @plain c a x hq he _ ih =>
    cases hv with
    | nil => exact absurd (List.cons.inj ht).1 hq
    | plain _ _ hv =>
      obtain ⟨rfl, hrest⟩ := List.cons.inj ht
      obtain ⟨b, rfl⟩ := ih hv hrest
      exact ⟨b, rfl⟩
    | escaped _ _ => exact absurd (List.cons.inj ht).1 he
  | @escaped e c a x he _ ih =>
    cases hv with
    | nil => exact absurd (List.cons.inj ht).1 (by decide)
    | plain _ hescape _ => exact absurd (List.cons.inj ht).1.symm hescape
    | escaped _ hv =>
      obtain ⟨-, hback⟩ := List.cons.inj ht
      obtain ⟨rfl, hrest⟩ := List.cons.inj hback
      obtain ⟨b, rfl⟩ := ih hv hrest
      exact ⟨b, rfl⟩

theorem Unclosed.exists_append (h : Unclosed a) {y : Text} (hv : Literal v y)
    (ht : a ++ t = v ++ quotation :: w) : ∃ b, v = a ++ b := by
  cases h with
  | plain h => exact h.exists_append hv ht
  | @escaping a x h =>
    rw [List.append_assoc] at ht
    obtain ⟨b, rfl⟩ := h.exists_append hv ht
    rw [List.append_assoc] at ht
    cases b with
    | nil => exact absurd (List.cons.inj (List.append_cancel_left ht)).1 (by decide)
    | cons c b =>
      obtain ⟨rfl, -⟩ := List.cons.inj (List.append_cancel_left ht)
      exact ⟨b, by simp⟩

/-! ## Cutting a text inside of a string -/

theorem StartsConstituent.append (h : StartsConstituent isReserved t) (u : Text) :
    StartsConstituent isReserved (t ++ u) := by
  cases h with
  | plain hc hr => exact .plain hc hr
  | escaped hr => exact .escaped hr

/-- What an interpreter line is in front of can be cut off. -/
theorem InterpreterLine.of_append {allowed : Bool} {line : Text}
    (h : InterpreterLine allowed line (a ++ b)) (ha : a ≠ []) : InterpreterLine allowed line a := by
  generalize hv : a ++ b = v at h
  cases h with
  | line hallowed ht => exact .line hallowed ht
  | lastLine _ _ => exact absurd (List.append_eq_nil_iff.mp hv).1 ha
  | absent hn =>
    refine .absent fun hallowed hp => hn hallowed ?_
    rw [← hv]
    exact hp.trans (List.prefix_append a b)

mutual
/-- A form that is cut off inside of one of its strings is blocked there. -/
theorem Spells.blocked_of_insideString {d : Depth} {pos level : Nat} {a b v w : Text} {f : Form}
    (h : Spells pos v f w) (hv : v = a ++ b)
    (ho : Form.InsideString (f.preorder level) (pos + Text.width a))
    (hd : d.Admits f.depth) : Blocked d pos a .unterminated (pos + Text.width a) := by
  cases h with
  | atom _ _ _ =>
    obtain ⟨_, _, _, hmem, -⟩ := ho
    exact absurd (congrArg Prod.snd (List.mem_singleton.mp hmem)) nofun
  | @string _ v x _ hx =>
    obtain ⟨_, _, span, hmem, hstart, hstop⟩ := ho
    obtain ⟨-, hspan⟩ := Form.string.inj (congrArg Prod.snd (List.mem_singleton.mp hmem))
    rw [hspan] at hstart hstop
    dsimp only at hstart hstop
    -- The cut is behind the opening mark and not behind the closing one.
    have hopen : a ++ b = [quotation] ++ (v ++ [quotation]) := hv.symm
    obtain ⟨a', rfl, ha'⟩ := Text.exists_append_of_width_le hopen (by simp; omega)
    rw [Text.width_append, Text.width_cons, Text.width_nil, utf8Size_quotation] at hstop
    obtain ⟨b', rfl, -⟩ := Text.exists_append_of_width_le ha' (by omega)
    have hwidth : pos + Text.width ([quotation] ++ a') = pos + 1 + Text.width a' := by
      rw [Text.width_append, Text.width_cons, Text.width_nil, utf8Size_quotation]
      omega
    rw [hwidth]
    exact .unterminated (hx.unclosed rfl)
  | @list _ v _ fs hfs =>
    rw [Form.insideString_list] at ho
    obtain ⟨d', hinner, hdepth⟩ := Depth.exists_inner hd
    obtain ⟨hstart, hstop⟩ := hfs.bounds_of_insideString ho
    have hopen : a ++ b = [openParen] ++ (v ++ [closeParen]) := hv.symm
    obtain ⟨a', rfl, ha'⟩ := Text.exists_append_of_width_le hopen (by simp; omega)
    have hwidth : pos + Text.width ([openParen] ++ a') = pos + 1 + Text.width a' := by
      rw [Text.width_append, Text.width_cons, Text.width_nil, utf8Size_openParen]
      omega
    rw [hwidth] at ho hstop ⊢
    obtain ⟨b', hb', -⟩ := Text.exists_append_of_width_le ha' (by omega)
    obtain ⟨v', u, gs, rfl, hgs, hgsdepth, hu⟩ := hfs.blocked_of_insideString hb' ho hdepth
    exact .item (v := v') hinner hgs hgsdepth hu
  | @quote _ op k v _ f hop hk hf =>
    rw [insideString_quoted] at ho
    rw [depth_quoted] at hd
    obtain ⟨d', hinner, hdepth⟩ := Depth.exists_inner hd
    obtain ⟨hstart, hstop⟩ := hf.bounds_of_insideString ho
    rw [← List.append_assoc] at hv
    obtain ⟨a', rfl, ha'⟩ := Text.exists_append_of_width_le hv.symm (by
      rw [Text.width_append]
      omega)
    have hwidth : pos + Text.width (op.sign ++ k ++ a') =
        pos + Text.width op.sign + Text.width k + Text.width a' := by
      rw [Text.width_append, Text.width_append]
      omega
    rw [hwidth] at ho hstart ⊢
    have hne : a' ≠ [] := by
      rintro rfl
      exact absurd hstart (Nat.lt_irrefl _)
    have hhead : op = .unquote → (k ++ a').head? ≠ some '@' := by
      intro hunquote
      rw [← List.append_nil a', Text.head?_append_congr k hne [] b, ← ha']
      exact hop hunquote
    rw [List.append_assoc]
    exact .operand hinner hhead (hf.trivia_follow hk) (hf.blocked_of_insideString ha' ho hdepth)

/-- Forms that are cut off inside of one of their strings are read up to a form that is
blocked there. -/
theorem SpellsAll.blocked_of_insideString {d : Depth} {pos level : Nat} {a b v w : Text}
    {fs : List Form} (h : SpellsAll pos v fs w) (hv : v = a ++ b)
    (ho : Form.InsideString (Form.preorders level fs) (pos + Text.width a))
    (hd : d.Admits (Form.depths fs)) :
    ∃ v' u gs, a = v' ++ u ∧ SpellsAll pos v' gs u ∧ d.Admits (Form.depths gs) ∧
      Blocked d (pos + Text.width v') u .unterminated (pos + Text.width a) := by
  cases h with
  | nil _ =>
    obtain ⟨_, _, _, hmem, -⟩ := ho
    exact absurd hmem List.not_mem_nil
  | @cons _ k v v' _ f fs hk hf hfs =>
    have hadmits := Depth.admits_max.mp hd
    -- The string belongs to the first form, which is blocked then, or to a later one.
    rcases Form.insideString_append.mp ho with ho | ho
    · obtain ⟨hstart, hstop⟩ := hf.bounds_of_insideString ho
      obtain ⟨a', rfl, ha'⟩ := Text.exists_append_of_width_le hv.symm (by omega)
      rw [Text.width_append, ← Nat.add_assoc] at ho hstart hstop ⊢
      obtain ⟨b', hb', -⟩ := Text.exists_append_of_width_le ha' (by omega)
      exact ⟨k, a', [], rfl, .nil (hf.trivia_follow hk), d.admits_zero,
        hf.blocked_of_insideString hb' ho hadmits.1⟩
    · obtain ⟨hstart, hstop⟩ := hfs.bounds_of_insideString ho
      rw [← List.append_assoc] at hv
      obtain ⟨a', rfl, ha'⟩ := Text.exists_append_of_width_le hv.symm (by
        rw [Text.width_append]
        omega)
      rw [Text.width_append, Text.width_append, ← Nat.add_assoc, ← Nat.add_assoc] at ho hstart ⊢
      obtain ⟨x, u, gs, rfl, hgs, hdepth, hu⟩ := hfs.blocked_of_insideString ha' ho hadmits.2
      have hform : Spells (pos + Text.width k) v f (x ++ u) := by
        apply hf.follow
        intro hs
        rw [ha', List.append_assoc]
        exact hs.append (b ++ w)
      refine ⟨k ++ (v ++ x), u, f :: gs, by simp, .cons (hf.trivia_follow hk) hform hgs,
        Depth.admits_max.mpr ⟨hadmits.1, hdepth⟩, ?_⟩
      rw [Text.width_append, Text.width_append, ← Nat.add_assoc, ← Nat.add_assoc]
      exact hu
end

/-- A document that is cut off inside of one of its strings is rejected there. -/
theorem Document.rejected_of_insideString {settings : Settings}
    (h : Document settings (a ++ b) fs)
    (ho : Form.InsideString (Form.preorders 0 fs) (Text.width a)) :
    Rejected settings a .unterminated (Text.width a) := by
  obtain ⟨line, v, hs, hline, hfs, hdepth⟩ := h
  obtain ⟨hstart, hstop⟩ := hfs.bounds_of_insideString ho
  obtain ⟨a', rfl, ha'⟩ := Text.exists_append_of_width_le hs (Nat.le_of_lt hstart)
  rw [Text.width_append] at ho hstart ⊢
  obtain ⟨x, u, gs, rfl, hgs, hadmits, hu⟩ := hfs.blocked_of_insideString ha' ho hdepth
  have hne : x ++ u ≠ [] := List.append_ne_nil_of_right_ne_nil x hu.ne_nil
  rw [ha'] at hline
  exact .blocked rfl (hline.of_append hne) hgs hadmits hu

/-! ## Going on from an unterminated string -/

/-- A string that does not end lies at the end of the text. -/
theorem Blocked.offset_of_unterminated (h : Blocked d pos u .unterminated o) :
    o = pos + Text.width u := by
  generalize hob : Obstacle.unterminated = ob at h
  induction h with
  | unterminated _ => rw [Text.width_cons, utf8Size_quotation, Nat.add_assoc]
  | badEscape _ _ => exact absurd hob nofun
  | tooDeep _ _ _ => exact absurd hob nofun
  | item _ _ _ _ ih =>
    rw [ih hob, Text.width_cons, Text.width_append, utf8Size_openParen]
    omega
  | unclosed _ _ _ _ _ => exact absurd hob nofun
  | operand _ _ _ _ ih =>
    rw [ih hob, Text.width_append, Text.width_append]
    omega
  | noOperand _ _ _ _ => exact absurd hob nofun

theorem Rejected.offset_of_unterminated {settings : Settings} {s : Text}
    (h : Rejected settings s .unterminated o) : o = Text.width s := by
  obtain ⟨x, u, -, rfl, -, hu | ⟨-, -, hob, -⟩⟩ := rejected_iff_front.mp h
  · rw [hu.offset_of_unterminated, Text.width_append]
  · exact absurd hob nofun

/-- However a text goes on from an unterminated string, it is blocked, or begins with a
form that the end of the text in front is inside of a string of. -/
theorem Blocked.blocked_or_insideString (h : Blocked d pos u .unterminated o) (t : Text) :
    (∃ ob o', Blocked d pos (u ++ t) ob o') ∨
    ∃ v f w, u ++ t = v ++ w ∧ Spells pos v f w ∧ d.Admits f.depth ∧
      ∀ level, Form.InsideString (f.preorder level) o := by
  generalize hob : Obstacle.unterminated = ob at h
  induction h with
  | @unterminated d pos v hv =>
    -- Only a mark in what follows can close the literal.
    rcases exists_literal (v ++ t) with ⟨v', x, w, ht, hx⟩ | ⟨v', x, e, w, ht, hx, he⟩ | hu
    · obtain ⟨b, rfl⟩ := hv.exists_append hx ht
      refine Or.inr ⟨_, _, w, by simp [ht], .string hx, d.admits_zero, ?_⟩
      intro level
      refine ⟨level, x, _, List.mem_singleton_self _, ?_, ?_⟩
      · dsimp only
        omega
      · dsimp only
        rw [Text.width_append]
        omega
    · rw [List.cons_append, ht]
      exact Or.inl ⟨_, _, .badEscape hx he⟩
    · exact Or.inl ⟨_, _, .unterminated hu⟩
  | badEscape _ _ => exact absurd hob nofun
  | tooDeep _ _ _ => exact absurd hob nofun
  | @item d d' pos o v u fs ob hd hfs hdepth hu ih =>
    have hstart := (List.append_nil u ▸ hu).not_startsConstituent hu.ne_nil t
    have hitems := hfs.follow_of_ne_nil hu.ne_nil hstart
    rw [List.cons_append, List.append_assoc]
    rcases ih hob with ⟨ob', o', hb⟩ | ⟨v', f, w, ht, hf, hadmits, hinside⟩
    · exact Or.inl ⟨ob', o', .item hd hitems hdepth hb⟩
    · rw [ht] at hitems ⊢
      rw [← List.append_assoc]
      have hadmits' : d'.Admits (Form.depths (fs ++ [f])) := by
        rw [depths_append]
        exact Depth.admits_max.mpr ⟨hdepth, Depth.admits_max.mpr ⟨hadmits, d'.admits_zero⟩⟩
      rcases settled_list hd (hitems.append hf.spellsAll) hadmits' (settledAll _ _ w) with
        ⟨x, gs, span, w', hx, hlist, hlistdepth⟩ | hb
      · refine Or.inr ⟨x, _, w', hx, hlist, hlistdepth, ?_⟩
        intro level
        rw [Form.insideString_list]
        exact Form.insideString_of_mem (by simp) (hinside _)
      · exact Or.inl hb
  | unclosed _ _ _ _ _ => exact absurd hob nofun
  | @operand d d' pos o op k u ob hd hop hk hu ih =>
    have hhead : op = .unquote → (k ++ (u ++ t)).head? ≠ some '@' := by
      intro hunquote
      rw [Text.head?_append_congr k hu.ne_nil t [], List.append_nil]
      exact hop hunquote
    have htrivia : Trivia k (u ++ t) := hk.follow fun hnil => absurd hnil hu.ne_nil
    rw [List.append_assoc, List.append_assoc]
    rcases ih hob with ⟨ob', o', hb⟩ | ⟨v', f, w, ht, hf, hadmits, hinside⟩
    · exact Or.inl ⟨ob', o', .operand hd hhead htrivia hb⟩
    · rw [ht] at hhead htrivia ⊢
      refine Or.inr ⟨op.sign ++ (k ++ v'), _, w, by simp, .quote ?_ htrivia hf, ?_, ?_⟩
      · intro hunquote
        rw [← List.append_nil v', Text.head?_append_congr k hf.ne_nil [] w]
        exact hhead hunquote
      · rw [depth_quoted]
        exact (Depth.admits_succ hd).mpr hadmits
      · intro level
        exact insideString_quoted.mpr (hinside _)
  | noOperand _ _ _ _ => exact absurd hob nofun

/-- However a source goes on from an unterminated string to a document, the string has
closed behind the source. -/
theorem Rejected.insideString_of_document {settings : Settings} {s : Text}
    (h : Rejected settings s .unterminated o) (hdocument : Document settings (s ++ t) fs) :
    Form.InsideString (Form.preorders 0 fs) o := by
  obtain ⟨x, u, gs, rfl, hfront, hu | ⟨-, -, hob, -⟩⟩ := rejected_iff_front.mp h
  · have hstart := (List.append_nil u ▸ hu).not_startsConstituent hu.ne_nil t
    have hfront' := hfront.refollow hu.ne_nil hstart
    rw [List.append_assoc] at hdocument
    rcases hu.blocked_or_insideString t with ⟨ob, o', hb⟩ | ⟨v, f, w, ht, hf, hadmits, hinside⟩
    · have hrejected := rejected_iff_front.mpr ⟨x, _, gs, rfl, hfront', Or.inl hb⟩
      exact absurd hrejected (hdocument.not_rejected ob o')
    · rw [ht] at hfront' hdocument
      have hnext := hfront'.append hf.spellsAll
        (Depth.admits_max.mpr ⟨hadmits, settings.depth.admits_zero⟩)
      rw [← List.append_assoc] at hdocument
      rcases hnext.document_or_rejected with ⟨hs, hend⟩ | ⟨ob, o', hrejected⟩
      · obtain rfl := hdocument.unique hend
        exact Form.insideString_of_mem (by simp) (hinside _)
      · exact absurd hrejected (hdocument.not_rejected ob o')
  · exact absurd hob nofun

theorem Obstacle.eq_unterminated_of_cause {ob : Obstacle} (h : ob.cause = .unterminatedString) :
    ob = .unterminated := by
  cases ob with
  | unterminated => rfl
  | missing place => cases place <;> exact absurd h nofun
  | badEscape _ => exact absurd h nofun
  | tooDeep => exact absurd h nofun

end Notation

namespace Grammar

/-- A source is said to have an unterminated string if and only if it begins an accepted source
and is cut off inside of a string of every accepted source that it begins. The diagnostic is
at the end of the source then. -/
theorem read_eq_unterminated_iff (settings : Settings) (s : Text) :
    ((∃ d, (standard settings).read s = some (.error d) ∧ d.cause = .unterminatedString) ↔
      (∃ t fs, (standard settings).read (s ++ t) = some (.ok fs)) ∧
        ∀ t fs, (standard settings).read (s ++ t) = some (.ok fs) →
          Form.InsideString (Form.preorders 0 fs) (Text.width s)) ∧
    ∀ d, (standard settings).read s = some (.error d) → d.cause = .unterminatedString →
      d.offset = Text.width s := by
  have hg := hasNotation_standard settings
  have hrejected : ∀ d, (standard settings).read s = some (.error d) →
      d.cause = .unterminatedString →
      Rejected settings s .unterminated (Text.width s) ∧ d.offset = Text.width s := by
    intro d h hcause
    obtain ⟨ob, o, hob, rfl⟩ := hg.rejected_of_read h
    obtain rfl := Obstacle.eq_unterminated_of_cause hcause
    obtain rfl := hob.offset_of_unterminated
    exact ⟨hob, rfl⟩
  refine ⟨⟨?_, ?_⟩, fun d h hcause => (hrejected d h hcause).2⟩
  · rintro ⟨d, h, hcause⟩
    have hob := (hrejected d h hcause).1
    obtain ⟨x, y, t, fs, hs, ho, hdocument⟩ := hob.exists_completion
    have hcut : s ++ [] = x ++ y := by rw [List.append_nil, hs]
    obtain ⟨rfl, -⟩ := Text.append_inj_of_width hcut ho
    refine ⟨⟨t, fs, hg.read_of_document hdocument⟩, ?_⟩
    intro t' fs' h'
    exact hob.insideString_of_document (hg.document_of_read h')
  · rintro ⟨⟨t, fs, h⟩, hinside⟩
    have hob := (hg.document_of_read h).rejected_of_insideString (hinside t fs h)
    exact ⟨_, hg.read_of_rejected hob, rfl⟩

/-- The escape at the end of a source may still belong to a mark inside of the string. -/
theorem read_eq_unterminated_iff_escape :
    (∃ t fs, (standard ⟨true, some 1⟩).read (['(', '"', '\\'] ++ t) = some (.ok fs)) ∧
    (∀ t fs, (standard ⟨true, some 1⟩).read (['(', '"', '\\'] ++ t) = some (.ok fs) →
      Form.InsideString (Form.preorders 0 fs) 3) ∧
    ∃ d, (standard ⟨true, some 1⟩).read ['(', '"', '\\'] = some (.error d) ∧
      d.cause = .unterminatedString ∧ d.offset = 3 := by
  have h := read_eq_unterminated_iff ⟨true, some 1⟩ ['(', '"', '\\']
  obtain ⟨hbegins, hinside⟩ := h.1.mp ⟨_, rfl, rfl⟩
  exact ⟨hbegins, hinside, _, rfl, rfl, h.2 _ rfl rfl⟩

-- What looks like the beginning of a string in a comment is none.
example : (standard .fragment).read ['a', ';', '"'] = some (.ok [.atom ['a'] ⟨0, 1⟩]) := by rfl

end Grammar

end LispReader
