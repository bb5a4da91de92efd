import LispReader.Proofs.Notation.Node
import LispReader.Proofs.Run.Reading

/-!
# Reading one source behind another

A source that is accepted leaves nothing behind that the next one could notice. With
a line feed between them, two sources are read as each by itself: the forms of the
second follow those of the first, and a diagnostic about the second says the same,
with all offsets moved behind the first. The second source is no longer at the
beginning, so it is read without an interpreter line.
-/

namespace LispReader

open Alphabet Notation

namespace Notation

/-! ## Moving an obstacle -/

/-- A blocked form meets the same obstacle wherever its text stands. -/
theorem Blocked.shift {d : Depth} {pos o : Nat} {t : Text} {ob : Obstacle}
    (h : Blocked d pos t ob o) (k : Nat) : Blocked d (pos + k) t ob (o + k) := by
  induction h with
  | @unterminated d pos v hv =>
    have hoff : pos + 1 + Text.width v + k = pos + k + 1 + Text.width v := by omega
    rw [hoff]
    exact .unterminated hv
  | @badEscape d pos v x t e hv he =>
    have hoff : pos + 1 + Text.width v + 1 + k = pos + k + 1 + Text.width v + 1 := by omega
    rw [hoff]
    exact .badEscape hv he
  | tooDeep hd hk ho => exact .tooDeep hd hk ho
  | @item d d' pos o v u fs ob hd hfs hdepth _ ih =>
    have hpos : pos + 1 + Text.width v + k = pos + k + 1 + Text.width v := by omega
    have hitems := hfs.shift k
    rw [Nat.add_right_comm] at hitems
    rw [hpos] at ih
    refine .item hd hitems ?_ ih
    rwa [Form.depths_shiftAll]
  | @unclosed d d' pos v u fs hd hfs hdepth hu hc =>
    have hoff : pos + 1 + Text.width v + k = pos + k + 1 + Text.width v := by omega
    have hitems := hfs.shift k
    rw [Nat.add_right_comm] at hitems
    rw [hoff]
    refine .unclosed hd hitems ?_ hu hc
    rwa [Form.depths_shiftAll]
  | @operand d d' pos o op t u ob hd hop ht _ ih =>
    have hpos : pos + Text.width op.sign + Text.width t + k =
        pos + k + Text.width op.sign + Text.width t := by omega
    rw [hpos] at ih
    exact .operand hd hop ht ih
  | @noOperand d d' pos op t u hd hop ht hu =>
    have hoff : pos + Text.width op.sign + Text.width t + k =
        pos + k + Text.width op.sign + Text.width t := by omega
    rw [hoff]
    exact .noOperand hd hop ht hu

/-! ## Sources -/

variable {settings : Settings} {s t x u : Text} {fs gs : List Form} {ob : Obstacle} {o : Nat}

/-- Behind a document and a line feed, forms are read as at the beginning of a source. -/
theorem Front.append_newline (h : Document settings s fs)
    (h' : Front { settings with allowShebang := false } x gs u) :
    Front settings (s ++ '\n' :: x) (fs ++ Form.shiftAll (Text.width s + 1) gs) u := by
  obtain ⟨line, x, rfl, hline, hgs, hdepth⟩ := h'
  obtain rfl := hline.eq_nil
  have hwidth : Text.width [] + (Text.width s + 1) = Text.width (s ++ ['\n']) := by
    rw [Text.width_append, Text.width_nil, Nat.zero_add]
    rfl
  have hmoved := hgs.shift (Text.width s + 1)
  rw [hwidth] at hmoved
  rw [← Form.depths_shiftAll (Text.width s + 1)] at hdepth
  have hfront := (h.front_newline (x ++ u)).append hmoved hdepth
  rwa [List.append_assoc] at hfront

/-- Two documents on lines of their own are a document. -/
theorem Document.append_newline (h : Document settings s fs)
    (h' : Document { settings with allowShebang := false } t gs) :
    Document settings (s ++ '\n' :: t) (fs ++ Form.shiftAll (Text.width s + 1) gs) :=
  front_nil_iff.mp (.append_newline h (front_nil_iff.mpr h'))

/-- A source behind a document meets the obstacle that it meets by itself. -/
theorem Rejected.append_newline (h : Document settings s fs)
    (h' : Rejected { settings with allowShebang := false } t ob o) :
    Rejected settings (s ++ '\n' :: t) ob (Text.width s + 1 + o) := by
  obtain ⟨x, u, gs, rfl, hfront, hend⟩ := rejected_iff_front.mp h'
  have hwidth : Text.width (s ++ '\n' :: x) = Text.width x + (Text.width s + 1) := by
    have hnewline : Char.utf8Size '\n' = 1 := rfl
    rw [Text.width_append, Text.width_cons, hnewline]
    omega
  refine rejected_iff_front.mpr ⟨_, u, _, by simp, .append_newline h hfront, ?_⟩
  rw [hwidth, Nat.add_comm _ o]
  rcases hend with hu | ⟨hu, hn, rfl, rfl⟩
  · exact Or.inl (hu.shift (Text.width s + 1))
  · exact Or.inr ⟨hu, hn, rfl, rfl⟩

end Notation

namespace Grammar

/-- Reading is a homomorphism for sources on lines of their own. Where the first source is
accepted, what the second gives by itself, without an interpreter line, it gives behind the
first as well: its forms behind those of the first, or its diagnostic, with offsets moved. -/
theorem read_append_newline (settings : Settings) (s : Text) (fs : List Form) (t : Text)
    (h : (standard settings).read s = some (.ok fs)) :
    (∀ gs, (standard { settings with allowShebang := false }).read t = some (.ok gs) →
      (standard settings).read (s ++ '\n' :: t) =
        some (.ok (fs ++ Form.shiftAll (Text.width s + 1) gs))) ∧
    (∀ e, (standard { settings with allowShebang := false }).read t = some (.error e) →
      (standard settings).read (s ++ '\n' :: t) =
        some (.error (Fault.locate ⟨e.cause, Text.width s + 1 + e.offset⟩ (s ++ '\n' :: t)))) := by
  have hg := hasNotation_standard settings
  have hg' := hasNotation_standard { settings with allowShebang := false }
  have hdocument := hg.document_of_read h
  constructor
  · intro gs hgs
    exact hg.read_of_document (hdocument.append_newline (hg'.document_of_read hgs))
  · intro e he
    obtain ⟨ob, o, hrejected, rfl⟩ := hg'.rejected_of_read he
    exact hg.read_of_rejected (.append_newline hdocument hrejected)

/-- An interpreter line without its line feed, in front of texts that begin like one. -/
theorem read_append_newline_interpreter :
    (standard ⟨true, some 1⟩).read ['#', '!', ';'] = some (.ok []) ∧
    (standard ⟨true, some 1⟩).read ['#', '!', ';', '\n', '#', '!'] =
      some (.ok [.atom ['#', '!'] ⟨4, 6⟩]) ∧
    (standard ⟨true, some 1⟩).read ['#', '!', ';', '\n', '#', '!', ')'] =
      some (.error ⟨(Obstacle.missing .source).cause, ⟨2, 3⟩, 6⟩) :=
  ⟨rfl, (read_append_newline ⟨true, some 1⟩ ['#', '!', ';'] [] ['#', '!'] rfl).1 _ rfl,
    (read_append_newline ⟨true, some 1⟩ ['#', '!', ';'] [] ['#', '!', ')'] rfl).2 _ rfl⟩

end Grammar

end LispReader
