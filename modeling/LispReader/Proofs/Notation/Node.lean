import LispReader.Proofs.Notation.Spelling

/-!
# Nodes and offsets

Where the nodes of a form stand in the text that spells the form, and what remains
of a form when its text is moved. Every node is spelled by a piece of the text, but
for the symbols of quote operators, which no text spells.
-/

namespace LispReader

/-- The span of a piece that is moved away from the start. -/
def Span.shift (k : Nat) (s : Span) : Span := ⟨s.start + k, s.stop + k⟩

namespace Form

mutual
/-- The form with all its spans moved away from the start. -/
def shift (k : Nat) : Form → Form
  | atom content s => atom content (s.shift k)
  | string content s => string content (s.shift k)
  | list items s => list (shiftAll k items) (s.shift k)

/-- Several forms with all their spans moved. -/
def shiftAll (k : Nat) : List Form → List Form
  | [] => []
  | f :: fs => shift k f :: shiftAll k fs
end

@[simp] theorem shiftAll_nil (k : Nat) : shiftAll k [] = [] := rfl

mutual
@[simp] theorem shift_zero (f : Form) : f.shift 0 = f :=
  match f with
  | atom _ _ => rfl
  | string _ _ => rfl
  | list items s => congrArg (list · s) (shiftAll_zero items)

@[simp] theorem shiftAll_zero (fs : List Form) : shiftAll 0 fs = fs :=
  match fs with
  | [] => rfl
  | f :: fs => by rw [shiftAll, shift_zero f, shiftAll_zero fs]
end

mutual
theorem depth_shift (k : Nat) (f : Form) : (f.shift k).depth = f.depth :=
  match f with
  | atom _ _ => rfl
  | string _ _ => rfl
  | list items _ => congrArg (· + 1) (depths_shiftAll k items)

theorem depths_shiftAll (k : Nat) (fs : List Form) : depths (shiftAll k fs) = depths fs :=
  match fs with
  | [] => rfl
  | f :: fs => by rw [shiftAll, depths, depths, depth_shift k f, depths_shiftAll k fs]
end

mutual
/-- A node is no nearer to the outside than the form that it belongs to, and what is
inside of it no further from there. -/
theorem level_of_mem_preorder {level : Nat} {f : Form} {p : Nat × Form}
    (h : p ∈ f.preorder level) : level ≤ p.1 ∧ p.1 + p.2.depth ≤ level + f.depth := by
  match f with
  | atom x s =>
    obtain rfl := List.mem_singleton.mp h
    exact ⟨Nat.le_refl _, Nat.le_refl _⟩
  | string x s =>
    obtain rfl := List.mem_singleton.mp h
    exact ⟨Nat.le_refl _, Nat.le_refl _⟩
  | list items s =>
    rcases List.mem_cons.mp h with rfl | h
    · exact ⟨Nat.le_refl _, Nat.le_refl _⟩
    · have hlevel := level_of_mem_preorders h
      rw [depth]
      omega

theorem level_of_mem_preorders {level : Nat} {fs : List Form} {p : Nat × Form}
    (h : p ∈ preorders level fs) : level ≤ p.1 ∧ p.1 + p.2.depth ≤ level + depths fs := by
  match fs with
  | f :: fs =>
    rw [depths]
    rcases List.mem_append.mp h with h | h
    · have hlevel := level_of_mem_preorder h
      omega
    · have hlevel := level_of_mem_preorders h
      omega
end

/-- No node is deeper than the forms that it belongs to. -/
theorem depth_le_of_mem_preorders {level : Nat} {fs : List Form} {p : Nat × Form}
    (h : p ∈ preorders level fs) : p.2.depth ≤ depths fs := by
  have hlevel := level_of_mem_preorders h
  omega

end Form

namespace Notation

open Alphabet

/-! ## Moving a text -/

mutual
/-- A text spells the same form nearer to the start, up to the spans. -/
theorem Spells.exists_shift {p pos k : Nat} {v w : Text} {f : Form} (h : Spells p v f w)
    (hp : p = pos + k) : ∃ g, Form.shift k g = f ∧ Spells pos v g w := by
  cases h with
  | atom hx hv hw =>
    refine ⟨_, ?_, .atom hx hv hw⟩
    rw [Form.shift, Span.shift, hp, Nat.add_right_comm]
  | string hx =>
    refine ⟨_, ?_, .string hx⟩
    simp only [Form.shift, Span.shift, hp, Nat.add_right_comm _ _ k]
  | list hfs =>
    obtain ⟨gs, rfl, hgs⟩ := hfs.exists_shift (show p + 1 = pos + 1 + k by omega)
    refine ⟨_, ?_, .list hgs⟩
    simp only [Form.shift, Span.shift, hp, Nat.add_right_comm _ _ k]
  | @quote _ op t v _ f hop ht hf =>
    have hpos : p + Text.width op.sign + Text.width t =
        pos + Text.width op.sign + Text.width t + k := by omega
    obtain ⟨g, rfl, hg⟩ := hf.exists_shift hpos
    refine ⟨_, ?_, .quote hop ht hg⟩
    simp only [quoted, symbol, Form.shift, Form.shiftAll, Span.shift, hp,
      Nat.add_right_comm _ _ k]

theorem SpellsAll.exists_shift {p pos k : Nat} {v w : Text} {fs : List Form}
    (h : SpellsAll p v fs w) (hp : p = pos + k) :
    ∃ gs, Form.shiftAll k gs = fs ∧ SpellsAll pos v gs w := by
  cases h with
  | nil ht => exact ⟨[], rfl, .nil ht⟩
  | @cons _ t v v' _ f fs ht hf hfs =>
    have hpos : p + Text.width t = pos + Text.width t + k := by omega
    have hpos' : p + Text.width t + Text.width v = pos + Text.width t + Text.width v + k := by
      omega
    obtain ⟨g, rfl, hg⟩ := hf.exists_shift hpos
    obtain ⟨gs, rfl, hgs⟩ := hfs.exists_shift hpos'
    exact ⟨g :: gs, rfl, .cons ht hg hgs⟩
end

@[simp] theorem shift_quoted (k : Nat) (op : QuoteOperator) (pos : Nat) (f : Form) (stop : Nat) :
    (quoted op pos f stop).shift k = quoted op (pos + k) (f.shift k) (stop + k) := by
  simp only [quoted, symbol, Form.shift, Form.shiftAll, Span.shift, Nat.add_right_comm _ _ k]

mutual
/-- A text spells the same form further from the start, up to the spans. -/
theorem Spells.shift {pos : Nat} {v w : Text} {f : Form} (h : Spells pos v f w) (k : Nat) :
    Spells (pos + k) v (f.shift k) w := by
  cases h with
  | atom hx hv hw =>
    rw [Form.shift, Span.shift, Nat.add_right_comm]
    exact .atom hx hv hw
  | string hx =>
    simp only [Form.shift, Span.shift, Nat.add_right_comm _ _ k]
    exact .string hx
  | list hfs =>
    have hitems := hfs.shift k
    rw [Nat.add_right_comm] at hitems
    simp only [Form.shift, Span.shift, Nat.add_right_comm _ _ k]
    exact .list hitems
  | quote hop ht hf =>
    have hoperand := hf.shift k
    rw [Nat.add_right_comm, Nat.add_right_comm pos] at hoperand
    rw [shift_quoted, Nat.add_right_comm, Nat.add_right_comm _ _ k, Nat.add_right_comm pos]
    exact .quote hop ht hoperand

theorem SpellsAll.shift {pos : Nat} {v w : Text} {fs : List Form} (h : SpellsAll pos v fs w)
    (k : Nat) : SpellsAll (pos + k) v (Form.shiftAll k fs) w := by
  cases h with
  | nil ht => exact .nil ht
  | cons ht hf hfs =>
    have hform := hf.shift k
    have hforms := hfs.shift k
    rw [Nat.add_right_comm] at hform
    rw [Nat.add_right_comm, Nat.add_right_comm pos] at hforms
    exact .cons ht hform hforms
end

/-! ## Nodes -/

/-- Where a node stands in a text: a piece of the text spells it, or it is the
symbol for an operator, and the operator is there. -/
inductive Located (nodes : List (Nat × Form)) (pos : Nat) (v w : Text) : Form → Prop where
  | spelled {x u y : Text} {f : Form} (hv : v = x ++ (u ++ y))
      (hf : Spells (pos + Text.width x) u f (y ++ w)) : Located nodes pos v w f
  | symbol {x y : Text} {op : QuoteOperator} {level stop : Nat} {f : Form}
      (hv : v = x ++ (op.sign ++ y))
      (hmem : (level, quoted op (pos + Text.width x) f stop) ∈ nodes) :
      Located nodes pos v w (symbol op (pos + Text.width x))

theorem Spells.located_self {nodes : List (Nat × Form)} {pos : Nat} {v w : Text} {f : Form}
    (h : Spells pos v f w) : Located nodes pos v w f :=
  .spelled (x := []) (y := []) (by simp) h

/-- The span of a node has some width, and lies within the text. -/
theorem Located.bounds {nodes : List (Nat × Form)} {pos : Nat} {v w : Text} {f : Form}
    (h : Located nodes pos v w f) :
    pos ≤ f.span.start ∧ f.span.start < f.span.stop ∧ f.span.stop ≤ pos + Text.width v := by
  cases h with
  | spelled hv hf =>
    have hpos := Text.width_pos hf.ne_nil
    rw [hf.span_eq, hv, Text.width_append, Text.width_append]
    dsimp only
    omega
  | @symbol x y op _ _ _ hv _ =>
    have hpos := width_sign_pos op
    rw [hv, Text.width_append, Text.width_append, span_symbol]
    dsimp only
    omega

/-- What is located in a piece of a text is located in the text. -/
theorem Located.extend {nodes nodes' : List (Nat × Form)} {pos : Nat} {a b v w : Text} {f : Form}
    (h : Located nodes (pos + Text.width a) v (b ++ w) f) (hn : ∀ p ∈ nodes, p ∈ nodes') :
    Located nodes' pos (a ++ (v ++ b)) w f := by
  cases h with
  | @spelled x u y _ hv hf =>
    refine .spelled (x := a ++ x) (u := u) (y := y ++ b) (by simp [hv]) ?_
    rwa [Text.width_append, ← Nat.add_assoc, List.append_assoc]
  | @symbol x y op level stop f hv hmem =>
    rw [Nat.add_assoc, ← Text.width_append] at hmem ⊢
    exact .symbol (y := y ++ b) (by simp [hv]) (hn _ hmem)

mutual
/-- All nodes of a form are located in the text that spells it. -/
theorem Spells.located {pos : Nat} {v w : Text} {f : Form} (h : Spells pos v f w) (level : Nat)
    {p : Nat × Form} (hp : p ∈ f.preorder level) : Located (f.preorder level) pos v w p.2 := by
  cases h with
  | atom hx hv hw =>
    obtain rfl := List.mem_singleton.mp hp
    exact (Spells.atom hx hv hw).located_self
  | string hx =>
    obtain rfl := List.mem_singleton.mp hp
    exact (Spells.string hx).located_self
  | @list _ v _ fs hfs =>
    rcases List.mem_cons.mp hp with rfl | hp
    · exact (Spells.list hfs).located_self
    · exact (hfs.located (level + 1) hp).extend (a := [openParen]) (b := [closeParen])
        fun q hq => List.mem_cons_of_mem _ hq
  | @quote _ op k v _ f hop hk hf =>
    rcases List.mem_cons.mp hp with rfl | hp
    · exact (Spells.quote hop hk hf).located_self
    · rcases List.mem_cons.mp hp with rfl | hp
      · exact .symbol (x := []) (y := k ++ v) rfl List.mem_cons_self
      · have hp : p ∈ f.preorder (level + 1) ++ [] := hp
        have hloc := hf.located (level + 1) (by rwa [List.append_nil] at hp)
        rw [Nat.add_assoc, ← Text.width_append] at hloc
        have hnodes : ∀ q ∈ f.preorder (level + 1), q ∈ (quoted op pos f
            (pos + Text.width op.sign + Text.width k + Text.width v)).preorder level := fun q hq =>
          List.mem_cons_of_mem _ (List.mem_cons_of_mem _ (List.mem_append_left [] hq))
        have hextend := hloc.extend (b := []) hnodes
        rwa [List.append_nil, List.append_assoc] at hextend

theorem SpellsAll.located {pos : Nat} {v w : Text} {fs : List Form} (h : SpellsAll pos v fs w)
    (level : Nat) {p : Nat × Form} (hp : p ∈ Form.preorders level fs) :
    Located (Form.preorders level fs) pos v w p.2 := by
  cases h with
  | nil _ => exact absurd hp List.not_mem_nil
  | @cons _ k v v' _ f fs hk hf hfs =>
    rcases List.mem_append.mp hp with hp | hp
    · exact (hf.located level hp).extend fun q hq => List.mem_append_left _ hq
    · have hloc := hfs.located level hp
      rw [Nat.add_assoc, ← Text.width_append] at hloc
      have hextend := hloc.extend (b := []) fun q hq =>
        List.mem_append_right (f.preorder level) hq
      rwa [List.append_nil, List.append_assoc] at hextend
end

end Notation

end LispReader
