import LispReader.Proofs.Notation.Node
import LispReader.Proofs.Run.Reading

/-!
# The limit on nesting

A limit takes away nothing but what is nested too deep. A source whose lists stay
within the limit is read as without it. Any other source that is accepted without a
limit gets a diagnostic about the first list that the limit does not allow. A source
that is rejected without a limit is rejected for the same reason, unless such a list
comes first.
-/

namespace LispReader

open Alphabet Notation

/-- The first of the lists with so many lists around them begins at an offset. -/
structure Form.FirstList (nodes : List (Nat × Form)) (level o : Nat) : Prop where
  exists_list : ∃ items span, (level, Form.list items span) ∈ nodes ∧ span.start = o
  le_start : ∀ items span, (level, Form.list items span) ∈ nodes → o ≤ span.start

/-! ## The first list -/

section

variable {nodes nodes' : List (Nat × Form)} {level o : Nat}

/-- Nodes in front change nothing where there is no list on the level among them. -/
theorem Form.FirstList.append_left (h : Form.FirstList nodes level o)
    (hnone : ∀ items span, (level, Form.list items span) ∉ nodes') :
    Form.FirstList (nodes' ++ nodes) level o := by
  obtain ⟨items, span, hmem, hstart⟩ := h.exists_list
  constructor
  · exact ⟨items, span, List.mem_append_right nodes' hmem, hstart⟩
  · intro items' span' hmem'
    rcases List.mem_append.mp hmem' with hfront | hold
    · exact absurd hfront (hnone items' span')
    · exact h.le_start items' span' hold

/-- Nodes behind the first list change nothing. -/
theorem Form.FirstList.append_right (h : Form.FirstList nodes level o)
    (hlater : ∀ p ∈ nodes', o ≤ p.2.span.start) :
    Form.FirstList (nodes ++ nodes') level o := by
  obtain ⟨items, span, hmem, hstart⟩ := h.exists_list
  constructor
  · exact ⟨items, span, List.mem_append_left nodes' hmem, hstart⟩
  · intro items' span' hmem'
    rcases List.mem_append.mp hmem' with hold | hbehind
    · exact h.le_start items' span' hold
    · exact hlater _ hbehind

/-- The first list with so many lists around it is the first one inside of a list, with
one list fewer around it there. -/
theorem Form.FirstList.list {fs : List Form} {n : Nat}
    (h : Form.FirstList (Form.preorders (level + 1) fs) (level + 1 + n) o) (span : Span) :
    Form.FirstList ((Form.list fs span).preorder level) (level + (n + 1)) o := by
  rw [Nat.add_assoc, Nat.add_comm 1] at h
  have houter : ∀ items span', (level + (n + 1), Form.list items span') ∉
      [(level, Form.list fs span)] := by
    intro items span' hmem
    have hlevel := congrArg Prod.fst (List.mem_singleton.mp hmem)
    dsimp only at hlevel
    omega
  exact h.append_left houter

end

namespace Notation

/-! ## Cutting a text at the first list that is too deep -/

variable {n level pos stop : Nat} {v w : Text} {f : Form} {fs : List Form}

/-- With a limit, the text of a form is blocked at the first of the nodes that is too deep. -/
def CutAt (n level pos : Nat) (t : Text) (nodes : List (Nat × Form)) (stop : Nat) : Prop :=
  ∃ o, o < stop ∧ Blocked (some n) pos t .tooDeep o ∧ Form.FirstList nodes (level + n) o

/-- With a limit, forms are read up to one that is blocked at the first of the nodes that
is too deep. -/
def CutWithin (n level pos : Nat) (t : Text) (nodes : List (Nat × Form)) (stop : Nat) : Prop :=
  ∃ v u gs o, t = v ++ u ∧ SpellsAll pos v gs u ∧ Form.depths gs ≤ n ∧ o < stop ∧
    Blocked (some n) (pos + Text.width v) u .tooDeep o ∧ Form.FirstList nodes (level + n) o

/-- A list is cut where its items are. -/
theorem CutWithin.list {t : Text}
    (h : CutWithin n (level + 1) (pos + 1) t (Form.preorders (level + 1) fs) stop) (span : Span) :
    CutAt (n + 1) level pos (openParen :: t) ((Form.list fs span).preorder level) stop := by
  obtain ⟨v, u, gs, o, rfl, hgs, hdepth, ho, hblocked, hfirst⟩ := h
  exact ⟨o, ho, .item rfl hgs hdepth hblocked, hfirst.list span⟩

/-- Where no list may be opened, a form that is one is cut at its beginning. -/
theorem Spells.cutAt_zero (h : Spells pos v f w) {items : List Form} {span : Span}
    (hf : f = .list items span) (level : Nat) :
    CutAt 0 level pos (v ++ w) (f.preorder level) (pos + Text.width v) := by
  have hv := Text.width_pos h.ne_nil
  have hfirst : Form.FirstList (f.preorder level) level pos := by
    constructor
    · refine ⟨items, span, ?_, ?_⟩
      · rw [hf]
        exact List.mem_cons_self
      · have hspan := h.span_eq
        rw [hf] at hspan
        exact congrArg Span.start hspan
    · intro items' span' hmem
      exact (h.located level hmem).bounds.1
  refine ⟨pos, Nat.lt_add_of_pos_right hv, ?_, hfirst⟩
  cases h with
  | atom _ _ _ => exact absurd hf nofun
  | string _ => exact absurd hf nofun
  | list _ => exact .tooDeep rfl (Or.inl rfl) .list
  | @quote _ op k v _ _ _ _ _ =>
    rw [List.append_assoc]
    exact .tooDeep rfl (Or.inr rfl) (.sign op _)

/-- A quote form is cut where its operand is. -/
theorem CutAt.operand {op : QuoteOperator} {k t : Text}
    (h : CutAt n (level + 1) (pos + Text.width op.sign + Text.width k) t
      (f.preorder (level + 1)) stop)
    (hop : op = .unquote → (k ++ t).head? ≠ some '@') (hk : Trivia k t) (q : Nat) :
    CutAt (n + 1) level pos (op.sign ++ (k ++ t)) ((quoted op pos f q).preorder level) stop := by
  obtain ⟨o, ho, hblocked, hfirst⟩ := h
  have hoperand : Form.FirstList (Form.preorders (level + 1) [f]) (level + 1 + n) o :=
    hfirst.append_right nofun
  have hsymbol : ∀ items span, (level + 1 + n, Form.list items span) ∉
      (symbol op pos).preorder (level + 1) := by
    intro items span hmem
    exact absurd (congrArg Prod.snd (List.mem_singleton.mp hmem)) nofun
  have hitems : Form.FirstList (Form.preorders (level + 1) [symbol op pos, f])
      (level + 1 + n) o := hoperand.append_left hsymbol
  exact ⟨o, ho, .operand rfl hop hk hblocked, hitems.list _⟩

/-- Forms are cut where the first of them is. -/
theorem CutAt.cutWithin {k t : Text} {q : Nat}
    (h : CutAt n level (pos + Text.width k) t (f.preorder level) q) (hk : Trivia k t)
    (hlater : ∀ p ∈ Form.preorders level fs, q ≤ p.2.span.start) (hq : q ≤ stop) :
    CutWithin n level pos (k ++ t) (Form.preorders level (f :: fs)) stop := by
  obtain ⟨o, ho, hblocked, hfirst⟩ := h
  refine ⟨k, t, [], o, rfl, .nil hk, Nat.zero_le n, Nat.lt_of_lt_of_le ho hq, hblocked,
    hfirst.append_right ?_⟩
  intro p hp
  have hle := hlater p hp
  omega

/-- Behind a form that is not too deep, forms are cut where the others are. -/
theorem CutWithin.cons {k t : Text}
    (h : CutWithin n level (pos + Text.width k + Text.width v) t (Form.preorders level fs) stop)
    (hk : Trivia k (v ++ t)) (hf : Spells (pos + Text.width k) v f t) (hn : f.depth ≤ n) :
    CutWithin n level pos (k ++ (v ++ t)) (Form.preorders level (f :: fs)) stop := by
  obtain ⟨v', u, gs, o, rfl, hgs, hdepth, ho, hblocked, hfirst⟩ := h
  refine ⟨k ++ (v ++ v'), u, f :: gs, o, by simp, .cons hk hf hgs, Nat.max_le.mpr ⟨hn, hdepth⟩,
    ho, ?_, hfirst.append_left ?_⟩
  · rw [Text.width_append, Text.width_append, ← Nat.add_assoc, ← Nat.add_assoc]
    exact hblocked
  · intro items span hmem
    have hlevel := (Form.level_of_mem_preorder hmem).2
    rw [Form.depth] at hlevel
    omega

mutual
/-- The text of a form that is too deep is cut at the first list that is. -/
theorem Spells.cutAt {n pos : Nat} {v w : Text} {f : Form} (h : Spells pos v f w)
    (hn : n < f.depth) (level : Nat) :
    CutAt n level pos (v ++ w) (f.preorder level) (pos + Text.width v) := by
  cases n with
  | zero =>
    cases f with
    | atom x s => exact absurd hn (Nat.not_lt_zero 0)
    | string x s => exact absurd hn (Nat.not_lt_zero 0)
    | list items s => exact h.cutAt_zero rfl level
  | succ n =>
    cases h with
    | atom _ _ _ => exact absurd hn (Nat.not_lt_zero _)
    | string _ => exact absurd hn (Nat.not_lt_zero _)
    | list hfs =>
      obtain ⟨o, ho, hcut⟩ := (hfs.cutWithin (Nat.lt_of_succ_lt_succ hn) (level + 1)).list _
      rw [List.cons_append, List.append_assoc, Text.width_cons, Text.width_append,
        utf8Size_openParen]
      exact ⟨o, by omega, hcut⟩
    | @quote _ op k v _ f hop hk hf =>
      rw [depth_quoted] at hn
      have hop' : op = .unquote → (k ++ (v ++ w)).head? ≠ some '@' := by
        intro ho
        rw [Text.head?_append_congr k hf.ne_nil w [], List.append_nil]
        exact hop ho
      have hcut := (hf.cutAt (Nat.lt_of_succ_lt_succ hn) (level + 1)).operand hop' hk
      rw [Text.width_append, Text.width_append, List.append_assoc, List.append_assoc,
        ← Nat.add_assoc, ← Nat.add_assoc]
      exact hcut _

/-- Forms that are too deep are cut at the first list that is. -/
theorem SpellsAll.cutWithin {n pos : Nat} {v w : Text} {fs : List Form}
    (h : SpellsAll pos v fs w) (hn : n < Form.depths fs) (level : Nat) :
    CutWithin n level pos (v ++ w) (Form.preorders level fs) (pos + Text.width v) := by
  cases h with
  | nil _ => exact absurd hn (Nat.not_lt_zero n)
  | @cons _ k v v' _ f fs hk hf hfs =>
    rw [Text.width_append, Text.width_append, ← Nat.add_assoc, ← Nat.add_assoc,
      List.append_assoc, List.append_assoc]
    by_cases hdepth : n < f.depth
    · have hlater : ∀ p ∈ Form.preorders level fs,
          pos + Text.width k + Text.width v ≤ p.2.span.start :=
        fun p hp => (hfs.located level hp).bounds.1
      exact (hf.cutAt hdepth level).cutWithin hk hlater (Nat.le_add_right _ _)
    · have hrest : n < Form.depths fs := by
        rw [Form.depths] at hn
        omega
      exact (hfs.cutWithin hrest level).cons hk hf (Nat.le_of_not_lt hdepth)
end

/-! ## Obstacles -/

/-- With a limit, a list is too deep at some place in front of the end of its items, or
there is some of the limit left for them. -/
theorem SpellsAll.limit_list {u : Text} (h : SpellsAll (pos + 1) v fs u) (n : Nat) :
    (∃ o, o < pos + 1 + Text.width v ∧
      Blocked (some n) pos (openParen :: (v ++ u)) .tooDeep o) ∨
    ∃ m, n = m + 1 ∧ Form.depths fs ≤ m := by
  cases n with
  | zero => exact Or.inl ⟨pos, by omega, .tooDeep rfl (Or.inl rfl) .list⟩
  | succ m =>
    by_cases hm : m < Form.depths fs
    · obtain ⟨o, ho, hblocked, -⟩ := (h.cutWithin hm (0 + 1)).list ⟨pos, pos⟩
      exact Or.inl ⟨o, ho, hblocked⟩
    · exact Or.inr ⟨m, rfl, Nat.le_of_not_lt hm⟩

/-- With a limit, a blocked form meets the same obstacle, or is too deep in front of it. -/
theorem Blocked.limit {d : Depth} {o : Nat} {t : Text} {ob : Obstacle}
    (h : Blocked d pos t ob o) (hd : d = none) (n : Nat) :
    Blocked (some n) pos t ob o ∨ ∃ o', o' < o ∧ Blocked (some n) pos t .tooDeep o' := by
  induction h generalizing n with
  | unterminated hv => exact Or.inl (.unterminated hv)
  | badEscape hv he => exact Or.inl (.badEscape hv he)
  | tooDeep hinner _ _ =>
    subst hd
    exact absurd hinner nofun
  | item hinner hfs _ hu ih =>
    subst hd
    obtain rfl := Option.some.inj hinner
    have hle := hu.le_offset
    rcases hfs.limit_list n with ⟨o', ho', hblocked⟩ | ⟨m, rfl, hdepth⟩
    · exact Or.inr ⟨o', by omega, hblocked⟩
    · rcases ih rfl m with hsame | ⟨o', ho', hblocked⟩
      · exact Or.inl (.item rfl hfs hdepth hsame)
      · exact Or.inr ⟨o', ho', .item rfl hfs hdepth hblocked⟩
  | unclosed _ hfs _ hu hc =>
    rcases hfs.limit_list n with hcut | ⟨m, rfl, hdepth⟩
    · exact Or.inr hcut
    · exact Or.inl (.unclosed rfl hfs hdepth hu hc)
  | @operand _ _ pos _ op k _ _ hinner hop hk hu ih =>
    subst hd
    obtain rfl := Option.some.inj hinner
    have hle := hu.le_offset
    have hsign := width_sign_pos op
    cases n with
    | zero => exact Or.inr ⟨pos, by omega, .tooDeep rfl (Or.inr rfl) (.sign op _)⟩
    | succ m =>
      rcases ih rfl m with hsame | ⟨o', ho', hblocked⟩
      · exact Or.inl (.operand rfl hop hk hsame)
      · exact Or.inr ⟨o', ho', .operand rfl hop hk hblocked⟩
  | @noOperand _ _ pos op k _ hinner hop hk hu =>
    have hsign := width_sign_pos op
    cases n with
    | zero => exact Or.inr ⟨pos, by omega, .tooDeep rfl (Or.inr rfl) (.sign op _)⟩
    | succ m => exact Or.inl (.noOperand rfl hop hk hu)

/-! ## Sources -/

variable {allowShebang : Bool} {s x u : Text} {ob : Obstacle} {o : Nat}

/-- With a limit, a source is rejected for the first of its lists that is too deep. -/
theorem Front.exists_tooDeep (h : Front ⟨allowShebang, none⟩ x fs u) (hn : n < Form.depths fs) :
    ∃ o, o < Text.width x ∧ Form.FirstList (Form.preorders 0 fs) n o ∧
      Rejected ⟨allowShebang, some n⟩ (x ++ u) .tooDeep o := by
  obtain ⟨line, v, rfl, hline, hfs, -⟩ := h
  obtain ⟨v', u', gs, o, ht, hgs, hdepth, ho, hblocked, hfirst⟩ := hfs.cutWithin hn 0
  rw [Nat.zero_add] at hfirst
  rw [ht] at hline
  rw [Text.width_append, List.append_assoc, ht]
  exact ⟨o, ho, hfirst, .blocked rfl hline hgs hdepth hblocked⟩

/-- With a limit, a source that is rejected is rejected for the same reason, or for a
list that is too deep in front of it. -/
theorem Rejected.limit (h : Rejected ⟨allowShebang, none⟩ s ob o) (n : Nat) :
    Rejected ⟨allowShebang, some n⟩ s ob o ∨
      ∃ o', o' < o ∧ Rejected ⟨allowShebang, some n⟩ s .tooDeep o' := by
  obtain ⟨x, u, fs, rfl, hfront, hend⟩ := rejected_iff_front.mp h
  have hle : Text.width x ≤ o := by
    rcases hend with hu | ⟨-, -, -, rfl⟩
    · exact hu.le_offset
    · exact Nat.le_refl _
  by_cases hn : n < Form.depths fs
  · obtain ⟨o', ho', -, hrejected⟩ := hfront.exists_tooDeep hn
    exact Or.inr ⟨o', Nat.lt_of_lt_of_le ho' hle, hrejected⟩
  · have hfront' : Front ⟨allowShebang, some n⟩ x fs u := by
      obtain ⟨line, v, hx, hline, hfs, -⟩ := hfront
      exact ⟨line, v, hx, hline, hfs, Nat.le_of_not_lt hn⟩
    rcases hend with hu | hbarren
    · rcases hu.limit rfl n with hsame | ⟨o', ho', hblocked⟩
      · exact Or.inl (rejected_iff_front.mpr ⟨x, u, fs, rfl, hfront', Or.inl hsame⟩)
      · exact Or.inr ⟨o', ho',
          rejected_iff_front.mpr ⟨x, u, fs, rfl, hfront', Or.inl hblocked⟩⟩
    · exact Or.inl (rejected_iff_front.mpr ⟨x, u, fs, rfl, hfront', Or.inr hbarren⟩)

end Notation

namespace Grammar

/-- A limit on nesting cuts exactly at its depth. What is accepted without a limit is read the
same way if it stays within the limit, and otherwise gets a diagnostic about its first list
with as many lists around it as are allowed. What is rejected without a limit gets the same
diagnostic, or one about too deep nesting in front of it. -/
theorem read_with_limit (allowShebang : Bool) (n : Nat) (s : Text) :
    (∀ fs, (standard ⟨allowShebang, none⟩).read s = some (.ok fs) →
      (Form.depths fs ≤ n → (standard ⟨allowShebang, some n⟩).read s = some (.ok fs)) ∧
      (n < Form.depths fs → ∃ o, Form.FirstList (Form.preorders 0 fs) n o ∧
        (standard ⟨allowShebang, some n⟩).read s =
          some (.error (Fault.locate ⟨.nestingTooDeep, o⟩ s)))) ∧
    (∀ e, (standard ⟨allowShebang, none⟩).read s = some (.error e) →
      (standard ⟨allowShebang, some n⟩).read s = some (.error e) ∨
      ∃ o, o < e.offset ∧ (standard ⟨allowShebang, some n⟩).read s =
        some (.error (Fault.locate ⟨.nestingTooDeep, o⟩ s))) := by
  have hfree := hasNotation_standard ⟨allowShebang, none⟩
  have hlimited := hasNotation_standard ⟨allowShebang, some n⟩
  constructor
  · intro fs hread
    have hdocument := hfree.document_of_read hread
    constructor
    · intro hdepth
      obtain ⟨line, v, hs, hline, hfs, -⟩ := hdocument
      exact hlimited.read_of_document ⟨line, v, hs, hline, hfs, hdepth⟩
    · intro hn
      obtain ⟨o, -, hfirst, hrejected⟩ := (front_nil_iff.mpr hdocument).exists_tooDeep hn
      rw [List.append_nil] at hrejected
      exact ⟨o, hfirst, hlimited.read_of_rejected hrejected⟩
  · intro e hread
    obtain ⟨ob, o, hrejected, rfl⟩ := hfree.rejected_of_read hread
    rcases hrejected.limit n with hsame | ⟨o', ho', hdeep⟩
    · exact Or.inl (hlimited.read_of_rejected hsame)
    · exact Or.inr ⟨o', ho', hlimited.read_of_rejected hdeep⟩

/-- Two lists are at the level that is not allowed, and a source that is rejected has one
in front of its end. -/
theorem read_with_limit_second_level :
    (∃ o, Form.FirstList (Form.preorders 0 [.list [.list [] ⟨1, 3⟩,
        quoted .quote 3 (.atom ['a'] ⟨4, 5⟩) 5] ⟨0, 6⟩]) 1 o ∧
      (standard ⟨true, some 1⟩).read ['(', '(', ')', '\x27', 'a', ')'] =
        some (.error (Fault.locate ⟨.nestingTooDeep, o⟩ ['(', '(', ')', '\x27', 'a', ')']))) ∧
    (standard ⟨true, some 2⟩).read ['(', '(', ')', '\x27', 'a', ')'] =
      some (.ok [.list [.list [] ⟨1, 3⟩,
        quoted .quote 3 (.atom ['a'] ⟨4, 5⟩) 5] ⟨0, 6⟩]) ∧
    ((standard ⟨true, some 1⟩).read ['(', '(', ')'] =
        some (.error ⟨(Obstacle.missing .list).cause, ⟨1, 4⟩, 3⟩) ∨
      ∃ o, o < 3 ∧ (standard ⟨true, some 1⟩).read ['(', '(', ')'] =
        some (.error (Fault.locate ⟨.nestingTooDeep, o⟩ ['(', '(', ')']))) :=
  ⟨((read_with_limit true 1 ['(', '(', ')', '\x27', 'a', ')']).1 _ rfl).2 (by decide),
    ((read_with_limit true 2 ['(', '(', ')', '\x27', 'a', ')']).1 _ rfl).1 (by decide),
    (read_with_limit true 1 ['(', '(', ')']).2 _ rfl⟩

end Grammar

end LispReader
