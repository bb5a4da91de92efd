import LispReader.Proofs.Locality

/-!
# Trivia between tokens

Wherever a form begins or ends, trivia can be put into the source: also between an
operator and its operand, between forms that nothing separates, and in front of the
first form. The forms stay the same, and so does every offset in front of the place.
Offsets behind it move by the width of what was put there. An end at the place stays,
and a beginning moves, since what is new belongs to no form.
-/

namespace LispReader

open Alphabet Notation

/-! ## Making room -/

/-- The span of a piece when so many bytes are put into its source at an offset. -/
def Span.makeRoom (p k : Nat) (s : Span) : Span :=
  ⟨if p ≤ s.start then s.start + k else s.start, if p < s.stop then s.stop + k else s.stop⟩

namespace Span

variable {p k start stop : Nat}

theorem makeRoom_of_le (h : p ≤ start) (hlt : start < stop) :
    makeRoom p k ⟨start, stop⟩ = ⟨start + k, stop + k⟩ := by
  rw [makeRoom, if_pos h, if_pos (Nat.lt_of_le_of_lt h hlt)]

theorem makeRoom_of_ge (h : stop ≤ p) (hlt : start < stop) :
    makeRoom p k ⟨start, stop⟩ = ⟨start, stop⟩ := by
  rw [makeRoom, if_neg (Nat.not_le_of_lt (Nat.lt_of_lt_of_le hlt h)), if_neg (Nat.not_lt_of_le h)]

theorem makeRoom_of_between (h : start < p) (h' : p < stop) :
    makeRoom p k ⟨start, stop⟩ = ⟨start, stop + k⟩ := by
  rw [makeRoom, if_neg (Nat.not_le_of_lt h), if_pos h']

end Span

namespace Form

mutual
/-- The form when so many bytes are put into its source at an offset. -/
def makeRoom (p k : Nat) : Form → Form
  | atom content s => atom content (s.makeRoom p k)
  | string content s => string content (s.makeRoom p k)
  | list items s => list (makeRoomAll p k items) (s.makeRoom p k)

/-- Several forms when so many bytes are put into their source. -/
def makeRoomAll (p k : Nat) : List Form → List Form
  | [] => []
  | f :: fs => makeRoom p k f :: makeRoomAll p k fs
end

mutual
theorem datum_makeRoom (p k : Nat) (f : Form) : (f.makeRoom p k).datum = f.datum :=
  match f with
  | atom _ _ => rfl
  | string _ _ => rfl
  | list items _ => congrArg Datum.list (data_makeRoomAll p k items)

theorem data_makeRoomAll (p k : Nat) (fs : List Form) : data (makeRoomAll p k fs) = data fs :=
  match fs with
  | [] => rfl
  | f :: fs => by rw [makeRoomAll, data, data, datum_makeRoom p k f, data_makeRoomAll p k fs]
end

mutual
theorem depth_makeRoom (p k : Nat) (f : Form) : (f.makeRoom p k).depth = f.depth :=
  match f with
  | atom _ _ => rfl
  | string _ _ => rfl
  | list items _ => congrArg (· + 1) (depths_makeRoomAll p k items)

theorem depths_makeRoomAll (p k : Nat) (fs : List Form) : depths (makeRoomAll p k fs) = depths fs :=
  match fs with
  | [] => rfl
  | f :: fs => by
    rw [makeRoomAll, depths, depths, depth_makeRoom p k f, depths_makeRoomAll p k fs]
end

/-- An offset at which one of the nodes begins or ends. -/
def IsEdge (nodes : List (Nat × Form)) (p : Nat) : Prop :=
  ∃ q ∈ nodes, p = q.2.span.start ∨ p = q.2.span.stop

theorem isEdge_cons {q : Nat × Form} {nodes : List (Nat × Form)} {p : Nat} :
    IsEdge (q :: nodes) p ↔ (p = q.2.span.start ∨ p = q.2.span.stop) ∨ IsEdge nodes p := by
  simp [IsEdge]

theorem isEdge_append {nodes nodes' : List (Nat × Form)} {p : Nat} :
    IsEdge (nodes ++ nodes') p ↔ IsEdge nodes p ∨ IsEdge nodes' p := by
  simp only [IsEdge, List.mem_append, or_and_right, exists_or]

end Form

namespace Notation

variable {p pos level : Nat} {a b k t u v w x y : Text} {f : Form} {fs : List Form}

theorem makeRoom_symbol_of_ge {op : QuoteOperator} {n : Nat}
    (h : pos + Text.width op.sign ≤ p) : (symbol op pos).makeRoom p n = symbol op pos := by
  have hsign := width_sign_pos op
  rw [symbol, Form.makeRoom, Span.makeRoom_of_ge h (by omega)]

theorem makeRoom_symbol_of_le {op : QuoteOperator} {n : Nat} (h : p ≤ pos) :
    (symbol op pos).makeRoom p n = (symbol op pos).shift n := by
  have hsign := width_sign_pos op
  rw [symbol, Form.makeRoom, Span.makeRoom_of_le h (by omega)]
  rfl

theorem makeRoom_quoted (op : QuoteOperator) (pos : Nat) (f : Form) (stop p n : Nat) :
    (quoted op pos f stop).makeRoom p n =
      .list [(symbol op pos).makeRoom p n, f.makeRoom p n] (Span.makeRoom p n ⟨pos, stop⟩) := rfl

mutual
/-- A form in front of the place stays. -/
theorem Spells.makeRoom_of_ge {p pos n : Nat} {v w : Text} {f : Form} (h : Spells pos v f w)
    (hp : pos + Text.width v ≤ p) : f.makeRoom p n = f := by
  have hspan := h.span_eq
  have hpos := Text.width_pos h.ne_nil
  have hstay : f.span.makeRoom p n = f.span := by
    rw [hspan]
    exact Span.makeRoom_of_ge hp (by omega)
  cases h with
  | atom _ _ _ => exact congrArg _ hstay
  | string _ => exact congrArg _ hstay
  | list hfs =>
    rw [Text.width_cons, Text.width_append, utf8Size_openParen] at hp
    rw [Form.makeRoom, hfs.makeRoomAll_of_ge (by omega)]
    exact congrArg _ hstay
  | @quote _ op u v _ f _ _ hf =>
    have hsign := width_sign_pos op
    rw [Text.width_append, Text.width_append] at hp
    rw [makeRoom_quoted, makeRoom_symbol_of_ge (by omega), hf.makeRoom_of_ge (by omega)]
    exact congrArg _ hstay

/-- Forms in front of the place stay. -/
theorem SpellsAll.makeRoomAll_of_ge {p pos n : Nat} {v w : Text} {fs : List Form}
    (h : SpellsAll pos v fs w) (hp : pos + Text.width v ≤ p) : Form.makeRoomAll p n fs = fs := by
  cases h with
  | nil _ => rfl
  | cons _ hf hfs =>
    rw [Text.width_append, Text.width_append] at hp
    rw [Form.makeRoomAll, hf.makeRoom_of_ge (by omega), hfs.makeRoomAll_of_ge (by omega)]
end

mutual
/-- A form behind the place is moved. -/
theorem Spells.makeRoom_of_le {p pos n : Nat} {v w : Text} {f : Form} (h : Spells pos v f w)
    (hp : p ≤ pos) : f.makeRoom p n = f.shift n := by
  have hspan := h.span_eq
  have hpos := Text.width_pos h.ne_nil
  have hmove : f.span.makeRoom p n = f.span.shift n := by
    rw [hspan]
    exact Span.makeRoom_of_le hp (by omega)
  cases h with
  | atom _ _ _ => exact congrArg _ hmove
  | string _ => exact congrArg _ hmove
  | list hfs =>
    rw [Form.makeRoom, Form.shift, hfs.makeRoomAll_of_le (by omega)]
    exact congrArg _ hmove
  | @quote _ op u v _ f _ _ hf =>
    rw [makeRoom_quoted, makeRoom_symbol_of_le hp, hf.makeRoom_of_le (by omega)]
    exact congrArg _ hmove

/-- Forms behind the place are moved. -/
theorem SpellsAll.makeRoomAll_of_le {p pos n : Nat} {v w : Text} {fs : List Form}
    (h : SpellsAll pos v fs w) (hp : p ≤ pos) :
    Form.makeRoomAll p n fs = Form.shiftAll n fs := by
  cases h with
  | nil _ => rfl
  | cons _ hf hfs =>
    rw [Form.makeRoomAll, Form.shiftAll, hf.makeRoom_of_le (by omega),
      hfs.makeRoomAll_of_le (by omega)]
end

/-! ## Putting trivia into forms -/

/-- Blank characters and comments with their line feeds, in any order and number. -/
inductive Separator : Text → Prop where
  | nil : Separator []
  | blank {c : Char} {t : Text} (hc : Text.isBlank c = true) (h : Separator t) : Separator (c :: t)
  | comment {line t : Text} (hline : '\n' ∉ line) (h : Separator t) :
      Separator (semicolon :: (line ++ '\n' :: t))

theorem Separator.trivia (h : Separator t) (w : Text) : Trivia t w := by
  induction h with
  | nil => exact .nil
  | blank hc _ ih => exact .blank hc ih
  | comment hline _ ih => exact .comment hline ih

/-- The second text begins with a character of an atom only where the first does,
whatever follows. -/
def AtomOnlyAs (v v' : Text) : Prop :=
  ∀ x, StartsConstituent isReserved (v' ++ x) → StartsConstituent isReserved (v ++ x)

/-- Trivia keeps an atom from beginning at all. -/
theorem AtomOnlyAs.trivia_append (hk : Trivia k u) (h : k = [] → AtomOnlyAs v w) :
    AtomOnlyAs (k ++ v) (k ++ w) := by
  intro x hx
  by_cases hn : k = []
  · subst hn
    exact h rfl x hx
  · rw [List.append_assoc] at hx
    exact absurd hx (hk.not_startsConstituent hn _)

theorem Separator.atomOnlyAs (h : Separator t) (v : Text) : AtomOnlyAs v (t ++ v) := by
  intro x hx
  by_cases hn : t = []
  · subst hn
    exact hx
  · rw [List.append_assoc] at hx
    exact absurd hx ((h.trivia v).not_startsConstituent hn _)

theorem Spells.atomOnlyAs (h : Spells pos v f w) (x y : Text) : AtomOnlyAs (v ++ x) (v ++ y) := by
  intro z hz
  rw [List.append_assoc] at hz ⊢
  exact (h.startsConstituent_iff _ _).mp hz

/-- What is behind a form can be replaced if no atom goes on with it. -/
theorem Spells.follow_of_atomOnlyAs (h : Spells pos v f (x ++ w)) (hx : AtomOnlyAs x y) :
    Spells pos v f (y ++ w) :=
  h.follow (hx w)

/-- A text can be put into another at an offset, which then has a property that depends
on how it begins at most where it does not begin with an atom. -/
def Inserts (t : Text) (pos p : Nat) (v : Text) (spelled : Text → Prop) : Prop :=
  ∃ a b, v = a ++ b ∧ p = pos + Text.width a ∧ AtomOnlyAs v (a ++ (t ++ b)) ∧
    spelled (a ++ (t ++ b))

/-- Trivia can be put in front of forms. -/
theorem SpellsAll.inserts_front (h : SpellsAll pos v fs w) (ht : Separator t) :
    Inserts t pos pos v fun v' => SpellsAll pos v' (Form.makeRoomAll pos (Text.width t) fs) w := by
  refine ⟨[], v, rfl, rfl, ht.atomOnlyAs v, ?_⟩
  rw [h.makeRoomAll_of_le (Nat.le_refl pos)]
  exact SpellsAll.append (.nil (ht.trivia _)) (h.shift _)

/-- Where trivia can be put into forms, it can be with other trivia in front of them. -/
theorem Inserts.trivia_append
    (h : Inserts t (pos + Text.width k) p v fun v' => SpellsAll (pos + Text.width k) v' fs w)
    (hk : Trivia k (v ++ w)) (hv : v ≠ []) :
    Inserts t pos p (k ++ v) fun v' => SpellsAll pos v' fs w := by
  obtain ⟨a, b, rfl, rfl, hatom, hspells⟩ := h
  refine ⟨k ++ a, b, by simp, ?_, ?_, ?_⟩
  · rw [Text.width_append, Nat.add_assoc]
  · rw [List.append_assoc]
    exact .trivia_append hk fun _ => hatom
  · have hk' : Trivia k (a ++ (t ++ b) ++ w) := by
      apply hk.follow
      intro he
      exact absurd (List.append_eq_nil_iff.mp he).1 hv
    rw [List.append_assoc]
    exact SpellsAll.append (.nil hk') hspells

/-- Where trivia can be put into forms, it can be with another form in front of them. -/
theorem Inserts.form_append {q : Nat} (hq : q = pos + Text.width v)
    (h : Inserts t q p u fun u' => SpellsAll q u' (Form.makeRoomAll p (Text.width t) fs) w)
    (hf : Spells pos v f (u ++ w)) :
    Inserts t pos p (v ++ u) fun v' =>
      SpellsAll pos v' (Form.makeRoomAll p (Text.width t) (f :: fs)) w := by
  subst hq
  obtain ⟨a, b, rfl, rfl, hatom, hspells⟩ := h
  refine ⟨v ++ a, b, by simp, ?_, ?_, ?_⟩
  · rw [Text.width_append, Nat.add_assoc]
  · rw [List.append_assoc]
    exact hf.atomOnlyAs _ _
  · rw [Form.makeRoomAll, hf.makeRoom_of_ge (Nat.le_add_right _ _), List.append_assoc]
    exact .cons (k := []) .nil (hf.follow_of_atomOnlyAs hatom) hspells

/-- Where trivia can be put into a form, it can be with other forms behind it. -/
theorem Inserts.append_forms
    (h : Inserts t pos p v fun v' => Spells pos v' (f.makeRoom p (Text.width t)) (u ++ w))
    (hfs : SpellsAll (pos + Text.width v) u fs w) :
    Inserts t pos p (v ++ u) fun v' =>
      SpellsAll pos v' (Form.makeRoomAll p (Text.width t) (f :: fs)) w := by
  obtain ⟨a, b, rfl, rfl, hatom, hspells⟩ := h
  have hwidth : pos + Text.width (a ++ b) + Text.width t = pos + Text.width (a ++ (t ++ b)) := by
    simp only [Text.width_append]
    omega
  have hmoved := hfs.shift (Text.width t)
  rw [hwidth] at hmoved
  refine ⟨a, b ++ u, by simp, rfl, ?_, ?_⟩
  · intro x hx
    have hx' : StartsConstituent isReserved (a ++ (t ++ b) ++ (u ++ x)) := by simpa using hx
    have := hatom _ hx'
    rwa [List.append_assoc _ u x]
  · have hback := hfs.makeRoomAll_of_le (p := pos + Text.width a) (n := Text.width t) (by
      rw [Text.width_append]
      omega)
    have htext : a ++ (t ++ (b ++ u)) = a ++ (t ++ b) ++ u := by simp
    rw [Form.makeRoomAll, hback, htext]
    exact .cons (k := []) .nil hspells hmoved

/-- An opening parenthesis keeps an atom from beginning. -/
theorem atomOnlyAs_of_reserved {c : Char} (hr : isReserved c = true) (hc : c ≠ escape)
    (v v' : Text) : AtomOnlyAs v (c :: v') :=
  fun x hx => absurd hx (not_startsConstituent_of_reserved hr hc (v' ++ x))

/-- Where trivia can be put into items, it can be put into their list. -/
theorem Inserts.list
    (h : Inserts t (pos + 1) p v fun v' =>
      SpellsAll (pos + 1) v' (Form.makeRoomAll p (Text.width t) fs) (closeParen :: w)) :
    Inserts t pos p (openParen :: (v ++ [closeParen])) fun v' =>
      Spells pos v' ((Form.list fs ⟨pos, pos + Text.width v + 2⟩).makeRoom p (Text.width t)) w := by
  obtain ⟨a, b, rfl, rfl, -, hspells⟩ := h
  refine ⟨openParen :: a, b ++ [closeParen], by simp, ?_,
    atomOnlyAs_of_reserved (by decide) (by decide) _ _, ?_⟩
  · rw [Text.width_cons, utf8Size_openParen, Nat.add_assoc]
  · have hspan : Span.makeRoom (pos + 1 + Text.width a) (Text.width t)
        ⟨pos, pos + Text.width (a ++ b) + 2⟩ =
          ⟨pos, pos + Text.width (a ++ (t ++ b)) + 2⟩ := by
      simp only [Text.width_append]
      rw [Span.makeRoom_of_between (by omega) (by omega), Span.mk.injEq]
      omega
    have htext : openParen :: a ++ (t ++ (b ++ [closeParen])) =
        openParen :: (a ++ (t ++ b) ++ [closeParen]) := by simp
    rw [Form.makeRoom, hspan, htext]
    exact .list hspells

/-- No separator begins with the sign that makes another operator of a comma. -/
theorem Separator.head?_ne (ht : Separator t) (h : (a ++ b).head? ≠ some '@') :
    (a ++ (t ++ b)).head? ≠ some '@' := by
  cases a with
  | cons c a => exact h
  | nil =>
    cases ht with
    | nil => exact h
    | blank hc _ =>
      intro he
      obtain rfl := Option.some.inj he
      exact absurd hc (by decide)
    | comment _ _ =>
      intro he
      exact absurd (Option.some.inj he) (by decide)

/-- Trivia can be put behind a quote operator if an operand is still to be found there. -/
theorem Inserts.quote {op : QuoteOperator} {k' v' : Text} (ht : Separator t)
    (hop : op = .unquote → (k ++ v).head? ≠ some '@') (hold : k ++ v = a ++ b) (hb : b ≠ [])
    (hnew : k' ++ v' = a ++ (t ++ b)) (hp : p = pos + Text.width op.sign + Text.width a)
    (hk : Trivia k' (v' ++ w))
    (hf : Spells (pos + Text.width op.sign + Text.width k') v'
      (f.makeRoom p (Text.width t)) w) :
    Inserts t pos p (op.sign ++ (k ++ v)) fun v'' =>
      Spells pos v'' ((quoted op pos f
        (pos + Text.width op.sign + Text.width k + Text.width v)).makeRoom p (Text.width t)) w := by
  obtain ⟨c, u, hsign, hc⟩ := sign_eq_cons op
  have hatom : AtomOnlyAs (op.sign ++ (k ++ v)) (op.sign ++ (a ++ (t ++ b))) := by
    rw [hsign]
    apply atomOnlyAs_of_reserved (isReserved_of_mem_quoteMarks hc)
    rintro rfl
    exact absurd hc (by decide)
  have hwidth : Text.width k + Text.width v = Text.width a + Text.width b := by
    rw [← Text.width_append, hold, Text.width_append]
  have hwidth' : Text.width k' + Text.width v' =
      Text.width a + (Text.width t + Text.width b) := by
    rw [← Text.width_append, hnew, Text.width_append, Text.width_append]
  have hpos := width_sign_pos op
  have hbpos := Text.width_pos hb
  have hspan : Span.makeRoom p (Text.width t)
      ⟨pos, pos + Text.width op.sign + Text.width k + Text.width v⟩ =
        ⟨pos, pos + Text.width op.sign + Text.width k' + Text.width v'⟩ := by
    rw [Span.makeRoom_of_between (by omega) (by omega), Span.mk.injEq]
    omega
  refine ⟨op.sign ++ a, b, by rw [hold, List.append_assoc], ?_, ?_, ?_⟩
  · rw [Text.width_append, hp, Nat.add_assoc]
  · rw [List.append_assoc]
    exact hatom
  · rw [makeRoom_quoted, makeRoom_symbol_of_ge (by omega), hspan, List.append_assoc, ← hnew]
    refine .quote ?_ hk hf
    intro ho
    rw [hnew]
    exact ht.head?_ne (hold ▸ hop ho)

/-- Trivia can be put into the trivia between an operator and its operand. -/
theorem Spells.inserts_gap {op : QuoteOperator} (ht : Separator t)
    (hop : op = .unquote → (k ++ v).head? ≠ some '@')
    (hf : Spells (pos + Text.width op.sign + Text.width k) v f w) (hxy : k = x ++ y)
    (hk : Trivia (x ++ (t ++ y)) (v ++ w)) (hp : p = pos + Text.width op.sign + Text.width x) :
    Inserts t pos p (op.sign ++ (k ++ v)) fun v' =>
      Spells pos v' ((quoted op pos f
        (pos + Text.width op.sign + Text.width k + Text.width v)).makeRoom p (Text.width t)) w := by
  subst hxy
  have hle : p ≤ pos + Text.width op.sign + Text.width (x ++ y) := by
    rw [hp, Text.width_append]
    omega
  have hwidth : pos + Text.width op.sign + Text.width (x ++ y) + Text.width t =
      pos + Text.width op.sign + Text.width (x ++ (t ++ y)) := by
    simp only [Text.width_append]
    omega
  have hmoved := hf.shift (Text.width t)
  rw [← hf.makeRoom_of_le hle, hwidth] at hmoved
  have hb : y ++ v ≠ [] := fun he => hf.ne_nil (List.append_eq_nil_iff.mp he).2
  exact .quote ht hop (List.append_assoc x y v) hb (by simp) hp hk hmoved

/-- Where trivia can be put into an operand, it can be put into the quote form. -/
theorem Inserts.operand {op : QuoteOperator} (ht : Separator t)
    (h : Inserts t (pos + Text.width op.sign + Text.width k) p v fun v' =>
      Spells (pos + Text.width op.sign + Text.width k) v' (f.makeRoom p (Text.width t)) w)
    (hop : op = .unquote → (k ++ v).head? ≠ some '@') (hk : Trivia k (v ++ w)) (hv : v ≠ [])
    (hp : p < pos + Text.width op.sign + Text.width k + Text.width v) :
    Inserts t pos p (op.sign ++ (k ++ v)) fun v' =>
      Spells pos v' ((quoted op pos f
        (pos + Text.width op.sign + Text.width k + Text.width v)).makeRoom p (Text.width t)) w := by
  obtain ⟨a, b, rfl, hplace, -, hspells⟩ := h
  rw [Text.width_append] at hp
  have hb : b ≠ [] := by
    rintro rfl
    rw [Text.width_nil] at hp
    omega
  refine .quote (a := k ++ a) ht hop (List.append_assoc k a b).symm hb
    (List.append_assoc k a _).symm ?_ ?_ hspells
  · rw [hplace, Text.width_append, Nat.add_assoc]
  · apply hk.follow
    intro he
    exact absurd (List.append_eq_nil_iff.mp he).1 hv

/-- Inside of a quote form, the nodes are the symbol for the operator and those of the operand. -/
theorem isEdge_quoted {op : QuoteOperator} {stop : Nat}
    (h : Form.IsEdge ((quoted op pos f stop).preorder level) p) (hstart : pos < p)
    (hstop : p < stop) :
    p = pos + Text.width op.sign ∨ Form.IsEdge (f.preorder (level + 1)) p := by
  have hnodes : (quoted op pos f stop).preorder level =
      (level, quoted op pos f stop) :: (level + 1, symbol op pos) ::
        (f.preorder (level + 1) ++ []) := rfl
  rw [hnodes, List.append_nil, Form.isEdge_cons, Form.isEdge_cons] at h
  rcases h with hself | hsymbol | hoperand
  · have hspan : (quoted op pos f stop).span = ⟨pos, stop⟩ := rfl
    rw [hspan] at hself
    dsimp only at hself
    omega
  · rw [span_symbol] at hsymbol
    dsimp only at hsymbol
    omega
  · exact Or.inr hoperand

mutual
/-- Trivia can be put into a form where one of its nodes begins or ends. -/
theorem Spells.inserts {p pos : Nat} {t v w : Text} {f : Form} (h : Spells pos v f w)
    (ht : Separator t) (level : Nat) (hp : Form.IsEdge (f.preorder level) p) (hstart : pos < p)
    (hstop : p < pos + Text.width v) :
    Inserts t pos p v fun v' => Spells pos v' (f.makeRoom p (Text.width t)) w := by
  have hspan := h.span_eq
  have hinside : ¬ (p = f.span.start ∨ p = f.span.stop) := by
    rw [hspan]
    dsimp only
    omega
  cases h with
  | atom _ _ _ =>
    obtain ⟨q, hq, hedge⟩ := hp
    obtain rfl := List.mem_singleton.mp hq
    exact absurd hedge hinside
  | string _ =>
    obtain ⟨q, hq, hedge⟩ := hp
    obtain rfl := List.mem_singleton.mp hq
    exact absurd hedge hinside
  | list hfs =>
    have hitems := (Form.isEdge_cons.mp hp).resolve_left hinside
    exact (hfs.inserts ht (level + 1) hitems).list
  | @quote _ op k v _ f hop hk hf =>
    rw [hspan] at hinside
    rw [Text.width_append, Text.width_append] at hstop
    rcases isEdge_quoted hp hstart (by omega) with heq | hoperand
    · exact Spells.inserts_gap (x := []) ht hop hf rfl ((ht.trivia _).append hk) heq
    · obtain ⟨q, hq, hedge⟩ := id hoperand
      have hbounds := (hf.located (level + 1) hq).bounds
      by_cases hgt : pos + Text.width op.sign + Text.width k < p
      · have hinner := hf.inserts ht (level + 1) hoperand hgt (by omega)
        exact hinner.operand ht hop hk hf.ne_nil (by omega)
      · have hk' : Trivia k (t ++ [] ++ (v ++ w)) := hf.trivia_follow hk
        exact Spells.inserts_gap ht hop hf (List.append_nil k).symm
          (hk'.append ((ht.trivia _).append .nil)) (by omega)

/-- Trivia can be put into forms where one of their nodes begins or ends. -/
theorem SpellsAll.inserts {p pos : Nat} {t v w : Text} {fs : List Form}
    (h : SpellsAll pos v fs w) (ht : Separator t) (level : Nat)
    (hp : Form.IsEdge (Form.preorders level fs) p) :
    Inserts t pos p v fun v' => SpellsAll pos v' (Form.makeRoomAll p (Text.width t) fs) w := by
  cases h with
  | nil _ =>
    obtain ⟨q, hq, -⟩ := hp
    exact absurd hq List.not_mem_nil
  | @cons _ k v v' _ f fs hk hf hfs =>
    have hne : v ++ v' ≠ [] := fun he => hf.ne_nil (List.append_eq_nil_iff.mp he).1
    refine .trivia_append ?_ (by rwa [List.append_assoc]) hne
    rcases Form.isEdge_append.mp hp with hform | hforms
    · obtain ⟨q, hq, hedge⟩ := id hform
      have hbounds := (hf.located level hq).bounds
      rcases Nat.lt_trichotomy p (pos + Text.width k) with hlt | heq | hgt
      · omega
      · subst heq
        exact SpellsAll.inserts_front (.cons (k := []) .nil hf hfs) ht
      · by_cases hstop : p < pos + Text.width k + Text.width v
        · exact (hf.inserts ht level hform hgt hstop).append_forms hfs
        · obtain rfl : p = pos + Text.width k + Text.width v := by omega
          exact (hfs.inserts_front ht).form_append rfl hf
    · exact (hfs.inserts ht level hforms).form_append rfl hf
end

/-! ## Sources -/

/-- Trivia behind an interpreter line, or at the beginning of a source that has none. -/
theorem InterpreterLine.insert {allowed : Bool} {line : Text}
    (h : InterpreterLine allowed line (a ++ b)) (hne : a ++ b ≠ []) (ht : Separator t) :
    InterpreterLine allowed line (a ++ (t ++ b)) := by
  generalize hv : a ++ b = v at h
  cases h with
  | line ha hline => exact .line ha hline
  | lastLine _ _ => exact absurd hv hne
  | absent hn =>
    by_cases hnil : t = []
    · subst hnil
      rw [List.nil_append, hv]
      exact .absent hn
    apply InterpreterLine.absent
    intro ha hp
    have hatom := (ht.trivia b).not_startsConstituent hnil b
    rcases shebang_prefix_append hp with hp | ⟨-, z, hz⟩ | ⟨-, z, hz⟩
    · rw [← hv] at hn
      exact hn ha (hp.trans (List.prefix_append a b))
    · rw [← hz] at hatom
      exact hatom (.plain (by decide) (by decide))
    · rw [hz] at hatom
      exact hatom (.plain (by decide) (by decide))

/-- Trivia can be put into a document where a node begins or ends. -/
theorem Document.insert {settings : Settings} {s : Text} (h : Document settings s fs)
    (ht : Separator t) (hp : Form.IsEdge (Form.preorders 0 fs) p) :
    ∃ a b, s = a ++ b ∧ Text.width a = p ∧
      Document settings (a ++ (t ++ b)) (Form.makeRoomAll p (Text.width t) fs) := by
  obtain ⟨line, v, rfl, hline, hfs, hdepth⟩ := h
  obtain ⟨a, b, rfl, hplace, -, hspells⟩ := hfs.inserts ht 0 hp
  have hne : a ++ b ≠ [] := by
    intro he
    rw [he] at hfs
    obtain rfl := hfs.eq_nil_of_nil
    obtain ⟨q, hq, -⟩ := hp
    exact absurd hq List.not_mem_nil
  refine ⟨line ++ a, b, by simp, ?_, line, a ++ (t ++ b), by simp, hline.insert hne ht, hspells, ?_⟩
  · rw [Text.width_append, hplace]
  · rwa [Form.depths_makeRoomAll]

end Notation

namespace Grammar

/-- Trivia between tokens has no influence. Where a node begins or ends, blank characters and
comments with their line feeds can be put into a source. It is read with the same contents, and
with the spans that make room for what was put there. -/
theorem read_insert_separator (settings : Settings) (s t : Text) (fs : List Form) (p : Nat)
    (h : (standard settings).read s = some (.ok fs)) (ht : Separator t)
    (hp : Form.IsEdge (Form.preorders 0 fs) p) :
    ∃ a b, s = a ++ b ∧ Text.width a = p ∧
      (standard settings).read (a ++ (t ++ b)) =
        some (.ok (Form.makeRoomAll p (Text.width t) fs)) ∧
      Form.sameContents fs (Form.makeRoomAll p (Text.width t) fs) = true := by
  have hg := hasNotation_standard settings
  obtain ⟨a, b, hs, ha, hdocument⟩ := (hg.document_of_read h).insert ht hp
  refine ⟨a, b, hs, ha, hg.read_of_document hdocument, ?_⟩
  rw [Form.sameContents_iff, Form.data_makeRoomAll]

/-- A comment behind an operator, whose operand begins like another operator would go on. -/
theorem read_insert_separator_operator :
    (standard ⟨true, some 1⟩).read [',', ' ', '@', ';'] =
        some (.ok [quoted .unquote 0 (.atom ['@'] ⟨2, 3⟩) 3]) ∧
      Separator [';', '\n'] ∧
      Form.IsEdge (Form.preorders 0 [quoted .unquote 0 (.atom ['@'] ⟨2, 3⟩) 3]) 1 ∧
      ∃ a b, [',', ' ', '@', ';'] = a ++ b ∧ Text.width a = 1 ∧
        (standard ⟨true, some 1⟩).read (a ++ ([';', '\n'] ++ b)) =
          some (.ok (Form.makeRoomAll 1 2 [quoted .unquote 0 (.atom ['@'] ⟨2, 3⟩) 3])) ∧
        Form.sameContents [quoted .unquote 0 (.atom ['@'] ⟨2, 3⟩) 3]
          (Form.makeRoomAll 1 2 [quoted .unquote 0 (.atom ['@'] ⟨2, 3⟩) 3]) = true := by
  have hseparator : Separator (semicolon :: ([] ++ ['\n'])) := .comment List.not_mem_nil .nil
  have hedge : Form.IsEdge (Form.preorders 0 [quoted .unquote 0 (.atom ['@'] ⟨2, 3⟩) 3]) 1 :=
    ⟨(1, symbol .unquote 0), List.mem_cons_of_mem _ List.mem_cons_self, Or.inr rfl⟩
  exact ⟨rfl, hseparator, hedge,
    read_insert_separator ⟨true, some 1⟩ [',', ' ', '@', ';'] [';', '\n'] _ 1 rfl hseparator hedge⟩

-- The operand moves behind the comment, and the list ends later; the symbol stays.
example : Form.makeRoomAll 1 2 [quoted .unquote 0 (.atom ['@'] ⟨2, 3⟩) 3] =
    [quoted .unquote 0 (.atom ['@'] ⟨4, 5⟩) 5] := by
  decide

end Grammar

end LispReader
