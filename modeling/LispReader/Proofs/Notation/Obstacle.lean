import LispReader.Proofs.Notation.Spelling

/-!
# Obstacles

What keeps a text from spelling forms, and where. The first obstacle is met by
going through the text from the left: forms are read as far as they go, and then a
form is missing, cannot be completed, or is deeper than allowed. The main statement
is that a source either spells forms or meets an obstacle.
-/

namespace LispReader

namespace Notation

open Alphabet

/-- What a form would have to be a part of. -/
inductive Place where
  | source
  | list
  | quote
  deriving DecidableEq, Repr

/-- Why a text does not spell forms. -/
inductive Obstacle where
  /-- There is no form, and nothing else that could stand there. -/
  | missing (place : Place)
  /-- The source ends inside a string literal. -/
  | unterminated
  /-- An escape in a string literal is in front of a character without meaning. -/
  | badEscape (c : Char)
  /-- No more lists may be opened. -/
  | tooDeep
  deriving DecidableEq, Repr

/-- What is wrong with a source that meets an obstacle. -/
def Obstacle.cause : Obstacle → Cause
  | missing .source => .unexpected [Wanted.atom, Wanted.endOfInput, Wanted.openingParen,
      Wanted.quote, Wanted.stringLiteral]
  | missing .list => .unexpected [Wanted.atom, Wanted.closingParen, Wanted.openingParen,
      Wanted.quote, Wanted.stringLiteral]
  | missing .quote => .unexpected [Wanted.atom, Wanted.openingParen, Wanted.quote,
      Wanted.stringLiteral]
  | unterminated => .unterminatedString
  | badEscape c => .invalidEscape c
  | tooDeep => .nestingTooDeep

/-- A form begins with the text at an offset, but meets an obstacle at another one. -/
inductive Blocked : Depth → Nat → Text → Obstacle → Nat → Prop where
  | unterminated {d : Depth} {pos : Nat} {v : Text} (hv : Unclosed v) :
      Blocked d pos (quotation :: v) .unterminated (pos + 1 + Text.width v)
  | badEscape {d : Depth} {pos : Nat} {v x t : Text} {e : Char} (hv : Literal v x)
      (he : escaped? e = none) :
      Blocked d pos (quotation :: (v ++ escape :: e :: t)) (.badEscape e)
        (pos + 1 + Text.width v + 1)
  | tooDeep {d : Depth} {pos : Nat} {t : Text} {kind : Kind} (hd : d.inner? = none)
      (hk : kind = .list ∨ kind = .quote) (ho : kind.Opens t) : Blocked d pos t .tooDeep pos
  | item {d d' : Depth} {pos o : Nat} {v u : Text} {fs : List Form} {ob : Obstacle}
      (hd : d.inner? = some d') (hfs : SpellsAll (pos + 1) v fs u)
      (hdepth : d'.Admits (Form.depths fs)) (hu : Blocked d' (pos + 1 + Text.width v) u ob o) :
      Blocked d pos (openParen :: (v ++ u)) ob o
  | unclosed {d d' : Depth} {pos : Nat} {v u : Text} {fs : List Form}
      (hd : d.inner? = some d') (hfs : SpellsAll (pos + 1) v fs u)
      (hdepth : d'.Admits (Form.depths fs)) (hu : Barren u) (hc : ∀ t, u ≠ closeParen :: t) :
      Blocked d pos (openParen :: (v ++ u)) (.missing .list) (pos + 1 + Text.width v)
  | operand {d d' : Depth} {pos o : Nat} {op : QuoteOperator} {k u : Text} {ob : Obstacle}
      (hd : d.inner? = some d') (hop : op = .unquote → (k ++ u).head? ≠ some '@')
      (hk : Trivia k u) (hu : Blocked d' (pos + Text.width op.sign + Text.width k) u ob o) :
      Blocked d pos (op.sign ++ (k ++ u)) ob o
  | noOperand {d d' : Depth} {pos : Nat} {op : QuoteOperator} {k u : Text}
      (hd : d.inner? = some d') (hop : op = .unquote → (k ++ u).head? ≠ some '@')
      (hk : Trivia k u) (hu : Barren u) :
      Blocked d pos (op.sign ++ (k ++ u)) (.missing .quote)
        (pos + Text.width op.sign + Text.width k)

/-- A source meets an obstacle at an offset, behind forms that are not too deep. -/
inductive Rejected (settings : Settings) (s : Text) : Obstacle → Nat → Prop where
  | blocked {line v u : Text} {fs : List Form} {ob : Obstacle} {o : Nat}
      (hs : s = line ++ (v ++ u)) (hline : InterpreterLine settings.allowShebang line (v ++ u))
      (hfs : SpellsAll (Text.width line) v fs u) (hdepth : settings.depth.Admits (Form.depths fs))
      (hu : Blocked settings.depth (Text.width line + Text.width v) u ob o) :
      Rejected settings s ob o
  | barren {line v u : Text} {fs : List Form}
      (hs : s = line ++ (v ++ u)) (hline : InterpreterLine settings.allowShebang line (v ++ u))
      (hfs : SpellsAll (Text.width line) v fs u) (hdepth : settings.depth.Admits (Form.depths fs))
      (hu : Barren u) (hn : u ≠ []) :
      Rejected settings s (.missing .source) (Text.width line + Text.width v)

/-- A source is rejected for what follows the forms at its front. -/
theorem rejected_iff_front {settings : Settings} {s : Text} {ob : Obstacle} {o : Nat} :
    Rejected settings s ob o ↔
    ∃ x u fs, s = x ++ u ∧ Front settings x fs u ∧
      (Blocked settings.depth (Text.width x) u ob o ∨
        Barren u ∧ u ≠ [] ∧ ob = .missing .source ∧ o = Text.width x) := by
  constructor
  · intro h
    cases h with
    | @blocked line v u fs _ _ hs hline hfs hdepth hu =>
      rw [← Text.width_append] at hu
      exact ⟨line ++ v, u, fs, by simp [hs], ⟨line, v, rfl, hline, hfs, hdepth⟩, Or.inl hu⟩
    | @barren line v u fs hs hline hfs hdepth hu hn =>
      exact ⟨line ++ v, u, fs, by simp [hs], ⟨line, v, rfl, hline, hfs, hdepth⟩,
        Or.inr ⟨hu, hn, rfl, by rw [Text.width_append]⟩⟩
  · rintro ⟨x, u, fs, hs, ⟨line, v, rfl, hline, hfs, hdepth⟩, hu | ⟨hu, hn, rfl, rfl⟩⟩
    · rw [Text.width_append] at hu
      exact .blocked (by simp [hs]) hline hfs hdepth hu
    · rw [Text.width_append]
      exact .barren (by simp [hs]) hline hfs hdepth hu hn

namespace Blocked

variable {d : Depth} {pos o : Nat} {t : Text} {ob : Obstacle}

/-- Atoms are never blocked. -/
theorem exists_opens (h : Blocked d pos t ob o) : ∃ kind : Kind, kind ≠ .atom ∧ kind.Opens t := by
  cases h with
  | unterminated _ => exact ⟨.string, by decide, .string⟩
  | badEscape _ _ => exact ⟨.string, by decide, .string⟩
  | @tooDeep _ _ _ kind _ hk ho =>
    refine ⟨kind, ?_, ho⟩
    rcases hk with rfl | rfl <;> decide
  | item _ _ _ _ => exact ⟨.list, by decide, .list⟩
  | unclosed _ _ _ _ _ => exact ⟨.list, by decide, .list⟩
  | operand _ _ _ _ => exact ⟨.quote, by decide, .sign _ _⟩
  | noOperand _ _ _ _ => exact ⟨.quote, by decide, .sign _ _⟩

theorem ne_nil (h : Blocked d pos t ob o) : t ≠ [] := by
  obtain ⟨kind, -, hkind⟩ := h.exists_opens
  exact hkind.ne_nil

/-- A beginning of a blocked form is no part of an atom, whatever follows it. -/
theorem not_startsConstituent {q z : Text} (h : Blocked d pos (q ++ z) ob o) (hq : q ≠ [])
    (u : Text) : ¬ StartsConstituent isReserved (q ++ u) := by
  obtain ⟨kind, hne, hkind⟩ := h.exists_opens
  cases q with
  | nil => exact absurd rfl hq
  | cons c q =>
    obtain ⟨hr, hc⟩ := hkind.reserved hne
    exact not_startsConstituent_of_reserved hr hc (q ++ u)

theorem not_startsTrivia (h : Blocked d pos t ob o) : ¬ StartsTrivia t := by
  obtain ⟨kind, -, hkind⟩ := h.exists_opens
  exact hkind.not_startsTrivia

/-- Only depth is an obstacle to a form at its very beginning. -/
theorem lt_or_eq_tooDeep (h : Blocked d pos t ob o) : pos < o ∨ ob = .tooDeep ∧ pos ≤ o := by
  induction h with
  | unterminated _ => exact Or.inl (by omega)
  | badEscape _ _ => exact Or.inl (by omega)
  | tooDeep _ _ _ => exact Or.inr ⟨rfl, Nat.le_refl _⟩
  | item _ _ _ _ ih =>
    rcases ih with ih | ⟨rfl, ih⟩
    · exact Or.inl (by omega)
    · exact Or.inr ⟨rfl, by omega⟩
  | unclosed _ _ _ _ _ => exact Or.inl (by omega)
  | operand _ _ _ _ ih =>
    rcases ih with ih | ⟨rfl, ih⟩
    · exact Or.inl (by omega)
    · exact Or.inr ⟨rfl, by omega⟩
  | @noOperand _ _ _ op _ _ _ _ _ _ =>
    have hpos := width_sign_pos op
    exact Or.inl (by omega)

/-- No obstacle is in front of a blocked form. -/
theorem le_offset (h : Blocked d pos t ob o) : pos ≤ o := by
  rcases h.lt_or_eq_tooDeep with hlt | ⟨-, hle⟩
  · exact Nat.le_of_lt hlt
  · exact hle

theorem lt_offset (h : Blocked d pos t ob o) (hne : ob ≠ .tooDeep) : pos < o := by
  rcases h.lt_or_eq_tooDeep with hlt | ⟨heq, -⟩
  · exact hlt
  · exact absurd heq hne

end Blocked

/-! ## Every text spells forms or meets an obstacle -/

/-- What can be said of a text that begins with a form. -/
def Settled (d : Depth) (pos : Nat) (t : Text) : Prop :=
  (∃ v f w, t = v ++ w ∧ Spells pos v f w ∧ d.Admits f.depth) ∨ ∃ ob o, Blocked d pos t ob o

/-- Forms are read up to a text that begins with none, or with a blocked one. -/
def SettledAll (d : Depth) (pos : Nat) (t : Text) : Prop :=
  ∃ v fs u, t = v ++ u ∧ SpellsAll pos v fs u ∧ d.Admits (Form.depths fs) ∧
    (Barren u ∨ ∃ ob o, Blocked d (pos + Text.width v) u ob o)

theorem settledAll_of_settled {d : Depth} (n : Nat)
    (settled : ∀ t pos, t.length ≤ n → (∃ kind : Kind, kind.Opens t) → Settled d pos t)
    (t : Text) (pos : Nat) (hn : t.length ≤ n) : SettledAll d pos t := by
  induction hm : t.length using Nat.strongRecOn generalizing t pos with
  | ind m ih =>
    obtain ⟨k, u, rfl, hk, hu⟩ := exists_trivia t
    rw [List.length_append] at hn hm
    rcases starts_cases u with hs | ho | hb
    · exact absurd hs hu
    · rcases settled u (pos + Text.width k) (by omega) ho with
        ⟨v, f, w, rfl, hf, hd⟩ | ⟨ob, o, hb⟩
      · have hv := List.length_pos_iff.mpr hf.ne_nil
        rw [List.length_append] at hn hm
        obtain ⟨v', fs, u, rfl, hfs, hds, hend⟩ :=
          ih w.length (by omega) w (pos + Text.width k + Text.width v) (by omega) rfl
        refine ⟨k ++ (v ++ v'), f :: fs, u, by simp, .cons hk hf hfs, ?_, ?_⟩
        · exact Depth.admits_max.mpr ⟨hd, hds⟩
        · rcases hend with hb | ⟨ob, o, hb⟩
          · exact Or.inl hb
          · refine Or.inr ⟨ob, o, ?_⟩
            rw [Text.width_append, Text.width_append, ← Nat.add_assoc, ← Nat.add_assoc]
            exact hb
      · exact ⟨k, [], u, rfl, .nil hk, d.admits_zero, Or.inr ⟨ob, o, hb⟩⟩
    · exact ⟨k, [], u, rfl, .nil hk, d.admits_zero, Or.inl hb⟩

/-- A list that begins with forms is blocked, or goes on with further forms up to its end. -/
theorem settled_list {d d' : Depth} {pos : Nat} {v t : Text} {fs : List Form}
    (hd : d.inner? = some d') (hfs : SpellsAll (pos + 1) v fs t)
    (hdepth : d'.Admits (Form.depths fs)) (ht : SettledAll d' (pos + 1 + Text.width v) t) :
    (∃ x gs span w, openParen :: (v ++ t) = x ++ w ∧ Spells pos x (.list (fs ++ gs) span) w ∧
      d.Admits (Form.list (fs ++ gs) span).depth) ∨
    ∃ ob o, Blocked d pos (openParen :: (v ++ t)) ob o := by
  obtain ⟨v', gs, u, rfl, hgs, hdepth', hend⟩ := ht
  have hall := hfs.append hgs
  have hadmits : d'.Admits (Form.depths (fs ++ gs)) := by
    rw [depths_append]
    exact Depth.admits_max.mpr ⟨hdepth, hdepth'⟩
  rw [← List.append_assoc]
  rcases hend with hb | ⟨ob, o, hb⟩
  · by_cases hc : ∃ w, u = closeParen :: w
    · obtain ⟨w, rfl⟩ := hc
      exact Or.inl ⟨_, gs, _, w, by simp, .list hall, (Depth.admits_succ hd).mpr hadmits⟩
    · exact Or.inr ⟨_, _, .unclosed hd hall hadmits hb fun w hw => hc ⟨w, hw⟩⟩
  · rw [Nat.add_assoc, ← Text.width_append] at hb
    exact Or.inr ⟨ob, o, .item hd hall hadmits hb⟩

theorem settled_of_opens (t : Text) (d : Depth) (pos : Nat)
    (ho : ∃ kind : Kind, kind.Opens t) : Settled d pos t := by
  induction hn : t.length using Nat.strongRecOn generalizing t d pos with
  | ind n ih =>
    have ihAll : ∀ (t' : Text) (d' : Depth) (pos' : Nat), t'.length < n →
        SettledAll d' pos' t' := by
      intro t' d' pos' hlt
      apply settledAll_of_settled t'.length ?_ t' pos' (Nat.le_refl _)
      intro u p hu ho
      exact ih u.length (by omega) u d' p ho rfl
    obtain ⟨kind, ho⟩ := ho
    cases ho with
    | atom hs =>
      obtain ⟨v, x, w, rfl, hx, hw⟩ := exists_constituents isReserved t
      have hv : v ≠ [] := by
        rintro rfl
        exact hw hs
      exact Or.inl ⟨v, _, w, rfl, .atom hx hv hw, d.admits_zero⟩
    | @string t =>
      rcases exists_literal t with ⟨v, x, w, rfl, hv⟩ | ⟨v, x, e, w, rfl, hv, he⟩ | hu
      · exact Or.inl ⟨_, _, w, by simp, .string hv, d.admits_zero⟩
      · exact Or.inr ⟨_, _, .badEscape hv he⟩
      · exact Or.inr ⟨_, _, .unterminated hu⟩
    | @list t =>
      cases hd : d.inner? with
      | none => exact Or.inr ⟨_, _, .tooDeep hd (Or.inl rfl) .list⟩
      | some d' =>
        have hitems := ihAll t d' (pos + 1) (by rw [← hn]; simp)
        rcases settled_list hd (.nil .nil) d'.admits_zero hitems with
          ⟨v, gs, span, w, ht, hlist, hdepth⟩ | hb
        · exact Or.inl ⟨v, _, w, ht, hlist, hdepth⟩
        · exact Or.inr hb
    | @quote c t hc =>
      cases hd : d.inner? with
      | none => exact Or.inr ⟨_, _, .tooDeep hd (Or.inr rfl) (.quote hc)⟩
      | some d' =>
        obtain ⟨op, r, hr, hop⟩ := exists_operator hc t
        rw [hr] at hn ⊢
        obtain ⟨k, u, rfl, hk, hu⟩ := exists_trivia r
        have hlen : u.length < n := by
          obtain ⟨c', s, hs, -⟩ := sign_eq_cons op
          rw [← hn, hs]
          simp only [List.cons_append, List.length_cons, List.length_append]
          omega
        rcases starts_cases u with hs | ho | hb
        · exact absurd hs hu
        · rcases ih u.length hlen u d' (pos + Text.width op.sign + Text.width k) ho rfl with
            ⟨v, f, w, rfl, hf, hdf⟩ | ⟨ob, o, hb⟩
          · refine Or.inl ⟨op.sign ++ (k ++ v), _, w, by simp, .quote ?_ hk hf, ?_⟩
            · intro he
              rw [← List.append_nil v, Text.head?_append_congr k hf.ne_nil [] w]
              exact hop he
            · rw [depth_quoted]
              exact (Depth.admits_succ hd).mpr hdf
          · exact Or.inr ⟨ob, o, .operand hd hop hk hb⟩
        · exact Or.inr ⟨_, _, .noOperand hd hop hk hb⟩

theorem settledAll (d : Depth) (pos : Nat) (t : Text) : SettledAll d pos t :=
  settledAll_of_settled t.length (fun u p _ ho => settled_of_opens u d p ho) t pos
    (Nat.le_refl _)

theorem exists_interpreterLine (allowed : Bool) (s : Text) :
    ∃ line v, s = line ++ v ∧ InterpreterLine allowed line v := by
  by_cases h : allowed = true ∧ shebang <+: s
  · obtain ⟨ha, t, rfl⟩ := h
    rcases exists_line t with ⟨line, v, rfl, hline⟩ | hline
    · exact ⟨shebang ++ (line ++ ['\n']), v, by simp, .line ha hline⟩
    · exact ⟨shebang ++ t, [], by simp, .lastLine ha hline⟩
  · exact ⟨[], s, rfl, .absent fun ha hs => h ⟨ha, hs⟩⟩

/-- A source that begins with forms meets an obstacle, or goes on with further forms up to
its end. -/
theorem Front.document_or_rejected {settings : Settings} {x t : Text} {fs : List Form}
    (h : Front settings x fs t) :
    (∃ gs, Document settings (x ++ t) (fs ++ gs)) ∨ ∃ ob o, Rejected settings (x ++ t) ob o := by
  obtain ⟨v, gs, u, rfl, hgs, hdepth, hend⟩ := settledAll settings.depth (Text.width x) t
  have hfront := h.append hgs hdepth
  have hsource : x ++ (v ++ u) = x ++ v ++ u := by simp
  rcases hend with hb | ⟨ob, o, hb⟩
  · by_cases hu : u = []
    · subst hu
      rw [List.append_nil]
      exact Or.inl ⟨gs, front_nil_iff.mp hfront⟩
    · exact Or.inr ⟨_, _, rejected_iff_front.mpr
        ⟨_, u, _, hsource, hfront, Or.inr ⟨hb, hu, rfl, rfl⟩⟩⟩
  · rw [← Text.width_append] at hb
    exact Or.inr ⟨ob, o, rejected_iff_front.mpr ⟨_, u, _, hsource, hfront, Or.inl hb⟩⟩

/-- A source is a document, or meets an obstacle. -/
theorem document_or_rejected (settings : Settings) (s : Text) :
    (∃ fs, Document settings s fs) ∨ ∃ ob o, Rejected settings s ob o := by
  obtain ⟨line, t, rfl, hline⟩ := exists_interpreterLine settings.allowShebang s
  have hfront : Front settings line [] t :=
    ⟨line, [], by simp, hline, .nil .nil, settings.depth.admits_zero⟩
  exact hfront.document_or_rejected

end Notation

end LispReader
