import LispReader.Proofs.Run.Reading

/-!
# The offset of a diagnostic

A diagnostic points at the first character that cannot be right. What stands in
front of it begins some source that is accepted, and no accepted source begins with
it and the character. An escape says nothing by itself, so where the character is
an escape, the one behind it belongs to the claim.
-/

namespace LispReader

open Alphabet

namespace Notation

/-! ## The text at an obstacle -/

/-- A text begins with characters that decide: one character, or an escape and
another one. -/
inductive Decisive : Text → Text → Prop where
  | plain {c : Char} {z : Text} (hc : c ≠ escape) : Decisive [c] (c :: z)
  | escaped {c : Char} {z : Text} : Decisive [escape, c] (escape :: c :: z)

theorem Decisive.ne_nil {p y : Text} (h : Decisive p y) : p ≠ [] := by
  cases h with
  | plain _ => exact nofun
  | escaped => exact nofun

theorem Decisive.exists_append {p y : Text} (h : Decisive p y) : ∃ z, y = p ++ z := by
  cases h with
  | plain _ => exact ⟨_, rfl⟩
  | escaped => exact ⟨_, rfl⟩

theorem Barren.decisive {p u : Text} (h : Barren u) (hp : Decisive p u) (t : Text) :
    Barren (p ++ t) := by
  cases h with
  | nil => cases hp
  | close =>
    cases hp with
    | plain _ => exact .close
  | escape =>
    cases hp with
    | plain hc => exact absurd rfl hc
  | escapePlain hr =>
    cases hp with
    | plain hc => exact absurd rfl hc
    | escaped => exact .escapePlain hr

theorem Kind.Opens.of_head {kind : Kind} {c : Char} {t : Text} (h : kind.Opens (c :: t))
    (hk : kind ≠ .atom) (u : Text) : kind.Opens (c :: u) := by
  cases h with
  | list => exact .list
  | atom _ => exact absurd rfl hk
  | string => exact .string
  | quote hc => exact .quote hc

namespace Blocked

variable {d : Depth} {pos o : Nat} {t : Text} {ob : Obstacle}

/-! ## No other way to go on -/

/-- The obstacle remains when the text behind the deciding characters changes. -/
theorem exists_decisive (h : Blocked d pos t ob o) :
    ∃ x y, t = x ++ y ∧ o = pos + Text.width x ∧
      ∀ p, Decisive p y → ∀ u, Blocked d pos (x ++ (p ++ u)) ob o := by
  induction h with
  | @unterminated d pos v hv =>
    refine ⟨quotation :: v, [], (List.append_nil _).symm, ?_, ?_⟩
    · rw [Text.width_cons, utf8Size_quotation, Nat.add_assoc]
    · intro p hp
      cases hp
  | @badEscape d pos v x t e hv he =>
    refine ⟨quotation :: (v ++ [escape]), e :: t, by simp, ?_, ?_⟩
    · simp only [Text.width_cons, Text.width_append, Text.width_nil, utf8Size_quotation,
        utf8Size_escape]
      omega
    · intro p hp u
      cases hp with
      | plain _ =>
        rw [List.cons_append, List.append_assoc]
        exact .badEscape hv he
      | escaped => exact absurd he (by decide)
  | @tooDeep d pos t kind hd hk ho =>
    refine ⟨[], t, rfl, rfl, fun p hp u => .tooDeep hd hk ?_⟩
    have hne : kind ≠ .atom := by rcases hk with rfl | rfl <;> decide
    cases hp with
    | plain _ => exact ho.of_head hne u
    | escaped => exact absurd rfl (ho.reserved hne).2
  | @item d d' pos o v u fs ob hd hfs hdepth hu ih =>
    obtain ⟨x, y, rfl, rfl, hext⟩ := ih
    refine ⟨openParen :: (v ++ x), y, by simp, ?_, ?_⟩
    · rw [Text.width_cons, Text.width_append, utf8Size_openParen]
      omega
    · intro p hp t
      have hne := hu.ne_nil
      obtain ⟨z, rfl⟩ := hp.exists_append
      rw [← List.append_assoc] at hu
      have hstart := hu.not_startsConstituent (by simp [hp.ne_nil]) t
      rw [List.append_assoc] at hstart
      rw [List.cons_append, List.append_assoc]
      exact .item hd (hfs.follow_of_ne_nil hne hstart) hdepth (hext p hp t)
  | @unclosed d d' pos v u fs hd hfs hdepth hu hc =>
    refine ⟨openParen :: v, u, rfl, ?_, ?_⟩
    · rw [Text.width_cons, utf8Size_openParen, Nat.add_assoc]
    · intro p hp t
      have hb := hu.decisive hp t
      have hne : u ≠ [] := by
        rintro rfl
        cases hp
      apply Blocked.unclosed hd (hfs.follow_of_ne_nil hne hb.not_startsConstituent) hdepth hb
      intro w hw
      cases hp with
      | plain _ =>
        obtain ⟨rfl, -⟩ := List.cons.inj hw
        exact hc _ rfl
      | escaped =>
        obtain ⟨h, -⟩ := List.cons.inj hw
        exact absurd h (by decide)
  | @operand d d' pos o op k u ob hd hop hk hu ih =>
    obtain ⟨x, y, rfl, rfl, hext⟩ := ih
    refine ⟨op.sign ++ (k ++ x), y, by simp, ?_, ?_⟩
    · rw [Text.width_append, Text.width_append]
      omega
    · intro p hp t
      have hne := hu.ne_nil
      obtain ⟨z, rfl⟩ := hp.exists_append
      rw [List.append_assoc, List.append_assoc]
      apply Blocked.operand hd ?_ (hk.follow fun h => absurd h hne) (hext p hp t)
      intro h
      have hq : x ++ p ≠ [] := by simp [hp.ne_nil]
      rw [← List.append_assoc x, Text.head?_append_congr k hq t z, List.append_assoc]
      exact hop h
  | @noOperand d d' pos op k u hd hop hk hu =>
    refine ⟨op.sign ++ k, u, by simp, ?_, ?_⟩
    · rw [Text.width_append, Nat.add_assoc]
    · intro p hp t
      have hb := hu.decisive hp t
      obtain ⟨z, rfl⟩ := hp.exists_append
      have hne : p ++ z ≠ [] := by simp [hp.ne_nil]
      rw [List.append_assoc]
      apply Blocked.noOperand hd ?_ (hk.follow fun h => absurd h hne) hb
      intro h
      rw [Text.head?_append_congr k hp.ne_nil t z]
      exact hop h

end Blocked

/-! ## A way to go on -/

/-- A beginning of a form is completed by a text to a form that is not too deep. -/
def Completes (d : Depth) (pos : Nat) (x z : Text) : Prop :=
  ∃ f, (∀ w, ¬ StartsConstituent isReserved w → Spells pos (x ++ z) f w) ∧
    d.Admits (Form.depth f)

section

variable {d d' : Depth} {pos : Nat} {op : QuoteOperator} {k u v x z : Text} {fs : List Form}

theorem completes_string (h : Literal v x) :
    Completes d pos (quotation :: v) [quotation] :=
  ⟨_, fun _ _ => .string h, d.admits_zero⟩

/-- A string literal that stops behind an escape goes on with another one. -/
theorem completes_string_escape (h : Literal v x) :
    Completes d pos (quotation :: (v ++ [escape])) [escape, quotation] := by
  have hv : Literal (v ++ [escape, escape]) (x ++ [escape]) :=
    h.append (.escaped (by decide) .nil)
  have ht : quotation :: (v ++ [escape]) ++ [escape, quotation] =
      quotation :: (v ++ [escape, escape] ++ [quotation]) := by simp
  rw [Completes, ht]
  exact ⟨_, fun _ _ => .string hv, d.admits_zero⟩

/-- A list is closed behind any forms, on a new line. -/
theorem completes_list (hd : d.inner? = some d') (hfs : SpellsAll (pos + 1) v fs u)
    (hdepth : d'.Admits (Form.depths fs)) :
    Completes d pos (openParen :: v) ['\n', closeParen] := by
  have ht : openParen :: v ++ ['\n', closeParen] = openParen :: (v ++ ['\n'] ++ [closeParen]) := by
    simp
  rw [Completes, ht]
  exact ⟨_, fun w _ => .list (hfs.snoc_newline (closeParen :: w)),
    (Depth.admits_succ hd).mpr hdepth⟩

/-- A list is closed behind a form that is completed. -/
theorem completes_item (hd : d.inner? = some d') (hdepth : d'.Admits (Form.depths fs))
    (hfs : ∀ w, SpellsAll (pos + 1) v fs (x ++ w))
    (h : Completes d' (pos + 1 + Text.width v) x z) :
    Completes d pos (openParen :: (v ++ x)) (z ++ [closeParen]) := by
  obtain ⟨f, hspells, hf⟩ := h
  have hdepth' : d'.Admits (Form.depths (fs ++ [f])) := by
    rw [depths_append]
    exact Depth.admits_max.mpr ⟨hdepth, Depth.admits_max.mpr ⟨hf, d'.admits_zero⟩⟩
  have hall : ∀ w, SpellsAll (pos + 1) (v ++ (x ++ z)) (fs ++ [f]) (closeParen :: w) := by
    intro w
    have hform := hspells (closeParen :: w)
      (not_startsConstituent_of_reserved (by decide) (by decide) w)
    apply SpellsAll.append ?_ hform.spellsAll
    rw [List.append_assoc]
    exact hfs _
  have ht : openParen :: (v ++ x) ++ (z ++ [closeParen]) =
      openParen :: (v ++ (x ++ z) ++ [closeParen]) := by simp
  rw [Completes, ht]
  exact ⟨_, fun w _ => .list (hall w), (Depth.admits_succ hd).mpr hdepth'⟩

/-- An operator gets an atom for an operand, on a new line. -/
theorem completes_quote (hd : d.inner? = some d') (hk : Trivia k u)
    (hop : op = .unquote → (k ++ u).head? ≠ some '@') :
    Completes d pos (op.sign ++ k) ['\n', 'a'] := by
  have hatom : Constituents isReserved ['a'] ['a'] := .plain (by decide) (by decide) .nil
  have hhead : op = .unquote → (k ++ ['\n'] ++ ['a']).head? ≠ some '@' := by
    intro h
    by_cases hnil : k = []
    · subst hnil
      exact nofun
    · have hk' : (k ++ (['\n'] ++ ['a'])).head? = (k ++ u).head? :=
        Text.head?_append_congr [] hnil _ u
      rw [List.append_assoc, hk']
      exact hop h
  have ht : op.sign ++ k ++ ['\n', 'a'] = op.sign ++ (k ++ ['\n'] ++ ['a']) := by simp
  rw [Completes, ht]
  exact ⟨_, fun w hw => .quote hhead (hk.snoc_newline _) (.atom hatom nofun hw),
    (Depth.admits_succ hd).mpr d'.admits_zero⟩

/-- An operator in front of an operand that is completed. -/
theorem completes_operand (hd : d.inner? = some d') (hk : ∀ w, Trivia k (x ++ w))
    (hop : op = .unquote → (k ++ (x ++ z)).head? ≠ some '@')
    (h : Completes d' (pos + Text.width op.sign + Text.width k) x z) :
    Completes d pos (op.sign ++ (k ++ x)) z := by
  obtain ⟨f, hspells, hf⟩ := h
  have hk' : ∀ w, Trivia k (x ++ z ++ w) := by
    intro w
    rw [List.append_assoc]
    exact hk _
  rw [Completes, List.append_assoc, List.append_assoc]
  refine ⟨_, fun w hw => .quote hop (hk' w) (hspells w hw), ?_⟩
  rw [depth_quoted]
  exact (Depth.admits_succ hd).mpr hf

end

namespace Blocked

variable {d : Depth} {pos o : Nat} {t : Text} {ob : Obstacle}

/-- Up to the obstacle, a blocked form can be completed; there is nothing to complete
where the obstacle is at the beginning. A list that misses its end is closed first. -/
theorem exists_completion (h : Blocked d pos t ob o) :
    o = pos ∨ ∃ x y z, t = x ++ y ∧ o = pos + Text.width x ∧ x ≠ [] ∧ Completes d pos x z ∧
      (ob = .missing .list → ['\n', closeParen] <+: z) := by
  have hsign : ∀ (op : QuoteOperator) (k : Text), op.sign ++ k ≠ [] := fun op k =>
    (Kind.Opens.sign op k).ne_nil
  induction h with
  | @unterminated d pos v hv =>
    right
    cases hv with
    | plain hv =>
      refine ⟨quotation :: v, [], _, (List.append_nil _).symm, ?_, nofun, completes_string hv,
        nofun⟩
      rw [Text.width_cons, utf8Size_quotation, Nat.add_assoc]
    | @escaping v x hv =>
      refine ⟨quotation :: (v ++ [escape]), [], _, (List.append_nil _).symm, ?_, nofun,
        completes_string_escape hv, nofun⟩
      rw [Text.width_cons, utf8Size_quotation, Nat.add_assoc]
  | @badEscape d pos v x t e hv he =>
    refine Or.inr ⟨quotation :: (v ++ [escape]), e :: t, _, by simp, ?_, nofun,
      completes_string_escape hv, nofun⟩
    simp only [Text.width_cons, Text.width_append, Text.width_nil, utf8Size_quotation,
      utf8Size_escape]
    omega
  | tooDeep _ _ _ => exact Or.inl rfl
  | @item d d' pos o v u fs ob hd hfs hdepth hu ih =>
    rcases ih with rfl | ⟨x, y, z, rfl, rfl, hx, hz, hclose⟩
    · refine Or.inr ⟨openParen :: v, u, _, rfl, ?_, nofun, completes_list hd hfs hdepth,
        fun _ => List.prefix_refl _⟩
      rw [Text.width_cons, utf8Size_openParen, Nat.add_assoc]
    · have hfs' : ∀ w, SpellsAll (pos + 1) v fs (x ++ w) := fun w =>
        hfs.follow_of_ne_nil hu.ne_nil (hu.not_startsConstituent hx w)
      refine Or.inr ⟨openParen :: (v ++ x), y, _, by simp, ?_, nofun,
        completes_item hd hdepth hfs' hz, fun hob => (hclose hob).trans (List.prefix_append _ _)⟩
      rw [Text.width_cons, Text.width_append, utf8Size_openParen]
      omega
  | @unclosed d d' pos v u fs hd hfs hdepth hu hc =>
    refine Or.inr ⟨openParen :: v, u, _, rfl, ?_, nofun, completes_list hd hfs hdepth,
      fun _ => List.prefix_refl _⟩
    rw [Text.width_cons, utf8Size_openParen, Nat.add_assoc]
  | @operand d d' pos o op k u ob hd hop hk hu ih =>
    rcases ih with rfl | ⟨x, y, z, rfl, rfl, hx, hz, hclose⟩
    · refine Or.inr ⟨op.sign ++ k, u, _, by simp, ?_, hsign op k, completes_quote hd hk hop, ?_⟩
      · rw [Text.width_append, Nat.add_assoc]
      · rintro rfl
        exact absurd (hu.lt_offset nofun) (Nat.lt_irrefl _)
    · have hk' : ∀ w, Trivia k (x ++ w) := fun w => hk.follow fun h => absurd h hu.ne_nil
      have hop' : op = .unquote → (k ++ (x ++ z)).head? ≠ some '@' := by
        intro h
        rw [Text.head?_append_congr k hx z y]
        exact hop h
      refine Or.inr ⟨op.sign ++ (k ++ x), y, _, by simp, ?_, hsign op _,
        completes_operand hd hk' hop' hz, hclose⟩
      rw [Text.width_append, Text.width_append]
      omega
  | @noOperand d d' pos op k u hd hop hk hu =>
    refine Or.inr ⟨op.sign ++ k, u, _, by simp, ?_, hsign op k, completes_quote hd hk hop, nofun⟩
    rw [Text.width_append, Nat.add_assoc]

end Blocked

/-! ## Sources -/

namespace Rejected

variable {settings : Settings} {s : Text} {ob : Obstacle} {o : Nat}

/-- The obstacle remains when the source behind the deciding characters changes. -/
theorem exists_decisive (h : Rejected settings s ob o) :
    ∃ x y, s = x ++ y ∧ o = Text.width x ∧
      ∀ p, Decisive p y → ∀ t, Rejected settings (x ++ (p ++ t)) ob o := by
  obtain ⟨a, u, fs, rfl, hfront, hu | ⟨hu, hn, rfl, rfl⟩⟩ := rejected_iff_front.mp h
  · obtain ⟨x, y, rfl, rfl, hext⟩ := hu.exists_decisive
    refine ⟨a ++ x, y, by simp, (Text.width_append a x).symm, ?_⟩
    intro p hp t
    obtain ⟨z, rfl⟩ := hp.exists_append
    have hq : x ++ p ≠ [] := by simp [hp.ne_nil]
    have hstart : ¬ StartsConstituent isReserved (x ++ (p ++ t)) := by
      rw [← List.append_assoc] at hu ⊢
      exact hu.not_startsConstituent hq t
    exact rejected_iff_front.mpr ⟨a, _, fs, by simp, hfront.refollow hu.ne_nil hstart,
      Or.inl (hext p hp t)⟩
  · refine ⟨a, u, rfl, rfl, ?_⟩
    intro p hp t
    have hb := hu.decisive hp t
    exact rejected_iff_front.mpr ⟨a, _, fs, rfl, hfront.refollow hn hb.not_startsConstituent,
      Or.inr ⟨hb, by simp [hp.ne_nil], rfl, rfl⟩⟩

/-- Up to the obstacle, a source can be completed to a document. A list that misses its
end can be closed on a new line. -/
theorem exists_continuation (h : Rejected settings s ob o) :
    ∃ x y z fs, s = x ++ y ∧ o = Text.width x ∧ Document settings (x ++ z) fs ∧
      (ob = .missing .list → ['\n', closeParen] <+: z) := by
  obtain ⟨a, u, fs, rfl, hfront, hu | ⟨hu, hn, rfl, rfl⟩⟩ := rejected_iff_front.mp h
  · rcases hu.exists_completion with rfl | ⟨x, y, z, rfl, rfl, hx, ⟨f, hspells, hf⟩, hclose⟩
    · refine ⟨a, u, [], fs, rfl, rfl, ?_, ?_⟩
      · rw [List.append_nil]
        exact front_nil_iff.mp (hfront.refollow hu.ne_nil nofun)
      · rintro rfl
        exact absurd (hu.lt_offset nofun) (Nat.lt_irrefl _)
    · have hform := (hspells [] nofun).spellsAll
      have hadmits := Depth.admits_max.mpr ⟨hf, settings.depth.admits_zero⟩
      have hstart := hu.not_startsConstituent hx (z ++ [])
      rw [← List.append_assoc] at hstart
      have hend := (hfront.refollow hu.ne_nil hstart).append hform hadmits
      refine ⟨a ++ x, y, z, fs ++ [f], by simp, (Text.width_append a x).symm, ?_, hclose⟩
      rw [List.append_assoc]
      exact front_nil_iff.mp hend
  · refine ⟨a, u, [], fs, rfl, rfl, ?_, nofun⟩
    rw [List.append_nil]
    exact front_nil_iff.mp (hfront.refollow hn nofun)

theorem exists_completion (h : Rejected settings s ob o) :
    ∃ x y z fs, s = x ++ y ∧ o = Text.width x ∧ Document settings (x ++ z) fs := by
  obtain ⟨x, y, z, fs, hs, ho, hdocument, -⟩ := h.exists_continuation
  exact ⟨x, y, z, fs, hs, ho, hdocument⟩

end Rejected

end Notation

namespace Grammar

open Notation

/-- Errors are found as early as they can be. The source up to the offset of a diagnostic can
be completed to one that is accepted. With the character at the offset it cannot, or, where
that is an escape, with the character behind it as well. -/
theorem viable_prefix_of_read (settings : Settings) (s : Text) (e : Diagnostic)
    (h : (standard settings).read s = some (.error e)) :
    ∃ x y, s = x ++ y ∧ Text.width x = e.offset ∧
      (∃ t fs, (standard settings).read (x ++ t) = some (.ok fs)) ∧
      (∀ c z, y = c :: z → c ≠ '\\' →
        ∀ t fs, (standard settings).read (x ++ c :: t) ≠ some (.ok fs)) ∧
      (∀ c z, y = '\\' :: c :: z →
        ∀ t fs, (standard settings).read (x ++ '\\' :: c :: t) ≠ some (.ok fs)) := by
  have hg := hasNotation_standard settings
  obtain ⟨ob, o, hob, rfl⟩ := hg.rejected_of_read h
  obtain ⟨x, y, rfl, ho, hext⟩ := hob.exists_decisive
  obtain ⟨x', y', t, fs, hs, ho', hdocument⟩ := hob.exists_completion
  obtain ⟨rfl, rfl⟩ := Text.append_inj_of_width hs (ho.symm.trans ho')
  have hno : ∀ p, Decisive p y → ∀ t fs,
      (standard settings).read (x ++ (p ++ t)) ≠ some (.ok fs) := by
    intro p hp t fs hread
    exact absurd (hread.symm.trans (hg.read_of_rejected (hext p hp t))) nofun
  refine ⟨x, y, rfl, ho.symm, ⟨t, fs, hg.read_of_document hdocument⟩, ?_, ?_⟩
  · rintro c z rfl hc t gs
    exact hno [c] (.plain hc) t gs
  · rintro c z rfl t gs
    exact hno [escape, c] .escaped t gs

/-- An escape in front of a character that needs none, inside a list. -/
theorem viable_prefix_of_read_escape :
    ∃ x y, ['(', '\\', 'a'] = x ++ y ∧ Text.width x = 1 ∧
      (∃ t fs, (standard ⟨true, some 1⟩).read (x ++ t) = some (.ok fs)) ∧
      (∀ c z, y = c :: z → c ≠ '\\' →
        ∀ t fs, (standard ⟨true, some 1⟩).read (x ++ c :: t) ≠ some (.ok fs)) ∧
      (∀ c z, y = '\\' :: c :: z →
        ∀ t fs, (standard ⟨true, some 1⟩).read (x ++ '\\' :: c :: t) ≠ some (.ok fs)) :=
  viable_prefix_of_read ⟨true, some 1⟩ ['(', '\\', 'a']
    ⟨(Obstacle.missing .list).cause, ⟨1, 2⟩, 1⟩ rfl

end Grammar

end LispReader
