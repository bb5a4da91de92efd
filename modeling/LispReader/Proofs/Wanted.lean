import LispReader.Proofs.Recognition
import LispReader.Proofs.ViablePrefix

/-!
# What a diagnostic wants

A diagnostic that lists what is wanted lists exactly that. Wherever a form is
missing, all four kinds of forms could have stood there. The end of a list is wanted
where a closing parenthesis on a new line can be right, and the end of the source
where the source is right as far as it goes. Nothing noted elsewhere on the way gets
into the list, and the list is never empty.
-/

namespace LispReader

open Alphabet

namespace Notation

/-! ## Places -/

/-- The texts that end what a place belongs to. -/
inductive Place.Ends : Place → Text → Prop where
  | source : Ends source []
  | list {t : Text} : Ends list (closeParen :: t)

theorem Place.ends_nil_iff {place : Place} : place.Ends [] ↔ place = source := by
  constructor
  · intro h
    cases h
    rfl
  · rintro rfl
    exact .source

theorem Place.ends_closeParen_iff {place : Place} {t : Text} :
    place.Ends (closeParen :: t) ↔ place = list := by
  constructor
  · intro h
    cases h
    rfl
  · rintro rfl
    exact .list

/-- What is wanted where a form is missing: any form, and the end of what it would have
been a part of. -/
theorem Place.mem_wanted_iff {place : Place} {wanted : List String}
    (h : (Obstacle.missing place).cause = .unexpected wanted) (what : String) :
    what ∈ wanted ↔
      what ∈ [Wanted.atom, Wanted.openingParen, Wanted.quote, Wanted.stringLiteral] ∨
      what = Wanted.closingParen ∧ place = list ∨
      what = Wanted.endOfInput ∧ place = source := by
  cases place with
  | source =>
    obtain rfl := Cause.unexpected.inj h
    simp only [List.mem_cons, List.not_mem_nil, or_false, reduceCtorEq, and_false, and_true]
    grind
  | list =>
    obtain rfl := Cause.unexpected.inj h
    simp only [List.mem_cons, List.not_mem_nil, or_false, reduceCtorEq, and_false, and_true]
    grind
  | quote =>
    obtain rfl := Cause.unexpected.inj h
    simp only [List.mem_cons, List.not_mem_nil, or_false, reduceCtorEq, and_false]

theorem Place.nodup_wanted {place : Place} {wanted : List String}
    (h : (Obstacle.missing place).cause = .unexpected wanted) : wanted.Nodup := by
  cases place with
  | source =>
    obtain rfl := Cause.unexpected.inj h
    decide
  | list =>
    obtain rfl := Cause.unexpected.inj h
    decide
  | quote =>
    obtain rfl := Cause.unexpected.inj h
    decide

theorem Obstacle.cause_ne_unexpectedInput (ob : Obstacle) : ob.cause ≠ .unexpectedInput := by
  cases ob with
  | missing place => cases place <;> exact nofun
  | unterminated => exact nofun
  | badEscape c => exact nofun
  | tooDeep => exact nofun

theorem Obstacle.eq_missing_of_cause {ob : Obstacle} {wanted : List String}
    (h : ob.cause = .unexpected wanted) : ∃ place, ob = missing place := by
  cases ob with
  | missing place => exact ⟨place, rfl⟩
  | unterminated => exact absurd h nofun
  | badEscape c => exact absurd h nofun
  | tooDeep => exact absurd h nofun

/-! ## Other texts at the place -/

theorem ResumesTrivia.not_startsConstituent {k u : Text} (hk : ResumesTrivia k u)
    (hu : Barren u) : ¬ StartsConstituent isReserved (k ++ u) := by
  by_cases hnil : k = []
  · rw [hnil]
    exact hu.not_startsConstituent
  · have hempty : Trivia [] [] := .nil
    exact (hk hempty).not_startsConstituent hnil u

theorem head?_ne_at {t : Text} (h : ¬ StartsConstituent isReserved t) : t.head? ≠ some '@' := by
  intro hhead
  obtain ⟨u, rfl⟩ := List.head?_eq_some_iff.mp hhead
  exact h (.plain (by decide) (by decide))

/-- A form is still missing behind more trivia, in front of any text without a form that
does not end what the form would be a part of. -/
theorem Blocked.exists_missing {d : Depth} {pos o : Nat} {t : Text} {ob : Obstacle}
    {place : Place} (h : Blocked d pos t ob o) (hob : ob = .missing place) :
    ∃ x y, t = x ++ y ∧ o = pos + Text.width x ∧ x ≠ [] ∧
      ∀ k u, ResumesTrivia k u → Barren u → ¬ place.Ends u →
        Blocked d pos (x ++ (k ++ u)) ob (o + Text.width k) := by
  induction h with
  | unterminated _ => exact absurd hob nofun
  | badEscape _ _ => exact absurd hob nofun
  | tooDeep _ _ _ => exact absurd hob nofun
  | @item d d' pos o v u fs ob hd hfs hdepth hu ih =>
    obtain ⟨x, y, rfl, rfl, hx, hext⟩ := ih hob
    refine ⟨openParen :: (v ++ x), y, by simp, ?_, nofun, ?_⟩
    · rw [Text.width_cons, Text.width_append, utf8Size_openParen]
      omega
    · intro k u hk hbarren hends
      have hstart := hu.not_startsConstituent hx (k ++ u)
      rw [List.cons_append, List.append_assoc]
      exact .item hd (hfs.follow_of_ne_nil hu.ne_nil hstart) hdepth (hext k u hk hbarren hends)
  | @unclosed d d' pos v u fs hd hfs hdepth hu hc =>
    obtain rfl := Obstacle.missing.inj hob
    refine ⟨openParen :: v, u, rfl, ?_, nofun, ?_⟩
    · rw [Text.width_cons, utf8Size_openParen, Nat.add_assoc]
    · intro k u hk hbarren hends
      have hitems := hfs.resume hk (hk.not_startsConstituent hbarren)
      rw [List.cons_append, ← List.append_assoc, Nat.add_assoc, ← Text.width_append]
      refine .unclosed hd hitems hdepth hbarren ?_
      rintro w rfl
      exact hends .list
  | @operand d d' pos o op k₀ u ob hd hop hk₀ hu ih =>
    obtain ⟨x, y, rfl, rfl, hx, hext⟩ := ih hob
    refine ⟨op.sign ++ (k₀ ++ x), y, by simp, ?_, ?_, ?_⟩
    · rw [Text.width_append, Text.width_append]
      omega
    · exact (Kind.Opens.sign op _).ne_nil
    · intro k u hk hbarren hends
      rw [List.append_assoc, List.append_assoc]
      apply Blocked.operand hd ?_ (hk₀.follow fun he => absurd he hu.ne_nil)
        (hext k u hk hbarren hends)
      intro h
      rw [Text.head?_append_congr k₀ hx (k ++ u) y]
      exact hop h
  | @noOperand d d' pos op k₀ u₀ hd hop hk₀ hu =>
    refine ⟨op.sign ++ k₀, u₀, by simp, ?_, (Kind.Opens.sign op k₀).ne_nil, ?_⟩
    · rw [Text.width_append, Nat.add_assoc]
    · intro k u hk hbarren hends
      have htrivia : Trivia (k₀ ++ k) u := hk hk₀
      have hoff : pos + Text.width op.sign + Text.width k₀ + Text.width k =
          pos + Text.width op.sign + Text.width (k₀ ++ k) := by
        rw [Text.width_append, Nat.add_assoc]
      rw [List.append_assoc, ← List.append_assoc k₀, hoff]
      refine .noOperand hd ?_ htrivia hbarren
      intro h
      by_cases hnil : k₀ = []
      · subst hnil
        exact head?_ne_at (hk.not_startsConstituent hbarren)
      · have hhead : (k₀ ++ (k ++ u)).head? = (k₀ ++ u₀).head? :=
          Text.head?_append_congr [] hnil (k ++ u) u₀
        rw [List.append_assoc, hhead]
        exact hop h

theorem Blocked.ne_missing_source {d : Depth} {pos o : Nat} {t : Text} {ob : Obstacle}
    (h : Blocked d pos t ob o) : ob ≠ .missing .source := by
  induction h with
  | unterminated _ => exact nofun
  | badEscape _ _ => exact nofun
  | tooDeep _ _ _ => exact nofun
  | item _ _ _ _ ih => exact ih
  | unclosed _ _ _ _ _ => exact nofun
  | operand _ _ _ _ ih => exact ih
  | noOperand _ _ _ _ => exact nofun

namespace Rejected

variable {settings : Settings} {s : Text} {place : Place} {o : Nat}

/-- Where a form is missing, the source in front can be followed by any text without a form
that does not end what the form would be a part of: the form is still missing. -/
theorem exists_missing (h : Rejected settings s (.missing place) o) :
    ∃ x y, s = x ++ y ∧ o = Text.width x ∧
      (place = .source → ∃ fs, Document settings x fs) ∧
      ∀ k u, ResumesTrivia k u → Barren u → ¬ place.Ends u →
        Rejected settings (x ++ (k ++ u)) (.missing place) (o + Text.width k) := by
  obtain ⟨a, u₀, fs, rfl, hfront, hu | ⟨hu, hn, hob, rfl⟩⟩ := rejected_iff_front.mp h
  · obtain ⟨x, y, rfl, rfl, hx, hext⟩ := hu.exists_missing rfl
    refine ⟨a ++ x, y, by simp, (Text.width_append a x).symm, ?_, ?_⟩
    · rintro rfl
      exact absurd rfl hu.ne_missing_source
    · intro k u hk hbarren hends
      have hstart := hu.not_startsConstituent hx (k ++ u)
      exact rejected_iff_front.mpr ⟨a, _, fs, by simp, hfront.refollow hu.ne_nil hstart,
        Or.inl (hext k u hk hbarren hends)⟩
  · obtain rfl := Obstacle.missing.inj hob
    refine ⟨a, u₀, rfl, rfl, ?_, ?_⟩
    · intro _
      exact ⟨fs, front_nil_iff.mp (hfront.refollow hn nofun)⟩
    · intro k u hk hbarren hends
      have hne : u ≠ [] := by
        rintro rfl
        exact hends .source
      exact rejected_iff_front.mpr ⟨a ++ k, u, fs, by simp,
        hfront.resume hn hk (hk.not_startsConstituent hbarren),
        Or.inr ⟨hbarren, hne, rfl, (Text.width_append a k).symm⟩⟩

/-- The place where a form is missing is told by what could stand there instead: the end of
the source, or a closing parenthesis on a new line. -/
theorem exists_place (h : Rejected settings s (.missing place) o) :
    ∃ x y, s = x ++ y ∧ o = Text.width x ∧
      (place = .source ↔ ∃ fs, Document settings x fs) ∧
      (place = .list ↔ ∃ t fs, Document settings (x ++ '\n' :: closeParen :: t) fs) := by
  obtain ⟨x, y, rfl, ho, hsource, hext⟩ := h.exists_missing
  obtain ⟨x', y', z, fs, hs, ho', hdocument, hclose⟩ := h.exists_continuation
  obtain ⟨rfl, rfl⟩ := Text.append_inj_of_width hs (ho.symm.trans ho')
  refine ⟨x, y, rfl, ho, ⟨hsource, ?_⟩, ⟨?_, ?_⟩⟩
  · rintro ⟨gs, hgs⟩
    by_cases hends : place.Ends []
    · exact Place.ends_nil_iff.mp hends
    · have hrejected := hext [] [] resumesTrivia_nil .nil hends
      rw [List.append_nil, List.append_nil] at hrejected
      exact absurd hrejected (hgs.not_rejected _ _)
  · rintro rfl
    obtain ⟨t, rfl⟩ := hclose rfl
    exact ⟨t, fs, hdocument⟩
  · rintro ⟨t, gs, hgs⟩
    by_cases hends : place.Ends (closeParen :: t)
    · exact Place.ends_closeParen_iff.mp hends
    · have hrejected := hext ['\n'] _ (resumesTrivia_newline _) .close hends
      exact absurd hrejected (hgs.not_rejected _ _)

end Rejected

end Notation

namespace Grammar

open Notation

/-- A diagnostic lists exactly what is wanted. It never has nothing to say; where it lists what
is wanted at its offset, it lists each thing once: all four kinds of forms, the closing
parenthesis if and only if one on a new line can be right, and the end of the source if and
only if the source is accepted up to there. -/
theorem mem_wanted_of_read (settings : Settings) (s : Text) (e : Diagnostic)
    (h : (standard settings).read s = some (.error e)) :
    e.cause ≠ .unexpectedInput ∧
    ∀ wanted, e.cause = .unexpected wanted → wanted.Nodup ∧
      ∃ x y, s = x ++ y ∧ Text.width x = e.offset ∧ ∀ what, what ∈ wanted ↔
        what ∈ [Wanted.atom, Wanted.openingParen, Wanted.quote, Wanted.stringLiteral] ∨
        what = Wanted.closingParen ∧
          (∃ t fs, (standard settings).read (x ++ '\n' :: ')' :: t) = some (.ok fs)) ∨
        what = Wanted.endOfInput ∧ ∃ fs, (standard settings).read x = some (.ok fs) := by
  have hg := hasNotation_standard settings
  obtain ⟨ob, o, hrejected, rfl⟩ := hg.rejected_of_read h
  refine ⟨ob.cause_ne_unexpectedInput, ?_⟩
  intro wanted hwanted
  obtain ⟨place, rfl⟩ := Obstacle.eq_missing_of_cause hwanted
  obtain ⟨x, y, hs, ho, hsource, hlist⟩ := hrejected.exists_place
  refine ⟨Place.nodup_wanted hwanted, x, y, hs, ho.symm, ?_⟩
  intro what
  simp only [hg.read_eq_ok_iff]
  rw [Place.mem_wanted_iff hwanted, hsource, hlist]
  rfl

/-- A list that misses its end behind a comment. -/
theorem mem_wanted_of_read_comment :
    (standard ⟨true, some 1⟩).read ['(', 'a', ';'] =
      some (.error ⟨.unexpected [Wanted.atom, Wanted.closingParen, Wanted.openingParen,
        Wanted.quote, Wanted.stringLiteral], ⟨1, 4⟩, 3⟩) ∧
    ∃ x y, ['(', 'a', ';'] = x ++ y ∧ Text.width x = 3 ∧ ∀ what,
      what ∈ [Wanted.atom, Wanted.closingParen, Wanted.openingParen, Wanted.quote,
          Wanted.stringLiteral] ↔
        what ∈ [Wanted.atom, Wanted.openingParen, Wanted.quote, Wanted.stringLiteral] ∨
        what = Wanted.closingParen ∧ (∃ t fs,
          (standard ⟨true, some 1⟩).read (x ++ '\n' :: ')' :: t) = some (.ok fs)) ∨
        what = Wanted.endOfInput ∧ ∃ fs, (standard ⟨true, some 1⟩).read x = some (.ok fs) :=
  ⟨rfl, ((mem_wanted_of_read ⟨true, some 1⟩ ['(', 'a', ';'] _ rfl).2 _ rfl).2⟩

end Grammar

end LispReader
