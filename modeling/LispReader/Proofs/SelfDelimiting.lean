import LispReader.Span
import LispReader.Text.Quoted

/-!
# Texts that tell where they end

A line of an outline puts a span, a content and a piece of the source behind each other, and is
read from the left. Each of them tells what was written and where it ends, whatever stands behind
it: a numeral ends at the first character that is no digit, and a quoted text at the first
quotation mark that no backslash stands in front of. A content may hold anything, quotation marks
and line feeds included, but its quoted form has no line feed in it.
-/

namespace LispReader

namespace Text

/-- What is written for a thing tells the thing, and where it ends, whatever stands behind it. -/
def SelfDelimiting {α : Type} (write : α → Text) : Prop :=
  ∀ ⦃a b : α⦄ ⦃t u : Text⦄, write a ++ t = write b ++ u → a = b ∧ t = u

/-- Things in a row are told one by one, up to a character that none of them begins with. -/
theorem SelfDelimiting.flatMap_inj {α : Type} {write : α → Text} {stop : Char}
    (h : SelfDelimiting write) (hstop : ∀ a, ∃ c v, write a = c :: v ∧ c ≠ stop)
    {as bs : List α} {t u : Text}
    (htext : as.flatMap write ++ stop :: t = bs.flatMap write ++ stop :: u) :
    as = bs ∧ t = u := by
  induction as generalizing bs with
  | nil =>
    cases bs with
    | nil => exact ⟨rfl, (List.cons.inj htext).2⟩
    | cons b bs =>
      obtain ⟨c, v, hb, hc⟩ := hstop b
      rw [List.flatMap_cons, hb] at htext
      exact absurd (List.cons.inj htext).1.symm hc
  | cons a as ih =>
    cases bs with
    | nil =>
      obtain ⟨c, v, ha, hc⟩ := hstop a
      rw [List.flatMap_cons, ha] at htext
      exact absurd (List.cons.inj htext).1 hc
    | cons b bs =>
      rw [List.flatMap_cons, List.flatMap_cons, List.append_assoc, List.append_assoc] at htext
      obtain ⟨rfl, hrest⟩ := h htext
      obtain ⟨rfl, rfl⟩ := ih hrest
      exact ⟨rfl, rfl⟩

/-! ## Numerals -/

section Numerals

variable {b m n : Nat} {c stop : Char}

theorem digitChar_inj_of_lt : ∀ m < 16, ∀ n < 16, Nat.digitChar m = Nat.digitChar n → m = n := by
  decide

theorem length_toDigits_of_lt (h : n < b) : (Nat.toDigits b n).length = 1 := by
  rw [Nat.toDigits_of_lt_base h, List.length_singleton]

theorem length_toDigits_of_le (hb : 1 < b) (h : b ≤ n) : 1 < (Nat.toDigits b n).length := by
  have hfront : 0 < (Nat.toDigits b (n / b)).length := Nat.length_toDigits_pos
  rw [Nat.toDigits_of_base_le hb h, List.length_append, List.length_singleton]
  omega

theorem toDigits_injective (hb : 1 < b) (hb' : b ≤ 16)
    (h : Nat.toDigits b m = Nat.toDigits b n) : m = n := by
  induction m using Nat.strongRecOn generalizing n with
  | ind m ih =>
    have hlength := congrArg List.length h
    rcases Nat.lt_or_ge m b with hm | hm <;> rcases Nat.lt_or_ge n b with hn | hn
    · rw [Nat.toDigits_of_lt_base hm, Nat.toDigits_of_lt_base hn] at h
      exact digitChar_inj_of_lt m (by omega) n (by omega) (List.cons.inj h).1
    · have := length_toDigits_of_le hb hn
      rw [length_toDigits_of_lt hm] at hlength
      omega
    · have := length_toDigits_of_le hb hm
      rw [length_toDigits_of_lt hn] at hlength
      omega
    · rw [Nat.toDigits_of_base_le hb hm, Nat.toDigits_of_base_le hb hn] at h
      obtain ⟨hfront, hlast⟩ := List.append_inj' h rfl
      have hdiv : m / b = n / b := ih (m / b) (Nat.div_lt_self (by omega) hb) hfront
      have hm' := Nat.mod_lt m (by omega : 0 < b)
      have hn' := Nat.mod_lt n (by omega : 0 < b)
      have hmod : m % b = n % b :=
        digitChar_inj_of_lt (m % b) (by omega) (n % b) (by omega) (List.cons.inj hlast).1
      rw [← Nat.div_add_mod m b, ← Nat.div_add_mod n b, hdiv, hmod]

theorem exists_digit_of_mem_toDigits (hb : 1 < b) (h : c ∈ Nat.toDigits b n) :
    ∃ d < b, c = Nat.digitChar d := by
  induction n using Nat.strongRecOn with
  | ind n ih =>
    rcases Nat.lt_or_ge n b with hn | hn
    · rw [Nat.toDigits_of_lt_base hn] at h
      exact ⟨n, hn, List.mem_singleton.mp h⟩
    · rw [Nat.toDigits_of_base_le hb hn] at h
      rcases List.mem_append.mp h with h | h
      · exact ih (n / b) (Nat.div_lt_self (by omega) hb) h
      · exact ⟨n % b, Nat.mod_lt n (by omega), List.mem_singleton.mp h⟩

/-- No digit of a base up to sixteen. -/
def IsNoDigit (c : Char) : Prop := ∀ d < 16, c ≠ Nat.digitChar d

instance : DecidablePred IsNoDigit := fun c =>
  inferInstanceAs (Decidable (∀ d < 16, c ≠ Nat.digitChar d))

theorem IsNoDigit.notMem_toDigits (hc : IsNoDigit c) (hb : 1 < b) (hb' : b ≤ 16) (n : Nat) :
    c ∉ Nat.toDigits b n := by
  intro h
  obtain ⟨d, hd, rfl⟩ := exists_digit_of_mem_toDigits hb h
  exact hc d (by omega) rfl

theorem newline_notMem_toDigits (hb : 1 < b) (hb' : b ≤ 16) (n : Nat) :
    '\n' ∉ Nat.toDigits b n :=
  IsNoDigit.notMem_toDigits (by decide) hb hb' n

/-- A numeral ends in front of a character that is no digit. -/
theorem toDigits_append_inj {t u : Text} (hstop : IsNoDigit stop) (hb : 1 < b) (hb' : b ≤ 16)
    (h : Nat.toDigits b m ++ stop :: t = Nat.toDigits b n ++ stop :: u) : m = n ∧ t = u := by
  obtain ⟨hdigits, hrest⟩ :=
    divide_unique (hstop.notMem_toDigits hb hb' m) (hstop.notMem_toDigits hb hb' n) h
  exact ⟨toDigits_injective hb hb' hdigits, hrest⟩

end Numerals

/-! ## Spans -/

theorem toList_render_span (s : Span) :
    s.render.toList =
      '[' :: (Nat.toDigits 10 s.start ++ ',' :: ' ' :: (Nat.toDigits 10 s.stop ++ [')'])) := by
  have hrender : s.render = "[" ++ toString s.start ++ ", " ++ toString s.stop ++ ")" := rfl
  rw [hrender]
  simp [String.toList_append]

theorem selfDelimiting_render_span : SelfDelimiting fun s : Span => s.render.toList := by
  rintro ⟨start, stop⟩ ⟨start', stop'⟩ t u h
  simp only [toList_render_span, List.cons_append, List.append_assoc, List.nil_append] at h
  obtain ⟨rfl, hstop⟩ :=
    toDigits_append_inj (by decide) (by decide) (by decide) (List.cons.inj h).2
  obtain ⟨rfl, hrest⟩ :=
    toDigits_append_inj (by decide) (by decide) (by decide) (List.cons.inj hstop).2
  exact ⟨rfl, hrest⟩

theorem newline_notMem_render_span (s : Span) : '\n' ∉ s.render.toList := by
  rw [toList_render_span]
  simp [newline_notMem_toDigits]

/-! ## Quoted texts -/

/-- The characters with a letter of their own behind a backslash. -/
def letters : List (Char × Char) :=
  [('\x00', '0'), ('\t', 't'), ('\n', 'n'), ('\r', 'r'), ('\x22', '\x22'), ('\\', '\\')]

/-- The three ways in which a character stands between quotation marks. -/
inductive QuotedAs : Char → Text → Prop where
  | plain {c : Char} (hc : c ∉ ['\x22', '\\', '\n']) : QuotedAs c [c]
  | letter {c letter : Char} (h : (c, letter) ∈ letters) : QuotedAs c ['\\', letter]
  | codePoint {c : Char} :
      QuotedAs c ('\\' :: 'u' :: '\x7b' :: (Nat.toDigits 16 c.toNat ++ ['\x7d']))

theorem quotedAs_quotedChar (c : Char) : QuotedAs c (quotedChar c) := by
  unfold quotedChar
  split
  next h => subst h; exact .letter (by decide)
  split
  next h => subst h; exact .letter (by decide)
  split
  next h => subst h; exact .letter (by decide)
  split
  next h => subst h; exact .letter (by decide)
  split
  next h => subst h; exact .letter (by decide)
  split
  next h => subst h; exact .letter (by decide)
  split
  next => exact .plain (by simp [*])
  next => exact .codePoint

theorem letters_unique : ∀ p ∈ letters, ∀ q ∈ letters, p.2 = q.2 → p = q := by decide

theorem letters_ne_u : ∀ p ∈ letters, p.2 ≠ 'u' := by decide

namespace QuotedAs

variable {c d : Char} {v w t u : Text}

theorem inj (h : QuotedAs c v) (h' : QuotedAs d w) (heq : v ++ t = w ++ u) : c = d ∧ t = u := by
  cases h with
  | plain hc =>
    cases h' with
    | plain hd => exact List.cons.inj heq
    | letter _ => exact absurd (by simp [(List.cons.inj heq).1]) hc
    | codePoint => exact absurd (by simp [(List.cons.inj heq).1]) hc
  | letter hc =>
    cases h' with
    | plain hd => exact absurd (by simp [← (List.cons.inj heq).1]) hd
    | letter hd =>
      obtain ⟨hletter, hrest⟩ := List.cons.inj (List.cons.inj heq).2
      exact ⟨(Prod.mk.inj (letters_unique _ hc _ hd hletter)).1, hrest⟩
    | codePoint =>
      obtain ⟨hletter, -⟩ := List.cons.inj (List.cons.inj heq).2
      exact absurd hletter (letters_ne_u _ hc)
  | codePoint =>
    cases h' with
    | plain hd => exact absurd (by simp [← (List.cons.inj heq).1]) hd
    | letter hd =>
      obtain ⟨hletter, -⟩ := List.cons.inj (List.cons.inj heq).2
      exact absurd hletter.symm (letters_ne_u _ hd)
    | codePoint =>
      simp only [List.cons_append, List.append_assoc, List.nil_append] at heq
      have hdigits := (List.cons.inj (List.cons.inj (List.cons.inj heq).2).2).2
      obtain ⟨hcode, hrest⟩ :=
        toDigits_append_inj (by decide) (by decide) (by decide) hdigits
      exact ⟨Char.toNat_inj.mp hcode, hrest⟩

theorem newline_notMem (h : QuotedAs c v) : '\n' ∉ v := by
  cases h with
  | plain hc =>
    rintro hmem
    rw [← List.mem_singleton.mp hmem] at hc
    exact absurd (by simp) hc
  | letter hc =>
    have hletter : ∀ p ∈ letters, '\n' ≠ p.2 := by decide
    simp [hletter _ hc]
  | codePoint => simp [newline_notMem_toDigits]

theorem exists_head (h : QuotedAs c v) : ∃ d w, v = d :: w ∧ d ≠ '\x22' := by
  cases h with
  | plain hc =>
    refine ⟨c, [], rfl, ?_⟩
    rintro rfl
    exact absurd (by simp) hc
  | letter _ => exact ⟨'\\', _, rfl, by decide⟩
  | codePoint => exact ⟨'\\', _, rfl, by decide⟩

end QuotedAs

/-- A quoted text tells the text, whatever the text holds. -/
theorem selfDelimiting_quoted : SelfDelimiting quoted := by
  have hchar : SelfDelimiting quotedChar := fun c d _ _ h =>
    (quotedAs_quotedChar c).inj (quotedAs_quotedChar d) h
  intro a b t u h
  simp only [quoted, List.cons_append, List.append_assoc, List.nil_append] at h
  exact hchar.flatMap_inj (fun c => (quotedAs_quotedChar c).exists_head) (List.cons.inj h).2

theorem newline_notMem_quoted (t : Text) : '\n' ∉ quoted t := by
  have hbody : '\n' ∉ t.flatMap quotedChar := by
    intro h
    obtain ⟨c, -, hc⟩ := List.mem_flatMap.mp h
    exact (quotedAs_quotedChar c).newline_notMem hc
  simp [quoted, hbody]

end Text

end LispReader
