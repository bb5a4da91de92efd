import Mathlib.Data.Nat.Basic
import LispReader.Text.Utf8

/-!
# Bytes of characters

The decoder knows characters by their bytes alone: which ones can begin a character,
which can go on with it, and which number they spell. This module proves that it knows
exactly the encodings of characters and their beginnings. The tables in it are those of
the standard, one constructor for each length; overlong forms, surrogates and numbers
that are too large are not in them.
-/

namespace LispReader

namespace Utf8

open String (utf8EncodeChar)

/-! ## Classes of bytes -/

theorem isContinuation_iff {b : UInt8} :
    isContinuation b = true ↔ 0x80 ≤ b.toNat ∧ b.toNat ≤ 0xbf := by
  simp [isContinuation, UInt8.le_iff_toNat_le]

theorem isLead_iff {b : UInt8} : isLead b = true ↔ 0xc2 ≤ b.toNat ∧ b.toNat ≤ 0xf4 := by
  simp [isLead, UInt8.le_iff_toNat_le]

theorem isSecond_iff {a b : UInt8} :
    isSecond a b = true ↔ 0x80 ≤ b.toNat ∧ b.toNat ≤ 0xbf ∧ (a.toNat = 0xe0 → 0xa0 ≤ b.toNat) ∧
      (a.toNat = 0xed → b.toNat ≤ 0x9f) ∧ (a.toNat = 0xf0 → 0x90 ≤ b.toNat) ∧
      (a.toNat = 0xf4 → b.toNat ≤ 0x8f) := by
  unfold isSecond
  simp only [← UInt8.toNat_inj, UInt8.reduceToNat]
  split
  · simp [UInt8.le_iff_toNat_le]; omega
  split
  · simp [UInt8.le_iff_toNat_le]; omega
  split
  · simp [UInt8.le_iff_toNat_le]; omega
  split
  · simp [UInt8.le_iff_toNat_le]; omega
  · rw [isContinuation_iff]
    omega

theorem exists_isSecond (a : UInt8) : ∃ b, isSecond a b := by
  by_cases ha : a = 0xe0
  · exact ⟨0xa0, by subst ha; decide⟩
  by_cases ha : a = 0xf0
  · exact ⟨0x90, by subst ha; decide⟩
  · refine ⟨0x80, isSecond_iff.mpr ?_⟩
    simp_all [← UInt8.toNat_inj]

/-! ## Whole characters -/

/-- The bytes that spell the character with some number. -/
inductive Spelled : List UInt8 → Nat → Prop where
  | one {a : UInt8} {v : Nat} (ha : a.toNat < 0x80) (hv : v = a.toNat) : Spelled [a] v
  | two {a b : UInt8} {v : Nat} (ha : isLead a) (hmax : a.toNat < 0xe0) (hb : isSecond a b)
      (hv : v = shiftIn (a.toNat % 32) b) : Spelled [a, b] v
  | three {a b c : UInt8} {v : Nat} (ha : isLead a) (hmin : 0xe0 ≤ a.toNat)
      (hmax : a.toNat < 0xf0) (hb : isSecond a b) (hc : isContinuation c)
      (hv : v = shiftIn (shiftIn (a.toNat % 16) b) c) : Spelled [a, b, c] v
  | four {a b c d : UInt8} {v : Nat} (ha : isLead a) (hmin : 0xf0 ≤ a.toNat)
      (hb : isSecond a b) (hc : isContinuation c) (hd : isContinuation d)
      (hv : v = shiftIn (shiftIn (shiftIn (a.toNat % 8) b) c) d) : Spelled [a, b, c, d] v

theorem spelled_utf8EncodeChar (c : Char) : Spelled (utf8EncodeChar c) c.toNat := by
  have hv : c.val.toNat < 0xd800 ∨ 0xdfff < c.val.toNat ∧ c.val.toNat < 0x110000 := c.valid
  have hval : c.toNat = c.val.toNat := rfl
  unfold utf8EncodeChar
  rw [hval]
  generalize c.val.toNat = v at hv
  dsimp only
  split
  · refine .one ?_ ?_ <;> simp only [UInt8.toNat_ofNat'] <;> omega
  split
  · refine .two (isLead_iff.mpr ?_) ?_ (isSecond_iff.mpr ?_) ?_ <;>
      simp only [shiftIn, UInt8.toNat_ofNat'] <;> omega
  split
  · refine .three (isLead_iff.mpr ?_) ?_ ?_ (isSecond_iff.mpr ?_) (isContinuation_iff.mpr ?_) ?_ <;>
      simp only [shiftIn, UInt8.toNat_ofNat'] <;> omega
  · refine .four (isLead_iff.mpr ?_) ?_ (isSecond_iff.mpr ?_) (isContinuation_iff.mpr ?_)
      (isContinuation_iff.mpr ?_) ?_ <;> simp only [shiftIn, UInt8.toNat_ofNat'] <;> omega

variable {p q : List UInt8} {v : Nat}

/-- The second byte keeps surrogates and numbers that are too large out. -/
theorem Spelled.isValidChar (h : Spelled q v) : v.isValidChar := by
  unfold Nat.isValidChar
  cases h with
  | one ha hv => omega
  | two ha hmax hb hv =>
    rw [isLead_iff] at ha
    rw [isSecond_iff] at hb
    simp only [shiftIn] at hv
    omega
  | three ha hmin hmax hb hc hv =>
    rw [isSecond_iff] at hb
    rw [isContinuation_iff] at hc
    simp only [shiftIn] at hv
    omega
  | four ha hmin hb hc hd hv =>
    rw [isLead_iff] at ha
    rw [isSecond_iff] at hb
    rw [isContinuation_iff] at hc hd
    simp only [shiftIn] at hv
    omega

theorem toNat_ofNat_of_isValidChar (h : v.isValidChar) : (Char.ofNat v).val.toNat = v := by
  unfold Char.ofNat
  rw [dif_pos h]
  rfl

/-- What is spelled is the encoding of a character. -/
theorem Spelled.utf8EncodeChar_ofNat (h : Spelled q v) : utf8EncodeChar (Char.ofNat v) = q := by
  unfold utf8EncodeChar
  rw [toNat_ofNat_of_isValidChar h.isValidChar]
  dsimp only
  cases h with
  | one ha hv =>
    rw [if_pos (by omega), hv]
    simp
  | two ha hmax hb hv =>
    rw [isLead_iff] at ha
    rw [isSecond_iff] at hb
    simp only [shiftIn] at hv
    rw [if_neg (by omega), if_pos (by omega)]
    simp only [List.cons.injEq, ← UInt8.toNat_inj, UInt8.toNat_ofNat', and_true]
    omega
  | three ha hmin hmax hb hc hv =>
    rw [isSecond_iff] at hb
    rw [isContinuation_iff] at hc
    simp only [shiftIn] at hv
    rw [if_neg (by omega), if_neg (by omega), if_pos (by omega)]
    simp only [List.cons.injEq, ← UInt8.toNat_inj, UInt8.toNat_ofNat', and_true]
    omega
  | four ha hmin hb hc hd hv =>
    rw [isLead_iff] at ha
    rw [isSecond_iff] at hb
    rw [isContinuation_iff] at hc hd
    simp only [shiftIn] at hv
    rw [if_neg (by omega), if_neg (by omega), if_neg (by omega)]
    simp only [List.cons.injEq, ← UInt8.toNat_inj, UInt8.toNat_ofNat', and_true]
    omega

theorem Spelled.classify (h : Spelled q v) : classify q = .complete (Char.ofNat v) := by
  cases h with
  | one ha hv => simp [Utf8.classify, hv, UInt8.lt_iff_toNat_lt, ha]
  | two ha hmax hb hv => simp [Utf8.classify, hv, UInt8.lt_iff_toNat_lt, hmax, hb]
  | three ha hmin hmax hb hc hv => simp [Utf8.classify, hv, UInt8.lt_iff_toNat_lt, hmax, hc]
  | four ha hmin hb hc hd hv => simp [Utf8.classify, hv, hd]

theorem classify_utf8EncodeChar (c : Char) : classify (utf8EncodeChar c) = .complete c := by
  rw [(spelled_utf8EncodeChar c).classify, Char.ofNat_toNat]

theorem utf8EncodeChar_injective : Function.Injective utf8EncodeChar := by
  intro c d h
  have hc := classify_utf8EncodeChar c
  rw [h, classify_utf8EncodeChar] at hc
  exact (Kind.complete.inj hc).symm

theorem utf8EncodeChar_ne_nil (c : Char) : utf8EncodeChar c ≠ [] := by
  intro h
  have hc := classify_utf8EncodeChar c
  rw [h] at hc
  exact absurd hc nofun

/-! ## Beginnings of characters -/

/-- A character that is cut off: some bytes of it from the first one on, but not all. -/
def IsCutOff (p : List UInt8) : Prop :=
  p ≠ [] ∧ ∃ c, p <+: utf8EncodeChar c ∧ p ≠ utf8EncodeChar c

/-- The bytes with which characters of more bytes begin. -/
inductive Begun : List UInt8 → Prop where
  | one {a : UInt8} (ha : isLead a) : Begun [a]
  | two {a b : UInt8} (ha : isLead a) (hmin : 0xe0 ≤ a.toNat) (hb : isSecond a b) : Begun [a, b]
  | three {a b c : UInt8} (ha : isLead a) (hmin : 0xf0 ≤ a.toNat) (hb : isSecond a b)
      (hc : isContinuation c) : Begun [a, b, c]

theorem Spelled.begun (h : Spelled q v) (hpre : p <+: q) (hp : p ≠ []) (hne : p ≠ q) :
    Begun p := by
  rw [List.prefix_iff_eq_take] at hpre
  generalize p.length = n at hpre
  subst hpre
  cases h with
  | one ha hv =>
    rcases n with _ | n
    · exact absurd rfl hp
    · exact absurd (by simp) hne
  | two ha hmax hb hv =>
    rcases n with _ | _ | n
    · exact absurd rfl hp
    · exact .one ha
    · exact absurd (by simp) hne
  | three ha hmin hmax hb hc hv =>
    rcases n with _ | _ | _ | n
    · exact absurd rfl hp
    · exact .one ha
    · exact .two ha hmin hb
    · exact absurd (by simp) hne
  | four ha hmin hb hc hd hv =>
    rcases n with _ | _ | _ | _ | n
    · exact absurd rfl hp
    · exact .one ha
    · exact .two ha (by omega) hb
    · exact .three ha hmin hb hc
    · exact absurd (by simp) hne

/-- Whatever has begun can be completed. -/
theorem Begun.exists_spelled (h : Begun p) : ∃ q v, Spelled q v ∧ p <+: q ∧ p ≠ q := by
  have hcont : isContinuation 0x80 := by decide
  cases h with
  | @one a ha =>
    obtain ⟨b, hb⟩ := exists_isSecond a
    by_cases h2 : a.toNat < 0xe0
    · exact ⟨_, _, .two ha h2 hb rfl, ⟨[b], rfl⟩, by simp⟩
    by_cases h3 : a.toNat < 0xf0
    · exact ⟨_, _, .three ha (by omega) h3 hb hcont rfl, ⟨[b, _], rfl⟩, by simp⟩
    · exact ⟨_, _, .four ha (by omega) hb hcont hcont rfl, ⟨[b, _, _], rfl⟩, by simp⟩
  | @two a b ha hmin hb =>
    by_cases h3 : a.toNat < 0xf0
    · exact ⟨_, _, .three ha hmin h3 hb hcont rfl, ⟨[_], rfl⟩, by simp⟩
    · exact ⟨_, _, .four ha (by omega) hb hcont hcont rfl, ⟨[_, _], rfl⟩, by simp⟩
  | three ha hmin hb hc =>
    exact ⟨_, _, .four ha hmin hb hc hcont rfl, ⟨[_], rfl⟩, by simp⟩

theorem begun_iff_isCutOff : Begun p ↔ IsCutOff p := by
  constructor
  · intro h
    obtain ⟨q, v, hq, hpre, hne⟩ := h.exists_spelled
    rw [← hq.utf8EncodeChar_ofNat] at hpre hne
    refine ⟨?_, Char.ofNat v, hpre, hne⟩
    cases h <;> exact nofun
  · rintro ⟨hp, c, hpre, hne⟩
    exact (spelled_utf8EncodeChar c).begun hpre hp hne

theorem Begun.classify (h : Begun p) : classify p = .incomplete := by
  cases h with
  | one ha =>
    have hmin := (isLead_iff.mp ha).1
    simp [Utf8.classify, UInt8.lt_iff_toNat_lt, ha]
    omega
  | two ha hmin hb => simp [Utf8.classify, UInt8.lt_iff_toNat_lt, hb]; omega
  | three ha hmin hb hc => simp [Utf8.classify, UInt8.lt_iff_toNat_lt, hc]; omega

/-- One more byte completes a character, goes on with it, or rules it out. -/
theorem classify_cases (hp : p = [] ∨ Begun p) (b : UInt8) :
    (∃ v, Spelled (p ++ [b]) v) ∨ Begun (p ++ [b]) ∨ classify (p ++ [b]) = .illFormed := by
  rcases hp with rfl | hp
  · rw [List.nil_append]
    by_cases h1 : b.toNat < 0x80
    · exact Or.inl ⟨_, .one h1 rfl⟩
    by_cases h : isLead b
    · exact Or.inr (Or.inl (.one h))
    · exact Or.inr (Or.inr (by simp [classify, h, UInt8.lt_iff_toNat_lt]; omega))
  cases hp with
  | @one a ha =>
    by_cases hb : isSecond a b
    · by_cases hmax : a.toNat < 0xe0
      · exact Or.inl ⟨_, .two ha hmax hb rfl⟩
      · exact Or.inr (Or.inl (.two ha (by omega) hb))
    · exact Or.inr (Or.inr (by simp [classify, hb]))
  | @two a a' ha hmin ha' =>
    by_cases hb : isContinuation b
    · by_cases hmax : a.toNat < 0xf0
      · exact Or.inl ⟨_, .three ha hmin hmax ha' hb rfl⟩
      · exact Or.inr (Or.inl (.three ha (by omega) ha' hb))
    · exact Or.inr (Or.inr (by simp [classify, hb]))
  | three ha hmin ha' ha'' =>
    by_cases hb : isContinuation b
    · exact Or.inl ⟨_, .four ha hmin ha' ha'' hb rfl⟩
    · exact Or.inr (Or.inr (by simp [classify, hb]))

/-! ## Encodings as a code -/

theorem IsCutOff.shorten (h : IsCutOff q) (hpre : p <+: q) (hp : p ≠ []) : IsCutOff p := by
  obtain ⟨-, c, hq, hne⟩ := h
  refine ⟨hp, c, hpre.trans hq, ?_⟩
  rintro rfl
  exact hne (hq.eq_of_length_le hpre.length_le)

/-- No character is the beginning of another one. -/
theorem not_isCutOff_utf8EncodeChar (c : Char) : ¬ IsCutOff (utf8EncodeChar c) := by
  intro h
  have hclass := (begun_iff_isCutOff.mpr h).classify
  rw [classify_utf8EncodeChar] at hclass
  exact absurd hclass nofun

theorem eq_of_prefix_utf8EncodeChar {c d : Char} (h : utf8EncodeChar c <+: utf8EncodeChar d) :
    c = d := by
  by_contra hne
  exact not_isCutOff_utf8EncodeChar c
    ⟨utf8EncodeChar_ne_nil c, d, h, fun heq => hne (utf8EncodeChar_injective heq)⟩

end Utf8

end LispReader
