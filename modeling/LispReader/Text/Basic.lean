/-!
# Texts and their bytes

A text is a list of characters. Every offset in this library counts bytes of the
UTF-8 encoding, so this module measures texts in bytes and cuts them at byte
offsets. A cut inside a character, or past the end, has no result: it is not
rounded to a neighbouring boundary.
-/

namespace LispReader

/-- The characters of a source, of a token or of printed output. -/
abbrev Text := List Char

namespace Text

/-- The number of bytes of a text in UTF-8. -/
def width (t : Text) : Nat := t.foldl (fun n c => n + c.utf8Size) 0

/-- The bytes of a text in UTF-8. -/
def bytes (t : Text) : List UInt8 := t.flatMap String.utf8EncodeChar

theorem foldl_utf8Size (t : Text) (n : Nat) :
    t.foldl (fun n c => n + c.utf8Size) n = n + width t := by
  unfold width
  induction t generalizing n with
  | nil => simp
  | cons c t ih => rw [List.foldl_cons, List.foldl_cons, ih, ih (0 + _)]; omega

@[simp] theorem width_nil : width [] = 0 := rfl

@[simp] theorem width_cons (c : Char) (t : Text) : width (c :: t) = c.utf8Size + width t := by
  rw [width, List.foldl_cons, foldl_utf8Size, Nat.zero_add]

@[simp] theorem width_append (t u : Text) : width (t ++ u) = width t + width u := by
  induction t with
  | nil => simp
  | cons c t ih => rw [List.cons_append, width_cons, width_cons, ih]; omega

theorem length_bytes (t : Text) : t.bytes.length = t.width := by
  induction t with
  | nil => rfl
  | cons c t ih =>
    rw [width_cons, ← ih, bytes, List.flatMap_cons, List.length_append,
      String.length_utf8EncodeChar, bytes]

/-- The first occurrence of a character divides a text in one way only. -/
theorem divide_unique {c : Char} {a b t u : Text} (ha : c ∉ a) (hb : c ∉ b)
    (h : a ++ c :: t = b ++ c :: u) : a = b ∧ t = u := by
  induction a generalizing b with
  | nil =>
    cases b with
    | nil => exact ⟨rfl, (List.cons.inj h).2⟩
    | cons d b =>
      obtain ⟨rfl, -⟩ := List.cons.inj h
      exact absurd List.mem_cons_self hb
  | cons d a ih =>
    cases b with
    | nil =>
      obtain ⟨rfl, -⟩ := List.cons.inj h
      exact absurd List.mem_cons_self ha
    | cons e b =>
      obtain ⟨rfl, hrest⟩ := List.cons.inj h
      obtain ⟨rfl, rfl⟩ :=
        ih (List.not_mem_of_not_mem_cons ha) (List.not_mem_of_not_mem_cons hb) hrest
      exact ⟨rfl, rfl⟩

/-- What is left of a text behind its first `n` bytes. -/
def dropBytes? : Text → Nat → Option Text
  | t, 0 => some t
  | [], _ + 1 => none
  | c :: t, n + 1 => if c.utf8Size ≤ n + 1 then dropBytes? t (n + 1 - c.utf8Size) else none

/-- The first `n` bytes of a text. -/
def takeBytes? (t : Text) (n : Nat) : Option Text := go t n []
where
  /-- Collects characters, the last one first, until the bytes are used up. -/
  go : Text → Nat → Text → Option Text
  | _, 0, taken => some taken.reverse
  | [], _ + 1, _ => none
  | c :: t, n + 1, taken =>
    if c.utf8Size ≤ n + 1 then go t (n + 1 - c.utf8Size) (c :: taken) else none

@[simp] theorem dropBytes?_zero (t : Text) : dropBytes? t 0 = some t := by
  cases t <;> rfl

theorem dropBytes?_cons (c : Char) (t : Text) {n : Nat} (h : 0 < n) :
    dropBytes? (c :: t) n = if c.utf8Size ≤ n then dropBytes? t (n - c.utf8Size) else none := by
  obtain ⟨m, rfl⟩ : ∃ m, n = m + 1 := ⟨n - 1, by omega⟩
  rfl

@[simp] theorem dropBytes?_width_append (t u : Text) : dropBytes? (t ++ u) t.width = some u := by
  induction t with
  | nil => simp
  | cons c t ih =>
    have hc := c.utf8Size_pos
    rw [List.cons_append, width_cons, dropBytes?_cons c _ (by omega), if_pos (by omega),
      Nat.add_sub_cancel_left, ih]

/-- Bytes can be dropped exactly where a beginning of the text has that width. -/
theorem dropBytes?_eq_some_iff {t u : Text} {n : Nat} :
    dropBytes? t n = some u ↔ ∃ s, t = s ++ u ∧ s.width = n := by
  constructor
  · intro h
    induction t generalizing n with
    | nil =>
      cases n with
      | zero => exact ⟨[], by simpa using h, rfl⟩
      | succ n => simp [dropBytes?] at h
    | cons c t ih =>
      rcases Nat.eq_zero_or_pos n with rfl | hn
      · exact ⟨[], by simpa using h, rfl⟩
      · rw [dropBytes?_cons c t hn] at h
        split at h
        next hc =>
          obtain ⟨s, hs, hw⟩ := ih h
          exact ⟨c :: s, by simp [hs], by rw [width_cons]; omega⟩
        next => simp at h
  · rintro ⟨s, rfl, rfl⟩
    exact dropBytes?_width_append s u

theorem takeBytes?_go_append (t u taken : Text) :
    takeBytes?.go (t ++ u) (width t) taken = some (taken.reverse ++ t) := by
  induction t generalizing taken with
  | nil => cases u <;> simp [takeBytes?.go]
  | cons c t ih =>
    have hc := c.utf8Size_pos
    obtain ⟨m, hm⟩ : ∃ m, c.utf8Size + width t = m + 1 := ⟨c.utf8Size + width t - 1, by omega⟩
    rw [width_cons, List.cons_append, hm, takeBytes?.go, if_pos (by omega), ← hm,
      Nat.add_sub_cancel_left, ih]
    simp

@[simp] theorem takeBytes?_width_append (t u : Text) :
    takeBytes? (t ++ u) t.width = some t := by
  simpa [takeBytes?] using takeBytes?_go_append t u []

end Text

end LispReader
