import LispReader.Span

/-!
# Sources

A source is a text that can be entered at any byte offset. Rules of a grammar ask
for the text from an offset on many times, so the answers are tabulated once. The
table is determined by the text: its proof field says which answer each entry is.
-/

namespace LispReader

namespace Text

/-- For each byte offset up to the end, the text from there on; offsets inside a
character have none. -/
def suffixTable (t : Text) : Array (Option Text) := go t #[]
where
  go : Text → Array (Option Text) → Array (Option Text)
  | [], table => table.push (some [])
  | c :: t, table => go t (table.push (some (c :: t)) ++ Array.replicate (c.utf8Size - 1) none)

theorem suffixTable_go (t : Text) (table : Array (Option Text)) (p : Nat) :
    ((suffixTable.go t table)[p]?).join =
      if p < table.size then (table[p]?).join else dropBytes? t (p - table.size) := by
  induction t generalizing table with
  | nil =>
    rw [suffixTable.go, Array.getElem?_push]
    split
    next h => simp [h]
    next h =>
      split
      next => simp [*]
      next h' =>
        obtain ⟨k, hk⟩ : ∃ k, p - table.size = k + 1 := ⟨p - table.size - 1, by omega⟩
        rw [Array.getElem?_eq_none (by omega), hk]
        rfl
  | cons c t ih =>
    have hc := c.utf8Size_pos
    rw [suffixTable.go, ih]
    have hsize : (table.push (some (c :: t)) ++ Array.replicate (c.utf8Size - 1) none).size =
        table.size + c.utf8Size := by
      simp
      omega
    rw [hsize]
    rcases Nat.lt_trichotomy p table.size with h | h | h
    · rw [if_pos (by omega), if_pos h, Array.getElem?_append_left (by simp; omega),
        Array.getElem?_push_lt h, Array.getElem?_eq_getElem h]
    · subst h
      rw [if_pos (by omega), if_neg (by omega), Nat.sub_self, dropBytes?_zero,
        Array.getElem?_append_left (by simp), Array.getElem?_push_size]
      rfl
    · rw [if_neg (by omega : ¬ p < table.size), dropBytes?_cons c t (by omega)]
      split
      next h' =>
        rw [if_neg (by omega), Array.getElem?_append_right (by simp; omega)]
        rw [Array.getElem?_replicate]
        split <;> rfl
      next h' => rw [if_pos (by omega), Nat.sub_sub]

theorem suffixTable_spec (t : Text) (p : Nat) :
    ((suffixTable t)[p]?).join = dropBytes? t p := by
  rw [suffixTable, suffixTable_go]
  simp

end Text

/-- A text with a table of its suffixes by byte offset. -/
structure Source where
  text : Text
  suffixes : Array (Option Text) := Text.suffixTable text
  suffixes_spec : ∀ p, (suffixes[p]?).join = Text.dropBytes? text p := by
    exact Text.suffixTable_spec _

namespace Source

/-- The source with a given text. -/
def ofText (t : Text) : Source := ⟨t, Text.suffixTable t, Text.suffixTable_spec t⟩

/-- The number of bytes. -/
def width (s : Source) : Nat := Text.width s.text

/-- The text from a byte offset on, if the offset is a character boundary. -/
def suffix? (s : Source) (p : Nat) : Option Text := (s.suffixes[p]?).join

/-- The text from a byte offset on; it is empty for an offset that is past the
end or inside a character. -/
def rest (s : Source) (p : Nat) : Text := (s.suffix? p).getD []

/-- The piece that a span delimits, provided that both its ends are character
boundaries, in order. -/
def slice? (s : Source) (span : Span) : Option Text := do
  let n ← span.width?
  (← s.suffix? span.start).takeBytes? n

@[simp] theorem text_ofText (t : Text) : (ofText t).text = t := rfl

theorem suffix?_eq (s : Source) (p : Nat) : s.suffix? p = Text.dropBytes? s.text p :=
  s.suffixes_spec p

theorem rest_eq (s : Source) (p : Nat) : s.rest p = (Text.dropBytes? s.text p).getD [] := by
  rw [rest, suffix?_eq]

@[simp] theorem rest_zero (s : Source) : s.rest 0 = s.text := by
  rw [rest_eq, Text.dropBytes?_zero, Option.getD_some]

theorem slice?_eq (s : Source) (span : Span) : s.slice? span = span.slice? s.text := by
  rw [slice?, Span.slice?, suffix?_eq]

end Source

end LispReader
