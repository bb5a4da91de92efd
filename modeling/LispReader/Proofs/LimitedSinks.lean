import LispReader.Form.Writer

/-!
# Writing to a sink with limited room

Forms are handed over in pieces, and a sink may run out of room inside any of them. How the
output was cut into pieces does not show: a sink takes the pieces one after another as it would
take all of them at once. So what a sink has accepted when it refuses is a beginning of the whole
output, as long as its room, and nothing is refused that fits.
-/

namespace LispReader

namespace Sink

variable {s : Sink} {n : Nat}

/-! ## One piece after another -/

theorem put_of_unlimited (h : s.room = none) (piece : List UInt8) :
    s.put piece = (⟨none, s.accepted ++ piece⟩, true) := by
  simp only [put, h]

theorem put_of_fits (h : s.room = some n) {piece : List UInt8} (hfits : piece.length ≤ n) :
    s.put piece = (⟨some (n - piece.length), s.accepted ++ piece⟩, true) := by
  simp only [put, h, if_pos hfits]

theorem put_of_exceeds (h : s.room = some n) {piece : List UInt8} (hexceeds : n < piece.length) :
    s.put piece = (⟨some 0, s.accepted ++ piece.take n⟩, false) := by
  simp only [put, h, if_neg (Nat.not_le.mpr hexceeds)]

theorem put_nil (s : Sink) : s.put [] = (s, true) := by
  cases s with
  | mk room accepted =>
    cases room with
    | none => simp [put]
    | some n => simp [put]

theorem accept_append (accepted : Array UInt8) (piece rest : List UInt8) :
    accepted ++ (piece ++ rest) = accepted ++ piece ++ rest := by
  apply Array.ext'
  simp only [Array.toList_appendList, List.append_assoc]

/-- After a piece that was accepted, another one is taken like the rest of a longer piece. -/
theorem put_append_of_accepted {s' : Sink} {piece : List UInt8} (h : s.put piece = (s', true))
    (rest : List UInt8) : s.put (piece ++ rest) = s'.put rest := by
  cases hroom : s.room with
  | none =>
    rw [put_of_unlimited hroom] at h
    obtain ⟨rfl, -⟩ := Prod.mk.inj h
    rw [put_of_unlimited hroom, put_of_unlimited rfl, accept_append]
  | some n =>
    by_cases hfits : piece.length ≤ n
    · rw [put_of_fits hroom hfits] at h
      obtain ⟨rfl, -⟩ := Prod.mk.inj h
      by_cases hall : (piece ++ rest).length ≤ n
      · have hrest : rest.length ≤ n - piece.length := by
          rw [List.length_append] at hall
          omega
        rw [put_of_fits hroom hall, put_of_fits rfl hrest, accept_append, List.length_append,
          Nat.sub_sub]
      · have hrest : n - piece.length < rest.length := by
          rw [List.length_append] at hall
          omega
        rw [put_of_exceeds hroom (Nat.not_le.mp hall), put_of_exceeds rfl hrest,
          List.take_append, List.take_of_length_le hfits, accept_append]
    · rw [put_of_exceeds hroom (Nat.not_le.mp hfits)] at h
      exact absurd (Prod.mk.inj h).2 nofun

/-- A piece that was refused is refused at the same place when more stands behind it. -/
theorem put_append_of_refused {s' : Sink} {piece : List UInt8} (h : s.put piece = (s', false))
    (rest : List UInt8) : s.put (piece ++ rest) = (s', false) := by
  cases hroom : s.room with
  | none =>
    rw [put_of_unlimited hroom] at h
    exact absurd (Prod.mk.inj h).2 nofun
  | some n =>
    by_cases hfits : piece.length ≤ n
    · rw [put_of_fits hroom hfits] at h
      exact absurd (Prod.mk.inj h).2 nofun
    · have hexceeds := Nat.not_le.mp hfits
      have hall : n < (piece ++ rest).length := by
        rw [List.length_append]
        omega
      rw [put_of_exceeds hroom hexceeds] at h
      rw [put_of_exceeds hroom hall, List.take_append_of_le_length (Nat.le_of_lt hexceeds), h]

/-- Pieces are taken one after another like all of them at once. -/
theorem putAll_eq_put_flatten (s : Sink) (pieces : List (List UInt8)) :
    s.putAll pieces = s.put pieces.flatten := by
  induction pieces generalizing s with
  | nil => exact s.put_nil.symm
  | cons piece pieces ih =>
    rw [putAll, List.flatten_cons]
    cases hput : s.put piece with
    | mk s' accepted =>
      cases accepted with
      | true => exact (ih s').trans (put_append_of_accepted hput pieces.flatten).symm
      | false => exact (put_append_of_refused hput pieces.flatten).symm

end Sink

namespace Form

theorem flatten_bytes (pieces : List Text) :
    (pieces.map Text.bytes).flatten = Text.bytes pieces.flatten := by
  induction pieces with
  | nil => rfl
  | cons piece pieces ih =>
    rw [List.map_cons, List.flatten_cons, List.flatten_cons, ih, Text.bytes, Text.bytes,
      Text.bytes, List.flatMap_append]

/-- Writing hands over the bytes of the written text, in whatever pieces. -/
theorem writeTo_eq_put (fs : List Form) (s : Sink) :
    writeTo fs s = s.put (writeAll fs).bytes := by
  rw [writeTo, Sink.putAll_eq_put_flatten, flatten_bytes, writeAll]

/-- A sink without limit takes the bytes of the written text. A sink with enough room takes the
same, and every other refuses after it has taken as many of these bytes as it has room for. -/
theorem writeTo_limited (fs : List Form) (limit : Nat) :
    writeTo fs .unlimited = (⟨none, (writeAll fs).bytes.toArray⟩, true) ∧
    ((writeAll fs).bytes.length ≤ limit →
      writeTo fs (.limited limit) =
        (⟨some (limit - (writeAll fs).bytes.length), (writeAll fs).bytes.toArray⟩, true)) ∧
    (limit < (writeAll fs).bytes.length →
      writeTo fs (.limited limit) =
        (⟨some 0, ((writeAll fs).bytes.take limit).toArray⟩, false)) := by
  refine ⟨?_, ?_, ?_⟩
  · rw [writeTo_eq_put, Sink.put_of_unlimited rfl]
    simp [Sink.unlimited]
  · intro hfits
    rw [writeTo_eq_put, Sink.put_of_fits rfl hfits]
    simp [Sink.limited]
  · intro hexceeds
    rw [writeTo_eq_put, Sink.put_of_exceeds rfl hexceeds]
    simp [Sink.limited]

/-- An atom that begins like an interpreter line, and a string with a character of two bytes. -/
def protectedAndWide : List Form := [.atom ['#', '!'] ⟨0, 0⟩, .string ['λ'] ⟨0, 0⟩]

/-- Room up to the middle of a character, room for nothing, and room for everything. -/
theorem writeTo_limited_inside_character :
    (writeAll protectedAndWide).bytes =
      [0x20, 0x23, 0x21, 0x0a, 0x22, 0xce, 0xbb, 0x22, 0x0a] ∧
    6 < (writeAll protectedAndWide).bytes.length ∧
    writeTo protectedAndWide (.limited 6) =
      (⟨some 0, #[0x20, 0x23, 0x21, 0x0a, 0x22, 0xce]⟩, false) ∧
    writeTo protectedAndWide (.limited 0) = (⟨some 0, #[]⟩, false) ∧
    writeTo protectedAndWide (.limited 9) =
      (⟨some 0, #[0x20, 0x23, 0x21, 0x0a, 0x22, 0xce, 0xbb, 0x22, 0x0a]⟩, true) := by
  have hbytes : (writeAll protectedAndWide).bytes =
      [0x20, 0x23, 0x21, 0x0a, 0x22, 0xce, 0xbb, 0x22, 0x0a] := by decide
  have hlength : (writeAll protectedAndWide).bytes.length = 9 := congrArg List.length hbytes
  refine ⟨hbytes, by omega, ?_, ?_, ?_⟩
  · rw [(writeTo_limited protectedAndWide 6).2.2 (by omega), hbytes]
    rfl
  · rw [(writeTo_limited protectedAndWide 0).2.2 (by omega), hbytes]
    rfl
  · rw [(writeTo_limited protectedAndWide 9).2.1 (by omega), hbytes]
    rfl

end Form

end LispReader
