import Mathlib.Data.List.TakeWhile
import LispReader.Proofs.Utf8.Character

/-!
# Decoding does not depend on the chunks

A byte stream amounts to the bytes in front of the first empty chunk, and to how it ends
behind them. That decides what it is decoded to: the first ill-formed sequence counts
before everything else, then a failure to read, then a character that is cut off by the
end of input. An error names its bytes, and the place behind the longest text in front of
them.

The decoder of this library takes one byte at a time. A decoder that delivers text and
errors piece by piece, in whatever way it splits the text, leads to the same result if
each delivery is right about what is left.
-/

namespace LispReader

open String (utf8EncodeChar)

/-! ## What a byte stream amounts to -/

namespace ByteStream

/-- The bytes of the chunks in front of the first empty one. -/
def readable (stream : ByteStream) : List UInt8 := (stream.chunks.takeWhile (· ≠ [])).flatten

/-- Why nothing can be read behind them, unless it is the end of input. -/
def ending (stream : ByteStream) : Option String :=
  if [] ∈ stream.chunks then none else stream.failure

end ByteStream

namespace Utf8

/-- No character is at the front of some bytes. -/
def Stuck (rest : List UInt8) : Prop := ∀ c, ¬ utf8EncodeChar c <+: rest

/-- Ill-formed bytes at the front of others. They are the longest beginning of characters
that is there, or one byte if there is none, and more is wrong than that the end is missing. -/
structure Malformed (bad rest : List UInt8) : Prop where
  front : bad <+: rest
  shape : IsCutOff bad ∨ ∃ b, bad = [b]
  longest : ∀ p, p <+: rest → IsCutOff p → p <+: bad
  stuck : Stuck rest
  not_isCutOff : ¬ IsCutOff rest

/-- The error that some bytes behind a text are not UTF-8. -/
def errorBehind (t : Text) (bytes : List UInt8) : DecodeError :=
  .illFormed bytes (t.foldl Position.after Position.first).capped t.width

/-- What follows for a text and the bytes behind it, of which no more is text. -/
inductive Concludes (ending : Option String) (t : Text) :
    List UInt8 → Except DecodeError Text → Prop where
  | malformed {bad rest : List UInt8} (h : Malformed bad rest) :
      Concludes ending t rest (.error (errorBehind t bad))
  | failed {reason : String} {rest : List UInt8} (hending : ending = some reason)
      (h : rest = [] ∨ IsCutOff rest) : Concludes ending t rest (.error (.io reason))
  | cutOff {rest : List UInt8} (hending : ending = none) (h : IsCutOff rest) :
      Concludes ending t rest (.error (errorBehind t rest))
  | whole (hending : ending = none) : Concludes ending t [] (.ok t)

/-- What bytes are decoded to, given how they end. -/
def Decodes (ending : Option String) (bytes : List UInt8) (result : Except DecodeError Text) :
    Prop :=
  ∃ t rest, bytes = Text.bytes t ++ rest ∧ Concludes ending t rest result

/-! ## The longest text -/

theorem bytes_cons (c : Char) (t : Text) : Text.bytes (c :: t) = utf8EncodeChar c ++ Text.bytes t :=
  List.flatMap_cons

theorem bytes_append (t u : Text) : Text.bytes (t ++ u) = Text.bytes t ++ Text.bytes u :=
  List.flatMap_append

theorem ofOffset_width (t : Text) :
    Position.ofOffset t (Text.width t) = (t.foldl Position.after Position.first).capped := by
  have h := Position.ofOffset_width_append t []
  rwa [List.append_nil] at h

theorem stuck_nil : Stuck [] := by
  intro c h
  exact utf8EncodeChar_ne_nil c (List.prefix_nil.mp h)

theorem IsCutOff.stuck {rest : List UInt8} (h : IsCutOff rest) : Stuck rest := by
  intro c hc
  exact not_isCutOff_utf8EncodeChar c (h.shorten hc (utf8EncodeChar_ne_nil c))

theorem Concludes.stuck {ending : Option String} {t : Text} {rest : List UInt8}
    {result : Except DecodeError Text} (h : Concludes ending t rest result) : Stuck rest := by
  cases h with
  | malformed h => exact h.stuck
  | failed _ h =>
    rcases h with rfl | h
    · exact stuck_nil
    · exact h.stuck
  | cutOff _ h => exact h.stuck
  | whole _ => exact stuck_nil

/-- Where a text is followed by nothing that is text, all texts at the front are in it. -/
theorem prefix_of_stuck {t u : Text} {rest rest' : List UInt8}
    (h : Text.bytes t ++ rest = Text.bytes u ++ rest') (hrest : Stuck rest) : u <+: t := by
  induction u generalizing t with
  | nil => exact List.nil_prefix
  | cons d u ih =>
    rw [bytes_cons, List.append_assoc] at h
    cases t with
    | nil => exact absurd ⟨_, h.symm⟩ (hrest d)
    | cons c t =>
      rw [bytes_cons, List.append_assoc] at h
      have hc : utf8EncodeChar c <+: utf8EncodeChar d ++ (Text.bytes u ++ rest') := ⟨_, h⟩
      have hcd : c = d := by
        rcases List.prefix_or_prefix_of_prefix hc (List.prefix_append _ _) with hpre | hpre
        · exact eq_of_prefix_utf8EncodeChar hpre
        · exact (eq_of_prefix_utf8EncodeChar hpre).symm
      subst hcd
      exact List.prefix_cons_inj c |>.mpr (ih (List.append_cancel_left h))

theorem prefix_width_le {t u : Text} (h : u <+: t) : Text.width u ≤ Text.width t := by
  obtain ⟨v, rfl⟩ := h
  rw [Text.width_append]
  exact Nat.le_add_right _ _

theorem eq_of_stuck {t u : Text} {rest rest' : List UInt8}
    (h : Text.bytes t ++ rest = Text.bytes u ++ rest') (hrest : Stuck rest) (hrest' : Stuck rest') :
    t = u ∧ rest = rest' := by
  have htu := prefix_of_stuck h.symm hrest'
  obtain rfl := htu.eq_of_length_le (prefix_of_stuck h hrest).length_le
  exact ⟨rfl, List.append_cancel_left h⟩

/-! ## One result -/

theorem Malformed.ne_nil {bad rest : List UInt8} (h : Malformed bad rest) : bad ≠ [] := by
  rcases h.shape with hcut | ⟨b, rfl⟩
  · exact hcut.1
  · exact List.cons_ne_nil b []

theorem Malformed.not_nil_or_isCutOff {bad rest : List UInt8} (h : Malformed bad rest) :
    ¬ (rest = [] ∨ IsCutOff rest) := by
  rintro (rfl | hcut)
  · exact h.ne_nil (List.prefix_nil.mp h.front)
  · exact h.not_isCutOff hcut

theorem Malformed.prefix_of {bad bad' rest : List UInt8} (h : Malformed bad rest)
    (h' : Malformed bad' rest) : bad <+: bad' := by
  rcases h.shape with hcut | ⟨b, rfl⟩
  · exact h'.longest bad h.front hcut
  · obtain ⟨x, more, rfl⟩ := List.exists_cons_of_ne_nil h'.ne_nil
    obtain ⟨u, hu⟩ := h.front
    obtain ⟨v, hv⟩ := h'.front
    obtain ⟨rfl, -⟩ := List.cons.inj (hu.trans hv.symm)
    exact ⟨more, rfl⟩

theorem Malformed.unique {bad bad' rest : List UInt8} (h : Malformed bad rest)
    (h' : Malformed bad' rest) : bad = bad' :=
  (h.prefix_of h').eq_of_length_le (h'.prefix_of h).length_le

variable {ending : Option String}

theorem Concludes.unique {t : Text} {rest : List UInt8} {result result' : Except DecodeError Text}
    (h : Concludes ending t rest result) (h' : Concludes ending t rest result') :
    result = result' := by
  cases h with
  | malformed h =>
    cases h' with
    | malformed h' => rw [h.unique h']
    | failed _ h' => exact absurd h' h.not_nil_or_isCutOff
    | cutOff _ h' => exact absurd (Or.inr h') h.not_nil_or_isCutOff
    | whole _ => exact absurd (Or.inl rfl) h.not_nil_or_isCutOff
  | failed hending h =>
    cases h' with
    | malformed h' => exact absurd h h'.not_nil_or_isCutOff
    | failed hending' _ => rw [Option.some.inj (hending.symm.trans hending')]
    | cutOff hending' _ => exact absurd (hending.symm.trans hending') nofun
    | whole hending' => exact absurd (hending.symm.trans hending') nofun
  | cutOff hending h =>
    cases h' with
    | malformed h' => exact absurd (Or.inr h) h'.not_nil_or_isCutOff
    | failed hending' _ => exact absurd (hending.symm.trans hending') nofun
    | cutOff _ _ => rfl
    | whole _ => exact absurd rfl h.1
  | whole hending =>
    cases h' with
    | malformed h' => exact absurd (Or.inl rfl) h'.not_nil_or_isCutOff
    | failed hending' _ => exact absurd (hending.symm.trans hending') nofun
    | cutOff _ h' => exact absurd rfl h'.1
    | whole _ => rfl

theorem Decodes.unique {bytes : List UInt8} {result result' : Except DecodeError Text}
    (h : Decodes ending bytes result) (h' : Decodes ending bytes result') : result = result' := by
  obtain ⟨t, rest, rfl, h⟩ := h
  obtain ⟨t', rest', hbytes, h'⟩ := h'
  obtain ⟨rfl, rfl⟩ := eq_of_stuck hbytes h.stuck h'.stuck
  exact h.unique h'

/-! ## The decoder -/

/-- What the decoder reports where a byte rules a character out. -/
theorem malformed_of_classify {p : List UInt8} {b : UInt8} (hp : p = [] ∨ Begun p)
    (hill : classify (p ++ [b]) = .illFormed) (bs : List UInt8) :
    Malformed (if p = [] then [b] else p) (p ++ b :: bs) := by
  have hcut : ¬ IsCutOff (p ++ [b]) := by
    intro h
    rw [(begun_iff_isCutOff.mpr h).classify] at hill
    exact absurd hill nofun
  have hwhole : ∀ c, utf8EncodeChar c ≠ p ++ [b] := by
    intro c h
    rw [← h, classify_utf8EncodeChar] at hill
    exact absurd hill nofun
  have hfront : p ++ [b] <+: p ++ b :: bs := ⟨bs, by simp⟩
  have hne : p ++ [b] ≠ [] := by simp
  refine ⟨?_, ?_, ?_, ?_, fun h => hcut (h.shorten hfront hne)⟩
  · rcases hp with rfl | hp
    · exact ⟨bs, rfl⟩
    · rw [if_neg (begun_iff_isCutOff.mp hp).1]
      exact List.prefix_append _ _
  · rcases hp with rfl | hp
    · exact Or.inr ⟨b, rfl⟩
    · have hcut' := begun_iff_isCutOff.mp hp
      rw [if_neg hcut'.1]
      exact Or.inl hcut'
  · intro q hq hqcut
    rcases List.prefix_or_prefix_of_prefix hq hfront with hpre | hpre
    · rcases List.prefix_concat_iff.mp hpre with rfl | hpre
      · exact absurd hqcut hcut
      · have hp : p ≠ [] := by
          rintro rfl
          exact hqcut.1 (List.prefix_nil.mp hpre)
        rwa [if_neg hp]
    · exact absurd (hqcut.shorten hpre hne) hcut
  · intro c hc
    rcases List.prefix_or_prefix_of_prefix hc hfront with hpre | hpre
    · rcases List.prefix_concat_iff.mp hpre with heq | hpre
      · exact hwhole c heq
      · rcases hp with rfl | hp
        · exact utf8EncodeChar_ne_nil c (List.prefix_nil.mp hpre)
        · exact (begun_iff_isCutOff.mp hp).stuck c hpre
    · exact hcut ⟨hne, c, hpre, (hwhole c).symm⟩

namespace State

/-- Nothing is pending, or the beginning of characters is. -/
def Valid (s : State) : Prop := s.pending = [] ∨ Begun s.pending

/-- The bytes that were taken. -/
def taken (s : State) : List UInt8 := Text.bytes s.text ++ s.pending

variable {s : State}

theorem illFormed_eq (s : State) (bytes : List UInt8) :
    s.illFormed bytes = errorBehind s.text bytes := by
  rw [State.illFormed, errorBehind, ofOffset_width]

theorem push_cases (hs : s.Valid) (b : UInt8) :
    (∃ s', s.push b = .ok s' ∧ s'.Valid ∧ s'.taken = s.taken ++ [b]) ∨
      ∃ bad, s.push b = .error (errorBehind s.text bad) ∧
        ∀ bs, Malformed bad (s.pending ++ b :: bs) := by
  rcases classify_cases hs b with ⟨v, h⟩ | h | h
  · refine Or.inl ⟨_, by rw [push, h.classify], Or.inl rfl, ?_⟩
    rw [taken, taken, text, List.reverse_cons, bytes_append, bytes_cons,
      h.utf8EncodeChar_ofNat, text]
    simp [Text.bytes]
  · refine Or.inl ⟨_, by rw [push, h.classify], Or.inr h, ?_⟩
    rw [taken, taken, List.append_assoc]
    rfl
  · exact Or.inr ⟨_, by rw [push, h, illFormed_eq], malformed_of_classify hs h⟩

/-- All bytes are taken, or some are ill-formed behind the text in front of them. -/
theorem pushAll_cases (hs : s.Valid) (bs : List UInt8) :
    (∃ s', s.pushAll bs = .ok s' ∧ s'.Valid ∧ s'.taken = s.taken ++ bs) ∨
      ∃ t bad rest, s.pushAll bs = .error (errorBehind t bad) ∧
        s.taken ++ bs = Text.bytes t ++ rest ∧ Malformed bad rest := by
  induction bs generalizing s with
  | nil => exact Or.inl ⟨s, rfl, hs, (List.append_nil _).symm⟩
  | cons b bs ih =>
    rcases push_cases hs b with ⟨s', hpush, hs', htaken⟩ | ⟨bad, hpush, hbad⟩
    · rw [pushAll, hpush, List.append_cons, ← htaken]
      exact ih hs'
    · refine Or.inr ⟨s.text, bad, s.pending ++ b :: bs, by rw [pushAll, hpush], ?_, hbad bs⟩
      rw [taken, List.append_assoc]

/-- The result at the end of a stream. -/
def conclude (s : State) : Option String → Except DecodeError Text
  | some reason => .error (.io reason)
  | none => s.finish

/-- Only the readable bytes and the ending count. -/
theorem drain_eq (s : State) (failure : Option String) (chunks : List (List UInt8)) :
    s.drain failure chunks = (s.pushAll (ByteStream.mk chunks failure).readable).bind
      (·.conclude (ByteStream.mk chunks failure).ending) := by
  induction chunks generalizing s with
  | nil => cases failure <;> rfl
  | cons chunk chunks ih =>
    cases chunk with
    | nil => rfl
    | cons b bs =>
      have hreadable : (ByteStream.mk ((b :: bs) :: chunks) failure).readable =
          (b :: bs) ++ (ByteStream.mk chunks failure).readable := rfl
      have hending : (ByteStream.mk ((b :: bs) :: chunks) failure).ending =
          (ByteStream.mk chunks failure).ending := by
        simp [ByteStream.ending]
      rw [drain, hreadable, hending, pushAll_append]
      cases s.pushAll (b :: bs) with
      | error e => rfl
      | ok s' => exact ih s'

theorem concludes_conclude (hs : s.Valid) :
    Concludes ending s.text s.pending (s.conclude ending) := by
  have hcut : s.pending = [] ∨ IsCutOff s.pending := hs.imp_right begun_iff_isCutOff.mp
  cases ending with
  | some reason => exact .failed rfl hcut
  | none =>
    rw [conclude, finish]
    rcases hcut with hnil | hcut
    · rw [if_pos hnil, hnil]
      exact .whole rfl
    · rw [if_neg hcut.1, illFormed_eq]
      exact .cutOff rfl hcut

end State

theorem decodes_decode (stream : ByteStream) :
    Decodes stream.ending stream.readable (decode stream) := by
  rw [decode, State.drain_eq]
  rcases State.pushAll_cases (s := .initial) (Or.inl rfl) stream.readable with
    ⟨s, hpush, hs, htaken⟩ | ⟨t, bad, rest, hpush, hbytes, hbad⟩
  · rw [hpush]
    exact ⟨s.text, s.pending, htaken.symm, State.concludes_conclude hs⟩
  · rw [hpush]
    exact ⟨t, rest, hbytes, .malformed hbad⟩

/-! ## Decoders that deliver piece by piece -/

/-- What a decoder delivers next. -/
inductive Delivery where
  /-- Some more text. -/
  | piece (t : Text)
  /-- Bytes that are not UTF-8. -/
  | malformed (bytes : List UInt8)
  /-- The stream could not be read. -/
  | failed (reason : String)
  | ended

/-- Collects text up to the first delivery of another kind, which decides the result. The
number limits how many deliveries are taken. -/
def collect {σ : Type} (next : σ → Delivery × σ) : Nat → σ → Text → Option (Except DecodeError Text)
  | 0, _, _ => none
  | n + 1, s, t =>
    match next s with
    | (.piece u, s) => collect next n s (t ++ u)
    | (.malformed bytes, _) =>
      some (.error (.illFormed bytes (Position.ofOffset t (Text.width t)) (Text.width t)))
    | (.failed reason, _) => some (.error (.io reason))
    | (.ended, _) => some (.ok t)

/-- Every delivery is right about the bytes that are left, and how they end. Text is
delivered before anything that is wrong behind it, in pieces of any size. -/
structure Faithful {σ : Type} (next : σ → Delivery × σ) (ending : Option String)
    (left : σ → List UInt8) : Prop where
  piece : ∀ s t s', next s = (.piece t, s') → t ≠ [] ∧ left s = Text.bytes t ++ left s'
  malformed : ∀ s bad s', next s = (.malformed bad, s') →
    Malformed bad (left s) ∨ (ending = none ∧ IsCutOff (left s) ∧ bad = left s)
  failed : ∀ s reason s', next s = (.failed reason, s') →
    ending = some reason ∧ (left s = [] ∨ IsCutOff (left s))
  ended : ∀ s s', next s = (.ended, s') → ending = none ∧ left s = []

theorem bytes_ne_nil {t : Text} (h : t ≠ []) : Text.bytes t ≠ [] := by
  obtain ⟨c, t, rfl⟩ := List.exists_cons_of_ne_nil h
  rw [bytes_cons]
  exact List.append_ne_nil_of_left_ne_nil (utf8EncodeChar_ne_nil c) _

/-- Each piece takes bytes, so there are fewer deliveries than bytes are left, and the last
one is the result. -/
theorem Faithful.exists_collect {σ : Type} {next : σ → Delivery × σ} {left : σ → List UInt8}
    (h : Faithful next ending left) {n : Nat} {s : σ} (hn : (left s).length < n) (t : Text) :
    ∃ result, collect next n s t = some result ∧
      Decodes ending (Text.bytes t ++ left s) result := by
  induction n generalizing s t with
  | zero => exact absurd hn (Nat.not_lt_zero _)
  | succ n ih =>
    rw [collect]
    rcases hnext : next s with ⟨delivery, s'⟩
    cases delivery with
    | piece u =>
      obtain ⟨hu, hleft⟩ := h.piece s u s' hnext
      have hlength := congrArg List.length hleft
      rw [List.length_append] at hlength
      have hpos := List.length_pos_iff.mpr (bytes_ne_nil hu)
      obtain ⟨result, hresult, hdecodes⟩ := ih (by omega : (left s').length < n) (t ++ u)
      rw [bytes_append, List.append_assoc, ← hleft] at hdecodes
      exact ⟨result, hresult, hdecodes⟩
    | malformed bad =>
      refine ⟨_, rfl, t, left s, rfl, ?_⟩
      rw [ofOffset_width]
      rcases h.malformed s bad s' hnext with hbad | ⟨hending, hcut, rfl⟩
      · exact .malformed hbad
      · exact .cutOff hending hcut
    | failed reason =>
      obtain ⟨hending, hleft⟩ := h.failed s reason s' hnext
      exact ⟨_, rfl, t, left s, rfl, .failed hending hleft⟩
    | ended =>
      obtain ⟨hending, hleft⟩ := h.ended s s' hnext
      refine ⟨_, rfl, t, left s, rfl, ?_⟩
      rw [hleft]
      exact .whole hending

/-! ## Independence of the chunks -/

theorem decode_eq_iff {stream : ByteStream} {result : Except DecodeError Text} :
    decode stream = result ↔ Decodes stream.ending stream.readable result := by
  constructor
  · rintro rfl
    exact decodes_decode stream
  · exact (decodes_decode stream).unique

/-- The place in an error is the end of the longest text at the front, and the bytes in it
are those that follow. -/
theorem exists_longest_of_decode {stream : ByteStream} {bytes : List UInt8} {position : Position}
    {offset : Nat} (h : decode stream = .error (.illFormed bytes position offset)) :
    ∃ t, Text.bytes t ++ bytes <+: stream.readable ∧
      (∀ u, Text.bytes u <+: stream.readable → Text.width u ≤ Text.width t) ∧
      offset = Text.width t ∧ position = (t.foldl Position.after Position.first).capped := by
  obtain ⟨t, rest, hbytes, hconcludes⟩ := decode_eq_iff.mp h
  have hlongest : ∀ u, Text.bytes u <+: stream.readable → Text.width u ≤ Text.width t := by
    rintro u ⟨rest', hu⟩
    exact prefix_width_le (prefix_of_stuck (hbytes.symm.trans hu.symm) hconcludes.stuck)
  rw [hbytes] at hlongest ⊢
  generalize herror : Except.error (DecodeError.illFormed bytes position offset) = result
    at hconcludes
  cases hconcludes with
  | malformed hbad =>
    obtain ⟨rfl, rfl, rfl⟩ := DecodeError.illFormed.inj (Except.error.inj herror)
    exact ⟨t, (List.prefix_append_right_inj _).mpr hbad.front, hlongest, rfl, rfl⟩
  | failed _ _ => exact absurd (Except.error.inj herror) nofun
  | cutOff _ _ =>
    obtain ⟨rfl, rfl, rfl⟩ := DecodeError.illFormed.inj (Except.error.inj herror)
    exact ⟨t, List.prefix_rfl, hlongest, rfl, rfl⟩
  | whole _ => exact absurd herror nofun

theorem decode_of_flatten {stream : ByteStream} {t : Text} (hchunks : [] ∉ stream.chunks)
    (hbytes : stream.chunks.flatten = Text.bytes t) (hfailure : stream.failure = none) :
    decode stream = .ok t := by
  have hreadable : stream.readable = Text.bytes t := by
    rw [← hbytes, ByteStream.readable, List.takeWhile_eq_self_iff.mpr]
    intro chunk hchunk
    exact decide_eq_true fun h => hchunks (h ▸ hchunk)
  have hending : stream.ending = none := by
    rw [ByteStream.ending, if_neg hchunks, hfailure]
  rw [decode_eq_iff, hreadable, hending]
  exact ⟨t, [], (List.append_nil _).symm, .whole rfl⟩

/-- A byte stream is decoded to what its readable bytes amount to with their ending, however
they arrive: the text, or the error that comes first. An error about bytes has the place
behind the longest text in front of them. So a text is got back from its bytes in any
chunks, and decoders that split it in other ways come to the same result. -/
theorem decode_independent_of_chunks (stream : ByteStream) :
    (∀ result, decode stream = result ↔ Decodes stream.ending stream.readable result) ∧
    (∀ bytes position offset, decode stream = .error (.illFormed bytes position offset) →
      ∃ t, Text.bytes t ++ bytes <+: stream.readable ∧
        (∀ u, Text.bytes u <+: stream.readable → Text.width u ≤ Text.width t) ∧
        offset = Text.width t ∧ position = (t.foldl Position.after Position.first).capped) ∧
    (∀ other : ByteStream, other.readable = stream.readable → other.ending = stream.ending →
      decode other = decode stream) ∧
    (∀ t, [] ∉ stream.chunks → stream.chunks.flatten = Text.bytes t → stream.failure = none →
      decode stream = .ok t) ∧
    ∀ (σ : Type) (next : σ → Delivery × σ) (left : σ → List UInt8) (s : σ),
      Faithful next stream.ending left → left s = stream.readable →
      ∃ n, ∀ m, n ≤ m → collect next m s [] = some (decode stream) := by
  refine ⟨fun result => decode_eq_iff, fun _ _ _ => exists_longest_of_decode, ?_,
    fun _ => decode_of_flatten, ?_⟩
  · intro other hreadable hending
    rw [decode_eq_iff, hreadable, hending]
    exact decodes_decode stream
  · intro σ next left s hnext hleft
    refine ⟨(left s).length + 1, ?_⟩
    intro m hm
    obtain ⟨result, hresult, hdecodes⟩ := hnext.exists_collect (Nat.lt_of_succ_le hm) []
    rw [hresult, decode_eq_iff.mpr (hleft ▸ hdecodes)]

/-- A stream with a character in two chunks, and a byte that no character has. -/
def splitStream : ByteStream := ⟨[[0x61, 0xe2, 0x82], [0xac, 0xff, 0x62]], none⟩

/-- A decoder of its bytes that delivers each character by itself. -/
def splitNext : Nat → Delivery × Nat
  | 0 => (.piece ['a'], 1)
  | 1 => (.piece ['€'], 2)
  | 2 => (.malformed [0xff], 3)
  | n => (.ended, n)

def splitLeft : Nat → List UInt8
  | 0 => [0x61, 0xe2, 0x82, 0xac, 0xff, 0x62]
  | 1 => [0xe2, 0x82, 0xac, 0xff, 0x62]
  | 2 => [0xff, 0x62]
  | _ => []

theorem faithful_split : Faithful splitNext none splitLeft where
  piece := by
    rintro (_ | _ | _ | s) t s' h
    · obtain ⟨hpiece, rfl⟩ := Prod.mk.inj h
      obtain rfl := Delivery.piece.inj hpiece
      exact ⟨List.cons_ne_nil _ _, by decide⟩
    · obtain ⟨hpiece, rfl⟩ := Prod.mk.inj h
      obtain rfl := Delivery.piece.inj hpiece
      exact ⟨List.cons_ne_nil _ _, by decide⟩
    · exact absurd (Prod.mk.inj h).1 nofun
    · exact absurd (Prod.mk.inj h).1 nofun
  malformed := by
    rintro (_ | _ | _ | s) bad s' h
    · exact absurd (Prod.mk.inj h).1 nofun
    · exact absurd (Prod.mk.inj h).1 nofun
    · obtain rfl := Delivery.malformed.inj (Prod.mk.inj h).1
      exact Or.inl (malformed_of_classify (Or.inl rfl) (by decide : classify [0xff] = .illFormed) _)
    · exact absurd (Prod.mk.inj h).1 nofun
  failed := by
    rintro (_ | _ | _ | s) reason s' h <;> exact absurd (Prod.mk.inj h).1 nofun
  ended := by
    rintro (_ | _ | _ | s) s' h
    · exact absurd (Prod.mk.inj h).1 nofun
    · exact absurd (Prod.mk.inj h).1 nofun
    · exact absurd (Prod.mk.inj h).1 nofun
    · exact ⟨rfl, rfl⟩

/-- Both decoders report the byte behind the character that is in two chunks. -/
theorem decode_independent_of_chunks_split :
    decode splitStream = .error (.illFormed [0xff] ⟨1, 3⟩ 4) ∧
      (∃ n, ∀ m, n ≤ m →
        collect splitNext m 0 [] = some (.error (.illFormed [0xff] ⟨1, 3⟩ 4))) ∧
      decode ⟨[[0xe2], [0x82, 0xac]], none⟩ = .ok ['€'] := by
  have hdecode : decode splitStream = .error (.illFormed [0xff] ⟨1, 3⟩ 4) := by decide
  refine ⟨hdecode, ?_, ?_⟩
  · rw [← hdecode]
    exact (decode_independent_of_chunks splitStream).2.2.2.2 Nat splitNext splitLeft 0
      faithful_split rfl
  · exact (decode_independent_of_chunks _).2.2.2.1 ['€'] (by decide) (by decide) rfl

end Utf8

end LispReader
