import LispReader.Form.Basic
import LispReader.Proofs.Offset
import LispReader.Proofs.Notation.Opening

/-!
# Spelling

The notation as a grammar, apart from any reader. `Spells pos v f w` says that the
text `v` at the offset `pos`, in front of the text `w`, spells the form `f`, and
`SpellsAll` says the same of several forms with trivia around them. What follows
matters at the end of a piece only: an atom is as long as it can be, and a comment
without a line feed ends the source. A document is a source without remainder.

The grammar says nothing of how deep lists may nest; that is a property of the
forms, and a document asks for it apart.
-/

namespace LispReader

/-! ## Depths -/

/-- Whether so many lists may lie around the innermost place of a form. -/
def Depth.Admits : Depth → Nat → Prop
  | none, _ => True
  | some n, k => k ≤ n

namespace Depth

variable {d d' : Depth} {j k : Nat}

theorem admits_zero (d : Depth) : d.Admits 0 := by
  cases d with
  | none => trivial
  | some n => exact Nat.zero_le n

theorem Admits.mono (h : d.Admits k) (hj : j ≤ k) : d.Admits j := by
  cases d with
  | none => trivial
  | some n => exact Nat.le_trans hj h

theorem admits_max : d.Admits (max j k) ↔ d.Admits j ∧ d.Admits k := by
  cases d with
  | none => simp [Admits]
  | some n => exact Nat.max_le

/-- Inside one more list, one list less may be opened. -/
theorem admits_succ (h : d.inner? = some d') : d.Admits (k + 1) ↔ d'.Admits k := by
  match d, h with
  | none, h =>
    obtain rfl := Option.some.inj h
    simp [Admits]
  | some (n + 1), h =>
    obtain rfl := Option.some.inj h
    exact Nat.add_le_add_iff_right

theorem exists_inner (h : d.Admits (k + 1)) : ∃ d', d.inner? = some d' ∧ d'.Admits k := by
  match d, h with
  | none, _ => exact ⟨none, rfl, trivial⟩
  | some (n + 1), h => exact ⟨some n, rfl, Nat.le_of_succ_le_succ h⟩

end Depth

namespace Notation

open Alphabet

/-! ## Forms -/

/-- The symbol for a quote operator, which has the span of the operator. -/
def symbol (op : QuoteOperator) (pos : Nat) : Form :=
  .atom op.name.toList ⟨pos, pos + Text.width op.sign⟩

@[simp] theorem span_symbol (op : QuoteOperator) (pos : Nat) :
    (symbol op pos).span = ⟨pos, pos + Text.width op.sign⟩ := rfl

/-- The form that a quote operator abbreviates: a list of its symbol and the operand. -/
def quoted (op : QuoteOperator) (pos : Nat) (f : Form) (stop : Nat) : Form :=
  .list [symbol op pos, f] ⟨pos, stop⟩

@[simp] theorem depth_quoted (op : QuoteOperator) (pos : Nat) (f : Form) (stop : Nat) :
    (quoted op pos f stop).depth = f.depth + 1 := by
  simp [quoted, symbol, Form.depth, Form.depths]

theorem depths_append (fs gs : List Form) :
    Form.depths (fs ++ gs) = max (Form.depths fs) (Form.depths gs) := by
  induction fs with
  | nil => rw [List.nil_append, Form.depths, Nat.zero_max]
  | cons f fs ih => rw [List.cons_append, Form.depths, Form.depths, ih, Nat.max_assoc]

mutual
/-- A piece of text spells a form, in front of another text. -/
inductive Spells : Nat → Text → Form → Text → Prop where
  | atom {pos : Nat} {v x w : Text} (hx : Constituents isReserved v x) (hv : v ≠ [])
      (hw : ¬ StartsConstituent isReserved w) :
      Spells pos v (.atom x ⟨pos, pos + Text.width v⟩) w
  | string {pos : Nat} {v x w : Text} (hx : Literal v x) :
      Spells pos (quotation :: (v ++ [quotation])) (.string x ⟨pos, pos + Text.width v + 2⟩) w
  | list {pos : Nat} {v w : Text} {fs : List Form}
      (hfs : SpellsAll (pos + 1) v fs (closeParen :: w)) :
      Spells pos (openParen :: (v ++ [closeParen])) (.list fs ⟨pos, pos + Text.width v + 2⟩) w
  /-- A comma in front of `@` is not an operator by itself. -/
  | quote {pos : Nat} {op : QuoteOperator} {k v w : Text} {f : Form}
      (hop : op = .unquote → (k ++ v).head? ≠ some '@') (hk : Trivia k (v ++ w))
      (hf : Spells (pos + Text.width op.sign + Text.width k) v f w) :
      Spells pos (op.sign ++ (k ++ v))
        (quoted op pos f (pos + Text.width op.sign + Text.width k + Text.width v)) w

/-- A piece of text spells several forms with trivia in front of each and behind
the last, in front of another text. -/
inductive SpellsAll : Nat → Text → List Form → Text → Prop where
  | nil {pos : Nat} {k w : Text} (hk : Trivia k w) : SpellsAll pos k [] w
  | cons {pos : Nat} {k v v' w : Text} {f : Form} {fs : List Form}
      (hk : Trivia k (v ++ (v' ++ w))) (hf : Spells (pos + Text.width k) v f (v' ++ w))
      (hfs : SpellsAll (pos + Text.width k + Text.width v) v' fs w) :
      SpellsAll pos (k ++ (v ++ v')) (f :: fs) w
end

namespace Spells

variable {pos : Nat} {v w : Text} {f : Form}

theorem ne_nil (h : Spells pos v f w) : v ≠ [] := by
  cases h with
  | atom _ hv _ => exact hv
  | string _ => simp
  | list _ => simp
  | @quote _ op k v =>
    obtain ⟨c, u, hs, -⟩ := sign_eq_cons op
    rw [hs]
    simp

/-- Trivia in front of a form can stand in front of any text. -/
theorem trivia_follow {k x u : Text} (h : Spells pos v f w) (hk : Trivia k (v ++ x)) :
    Trivia k u :=
  hk.follow fun he => absurd (List.append_eq_nil_iff.mp he).1 h.ne_nil

/-- The span of a form is where its text stands. -/
theorem span_eq (h : Spells pos v f w) : f.span = ⟨pos, pos + Text.width v⟩ := by
  cases h with
  | atom _ _ _ => rfl
  | string _ =>
    rw [Form.span, Text.width_cons, Text.width_append, Text.width_cons, Text.width_nil]
    simp only [utf8Size_quotation, Span.mk.injEq, true_and]
    omega
  | list _ =>
    rw [Form.span, Text.width_cons, Text.width_append, Text.width_cons, Text.width_nil]
    simp only [utf8Size_openParen, utf8Size_closeParen, Span.mk.injEq, true_and]
    omega
  | quote _ _ _ =>
    rw [quoted, Form.span, Text.width_append, Text.width_append]
    simp only [Span.mk.injEq, true_and]
    omega

/-- The kind of a form is told by its beginning, whatever follows the form. -/
theorem exists_opens (h : Spells pos v f w) : ∃ kind : Kind, ∀ x, kind.Opens (v ++ x) := by
  cases h with
  | atom hx hv _ => exact ⟨.atom, fun x => .atom (hx.startsConstituent hv x)⟩
  | string _ => exact ⟨.string, fun _ => .string⟩
  | list _ => exact ⟨.list, fun _ => .list⟩
  | @quote _ op k v =>
    refine ⟨.quote, ?_⟩
    intro x
    rw [List.append_assoc]
    exact .sign op _

theorem not_startsTrivia (h : Spells pos v f w) (x : Text) : ¬ StartsTrivia (v ++ x) := by
  obtain ⟨kind, hkind⟩ := h.exists_opens
  exact (hkind x).not_startsTrivia

theorem startsConstituent_iff (h : Spells pos v f w) (x y : Text) :
    StartsConstituent isReserved (v ++ x) ↔ StartsConstituent isReserved (v ++ y) := by
  obtain ⟨kind, hkind⟩ := h.exists_opens
  have key : ∀ z, StartsConstituent isReserved (v ++ z) ↔ kind = .atom := by
    intro z
    constructor
    · intro hz
      exact (hkind z).unique (.atom hz)
    · intro hk
      have hz := hkind z
      rw [hk] at hz
      cases hz with
      | atom hz => exact hz
  exact (key x).trans (key y).symm

end Spells

/-- One form without any trivia around it. -/
theorem Spells.spellsAll {pos : Nat} {v w : Text} {f : Form} (h : Spells pos v f w) :
    SpellsAll pos v [f] w := by
  have hall : SpellsAll pos ([] ++ (v ++ [])) [f] w := .cons .nil h (.nil .nil)
  rwa [List.nil_append, List.append_nil] at hall

theorem Trivia.not_startsConstituent {k u : Text} (h : Trivia k u) (hk : k ≠ []) (x : Text) :
    ¬ StartsConstituent isReserved (k ++ x) := by
  intro hs
  have ho : Kind.Opens .atom (k ++ x) := .atom hs
  exact ho.not_startsTrivia (h.startsTrivia hk x)

namespace SpellsAll

variable {pos : Nat} {v w : Text} {fs : List Form}

/-- What follows a piece that is not empty does not change how the piece begins. -/
theorem startsConstituent_iff (h : SpellsAll pos v fs w) (hv : v ≠ []) (x y : Text) :
    StartsConstituent isReserved (v ++ x) ↔ StartsConstituent isReserved (v ++ y) := by
  cases h with
  | nil hk =>
    exact iff_of_false (hk.not_startsConstituent hv x) (hk.not_startsConstituent hv y)
  | @cons _ k v v' _ _ _ hk hf _ =>
    by_cases he : k = []
    · subst he
      rw [List.nil_append, List.append_assoc, List.append_assoc]
      exact hf.startsConstituent_iff _ _
    · rw [List.append_assoc k _ x, List.append_assoc k _ y]
      exact iff_of_false (hk.not_startsConstituent he _) (hk.not_startsConstituent he _)

end SpellsAll

/-! ## What follows

A piece can stand in front of another text as well, provided that the text does
not begin with a character of an atom and, where it is to replace the end of the
source, is the end of a source. -/

mutual
theorem Spells.follow {pos : Nat} {v w w' : Text} {f : Form} (h : Spells pos v f w)
    (hw : StartsConstituent isReserved w' → StartsConstituent isReserved w) :
    Spells pos v f w' := by
  cases h with
  | atom hx hv hn => exact .atom hx hv fun hs => hn (hw hs)
  | string hx => exact .string hx
  | list hfs =>
    apply Spells.list
    apply hfs.follow nofun
    intro hs
    exact absurd hs (not_startsConstituent_of_reserved (by decide) (by decide) w')
  | quote hop hk hf =>
    exact .quote hop (hf.trivia_follow hk) (hf.follow hw)

theorem SpellsAll.follow {pos : Nat} {v w w' : Text} {fs : List Form}
    (h : SpellsAll pos v fs w) (hn : w = [] → w' = [])
    (hw : StartsConstituent isReserved w' → StartsConstituent isReserved w) :
    SpellsAll pos v fs w' := by
  cases h with
  | nil hk => exact .nil (hk.follow hn)
  | @cons _ k v v' _ _ _ hk hf hfs =>
    refine .cons (hf.trivia_follow hk) (hf.follow fun hs => ?_) (hfs.follow hn hw)
    by_cases hv : v' = []
    · subst hv
      exact hw hs
    · exact (hfs.startsConstituent_iff hv w' w).mp hs
end

/-- Where trivia goes on as well, so do forms. -/
theorem SpellsAll.resume {pos : Nat} {v w k u : Text} {fs : List Form}
    (h : SpellsAll pos v fs w) (hk : ResumesTrivia k u)
    (hu : ¬ StartsConstituent isReserved (k ++ u)) : SpellsAll pos (v ++ k) fs u := by
  induction fs generalizing pos v with
  | nil =>
    cases h with
    | nil hk' => exact .nil (hk hk')
  | cons f fs ih =>
    cases h with
    | @cons _ k' v v' _ _ _ hk' hf hfs =>
      rw [List.append_assoc, List.append_assoc]
      refine .cons (hf.trivia_follow hk') (hf.follow fun hs => ?_) (ih hfs)
      rw [List.append_assoc] at hs
      by_cases hv : v' = []
      · subst hv
        exact absurd hs hu
      · exact (hfs.startsConstituent_iff hv _ w).mp hs

/-- Behind a line feed anything may follow. -/
theorem SpellsAll.snoc_newline {pos : Nat} {v w : Text} {fs : List Form}
    (h : SpellsAll pos v fs w) (w' : Text) : SpellsAll pos (v ++ ['\n']) fs w' :=
  h.resume (resumesTrivia_newline w')
    (not_startsConstituent_of_reserved (by decide) (by decide) w')

/-- Forms in front of a text can as well stand in front of one that no atom goes on with. -/
theorem SpellsAll.follow_of_ne_nil {pos : Nat} {v u w : Text} {fs : List Form}
    (h : SpellsAll pos v fs u) (hu : u ≠ []) (hw : ¬ StartsConstituent isReserved w) :
    SpellsAll pos v fs w := by
  apply h.follow
  · intro he
    exact absurd he hu
  · intro hs
    exact absurd hs hw

/-- Pieces that follow one another spell all their forms in order. -/
theorem SpellsAll.append {pos : Nat} {v v' w : Text} {fs gs : List Form}
    (h : SpellsAll pos v fs (v' ++ w)) (h' : SpellsAll (pos + Text.width v) v' gs w) :
    SpellsAll pos (v ++ v') (fs ++ gs) w := by
  induction fs generalizing pos v with
  | nil =>
    cases h with
    | nil hk =>
      cases h' with
      | nil hk' => exact .nil (hk.append hk')
      | @cons _ k u u' _ f gs hk' hf hfs =>
        have hw : pos + Text.width (v ++ k) = pos + Text.width v + Text.width k := by
          rw [Text.width_append, Nat.add_assoc]
        rw [← List.append_assoc, List.nil_append]
        rw [List.append_assoc, List.append_assoc] at hk
        exact .cons (hk.append hk') (hw ▸ hf) (hw ▸ hfs)
  | cons f fs ih =>
    cases h with
    | @cons _ k u u' _ _ _ hk hf hfs =>
      rw [List.append_assoc, List.append_assoc, List.cons_append]
      refine .cons (by rwa [List.append_assoc]) (by rwa [List.append_assoc]) (ih hfs ?_)
      rw [Text.width_append, Text.width_append, ← Nat.add_assoc, ← Nat.add_assoc] at h'
      exact h'

/-! ## Documents -/

/-- The line that names an interpreter, at the beginning of a source. Where it is
allowed, a source that can begin with it does. -/
inductive InterpreterLine (allowed : Bool) : Text → Text → Prop where
  | line {t w : Text} (ha : allowed = true) (ht : '\n' ∉ t) :
      InterpreterLine allowed (shebang ++ (t ++ ['\n'])) w
  | lastLine {t : Text} (ha : allowed = true) (ht : '\n' ∉ t) :
      InterpreterLine allowed (shebang ++ t) []
  | absent {w : Text} (h : allowed = true → ¬ shebang <+: w) : InterpreterLine allowed [] w

/-- Two characters decide whether a text names an interpreter. -/
theorem shebang_prefix_append {x t : Text} (h : shebang <+: x ++ t) :
    shebang <+: x ∨ x = [] ∧ shebang <+: t ∨ x = ['#'] ∧ ∃ u, t = '!' :: u := by
  match x with
  | [] => exact Or.inr (Or.inl ⟨rfl, h⟩)
  | [c] =>
    obtain ⟨rfl, u, rfl⟩ := List.cons_prefix_cons.mp h
    exact Or.inr (Or.inr ⟨rfl, u, rfl⟩)
  | c :: e :: x =>
    obtain ⟨rfl, hp⟩ := List.cons_prefix_cons.mp h
    obtain ⟨rfl, -⟩ := List.cons_prefix_cons.mp hp
    exact Or.inl ⟨x, rfl⟩

/-- A line feed is not part of the beginning of an interpreter line. -/
theorem shebang_prefix_line {v w : Text} (h : shebang <+: v ++ '\n' :: w) : shebang <+: v := by
  rcases shebang_prefix_append h with h | ⟨-, h⟩ | ⟨-, u, h⟩
  · exact h
  · exact absurd (List.cons_prefix_cons.mp h).1 (by decide)
  · exact absurd (List.cons.inj h).1 (by decide)

/-- What follows does not matter to an interpreter line, as long as it does not go on
with characters of an atom. -/
theorem InterpreterLine.refollow {allowed : Bool} {line v u w : Text}
    (h : InterpreterLine allowed line (v ++ u)) (hu : u ≠ [])
    (hw : ¬ StartsConstituent isReserved w) : InterpreterLine allowed line (v ++ w) := by
  generalize hb : v ++ u = b at h
  cases h with
  | line ha ht => exact .line ha ht
  | lastLine _ _ => exact absurd (List.append_eq_nil_iff.mp hb).2 hu
  | absent hn =>
    apply InterpreterLine.absent
    intro ha hp
    rcases shebang_prefix_append hp with hp | ⟨-, z, rfl⟩ | ⟨-, z, rfl⟩
    · rw [← hb] at hn
      exact hn ha (hp.trans (List.prefix_append v u))
    · exact hw (.plain (by decide) (by decide))
    · exact hw (.plain (by decide) (by decide))

theorem InterpreterLine.eq_nil {line v : Text} (h : InterpreterLine false line v) :
    line = [] := by
  cases h with
  | line ha _ => exact absurd ha (by decide)
  | lastLine ha _ => exact absurd ha (by decide)
  | absent _ => rfl

/-- A source spells forms: an optional interpreter line, then forms with trivia
around them up to the end, none of them deeper than allowed. -/
def Document (settings : Settings) (s : Text) (fs : List Form) : Prop :=
  ∃ line v, s = line ++ v ∧ InterpreterLine settings.allowShebang line v ∧
    SpellsAll (Text.width line) v fs [] ∧ settings.depth.Admits (Form.depths fs)

/-- A beginning of a source spells forms in front of a text, an interpreter line aside. -/
def Front (settings : Settings) (x : Text) (fs : List Form) (u : Text) : Prop :=
  ∃ line v, x = line ++ v ∧ InterpreterLine settings.allowShebang line (v ++ u) ∧
    SpellsAll (Text.width line) v fs u ∧ settings.depth.Admits (Form.depths fs)

section

variable {settings : Settings} {s x k u v w : Text} {fs gs : List Form}

/-- A document is a front with nothing behind it. -/
theorem front_nil_iff : Front settings s fs [] ↔ Document settings s fs := by
  constructor
  · rintro ⟨line, v, hs, hline, hfs, hdepth⟩
    rw [List.append_nil] at hline
    exact ⟨line, v, hs, hline, hfs, hdepth⟩
  · rintro ⟨line, v, hs, hline, hfs, hdepth⟩
    rw [← List.append_nil v] at hline
    exact ⟨line, v, hs, hline, hfs, hdepth⟩

/-- Behind a front, any text will do that no atom goes on with. -/
theorem Front.refollow (h : Front settings x fs u) (hu : u ≠ [])
    (hw : ¬ StartsConstituent isReserved w) : Front settings x fs w := by
  obtain ⟨line, v, hx, hline, hfs, hdepth⟩ := h
  exact ⟨line, v, hx, hline.refollow hu hw, hfs.follow_of_ne_nil hu hw, hdepth⟩

/-- A front goes on as trivia does. -/
theorem Front.resume (h : Front settings x fs u) (hu : u ≠ []) (hk : ResumesTrivia k w)
    (hw : ¬ StartsConstituent isReserved (k ++ w)) : Front settings (x ++ k) fs w := by
  obtain ⟨line, v, rfl, hline, hfs, hdepth⟩ := h
  refine ⟨line, v ++ k, by simp, ?_, hfs.resume hk hw, hdepth⟩
  rw [List.append_assoc]
  exact hline.refollow hu hw

/-- A front goes on with further forms. -/
theorem Front.append (h : Front settings x fs (v ++ u)) (hgs : SpellsAll (Text.width x) v gs u)
    (hdepth : settings.depth.Admits (Form.depths gs)) : Front settings (x ++ v) (fs ++ gs) u := by
  obtain ⟨line, v', rfl, hline, hfs, hdepth'⟩ := h
  rw [Text.width_append] at hgs
  refine ⟨line, v' ++ v, by simp, ?_, hfs.append hgs, ?_⟩
  · rw [List.append_assoc]
    exact hline
  · rw [depths_append]
    exact Depth.admits_max.mpr ⟨hdepth', hdepth⟩

theorem SpellsAll.eq_nil_of_nil {pos : Nat} (h : SpellsAll pos [] fs w) : fs = [] := by
  generalize hv : ([] : Text) = v at h
  cases h with
  | nil _ => rfl
  | cons _ hf _ =>
    have hnil := (List.append_eq_nil_iff.mp hv.symm).2
    exact absurd (List.append_eq_nil_iff.mp hnil).1 hf.ne_nil

/-- A document with a line feed is a front for any text, also where the document ends in
a comment or is an interpreter line. -/
theorem Document.front_newline (h : Document settings s fs) (w : Text) :
    Front settings (s ++ ['\n']) fs w := by
  obtain ⟨line, v, rfl, hline, hfs, hdepth⟩ := h
  cases hline with
  | @line t _ ha ht =>
    exact ⟨_, v ++ ['\n'], by simp, .line ha ht, hfs.snoc_newline w, hdepth⟩
  | lastLine ha ht =>
    obtain rfl := hfs.eq_nil_of_nil
    exact ⟨_, [], by simp, .line ha ht, .nil .nil, hdepth⟩
  | absent hn =>
    refine ⟨[], v ++ ['\n'], rfl, .absent fun ha hp => ?_, hfs.snoc_newline w, hdepth⟩
    rw [List.append_assoc] at hp
    exact hn ha (shebang_prefix_line hp)

end

end Notation

end LispReader
