import LispReader.Proofs.Run.Stream

/-!
# Loops

The loops of rules and readings ask slots round after round, and stop when a round does
not move. Nothing is known of the slots but that their runs come to a reply and stay
within the source: a run that accepts does not move back, and not behind the end. Each
round but the last then moves, so there are no more rounds than bytes, and one.

Which offsets are asked at is left open; it may be all of them, or the boundaries of
characters.
-/

namespace LispReader

/-! ## Runs that come to a reply -/

/-- A run comes to a reply; if it accepts, then with an end of this kind. -/
def Ends {α : Type} (p : Nat → Prop) : Option (Reply α) → Prop
  | some (.accept _ next _) => p next
  | some (.reject _) => True
  | some (.abort _) => True
  | none => False

theorem Ends.exists_reply {α : Type} {p : Nat → Prop} {run : Option (Reply α)} (h : Ends p run) :
    ∃ reply, run = some reply := by
  cases run with
  | none => exact h.elim
  | some reply => exact ⟨reply, rfl⟩

theorem Ends.mono {α : Type} {p q : Nat → Prop} {run : Option (Reply α)} (h : Ends p run)
    (hpq : ∀ next, p next → q next) : Ends q run := by
  match run, h with
  | some (.accept _ next _), h => exact hpq next h
  | some (.reject _), _ => exact trivial
  | some (.abort _), _ => exact trivial

theorem Ends.cases {α : Type} {p : Nat → Prop} {run : Option (Reply α)} (h : Ends p run) :
    (∃ x next e, run = some (.accept x next e) ∧ p next) ∨ (∃ e, run = some (.reject e)) ∨
      ∃ fault, run = some (.abort fault) := by
  obtain ⟨reply, rfl⟩ := h.exists_reply
  cases reply with
  | accept x next e => exact Or.inl ⟨x, next, e, rfl, h⟩
  | reject e => exact Or.inr (Or.inl ⟨e, rfl⟩)
  | abort fault => exact Or.inr (Or.inr ⟨fault, rfl⟩)

/-- From one offset of a kind to another that is no further back, and not behind the bound
unless the first one was. -/
def Onward (V : Nat → Prop) (bound pos next : Nat) : Prop :=
  V next ∧ pos ≤ next ∧ next ≤ max pos bound

/-- At all offsets of a kind, runs come to a reply, and go onward if they accept. -/
def Confined {α : Type} (V : Nat → Prop) (bound : Nat) (run : Nat → Option (Reply α)) : Prop :=
  ∀ pos, V pos → Ends (Onward V bound pos) (run pos)

/-- A run that accepts at an offset accepts no text there. -/
def Idle {α : Type} (run : Nat → Option (Reply α)) (pos : Nat) : Prop :=
  ∀ x next e, run pos = some (.accept x next e) → next = pos

variable {V : Nat → Prop} {bound pos next stop rounds : Nat}

theorem Onward.self (h : V pos) : Onward V bound pos pos :=
  ⟨h, Nat.le_refl pos, Nat.le_max_left pos bound⟩

theorem Onward.trans (h : Onward V bound pos next) (h' : Onward V bound next stop) :
    Onward V bound pos stop := by
  obtain ⟨-, hle, hmax⟩ := h
  obtain ⟨hstop, hle', hmax'⟩ := h'
  exact ⟨hstop, Nat.le_trans hle hle', by omega⟩

/-- Where there is a move, less is left in front of the bound. -/
theorem Onward.left_lt (h : Onward V bound pos next) (hne : next ≠ pos) :
    bound - next < bound - pos := by
  obtain ⟨-, hle, hmax⟩ := h
  omega

/-! ## Loops of rules -/

section Rules

variable {node : NodeHandle → Depth → Nat → Option (Reply Form)}
  {skip : SkipHandle → Depth → Nat → Option (Reply Unit)} {depth : Depth}

/-- A script that skips text goes on at the same offset, or where a run that accepts ends. -/
theorem Script.skipOptional_rule {α : Type} {Q : Option (Reply α) → Prop} {slot : SkipHandle}
    {resume : Nat → Script α} (habort : ∀ fault, Q (some (.abort fault)))
    (hskip : Confined V bound (skip slot depth)) (hpos : V pos)
    (h : ∀ next, Onward V bound pos next → (next = pos → Idle (skip slot depth) pos) →
      Q ((resume next).run node skip)) :
    Q ((skipOptional slot depth pos resume).run node skip) := by
  rw [run_skipOptional]
  rcases (hskip pos hpos).cases with ⟨x, next, e, hrun, hnext⟩ | ⟨e, hrun⟩ | ⟨fault, hrun⟩
  · simp only [hrun]
    refine h next hnext ?_
    rintro heq x' next' e' hrun'
    cases hrun.symm.trans hrun'
    exact heq
  · simp only [hrun]
    refine h pos (.self hpos) ?_
    intro _ x' next' e' hrun'
    cases hrun.symm.trans hrun'
  · simpa only [hrun] using habort fault

namespace SkipRule

variable {parts : List SkipHandle}

/-- A round of trivia goes onward; if it does not move, no part does. -/
theorem eachPart_rule {Q : Option (Reply Unit) → Prop} {resume : Nat → Script Unit}
    (habort : ∀ fault, Q (some (.abort fault)))
    (hparts : ∀ part ∈ parts, Confined V bound (skip part depth)) (hpos : V pos)
    (h : ∀ next, Onward V bound pos next →
      (next = pos → ∀ part ∈ parts, Idle (skip part depth) pos) →
      Q ((resume next).run node skip)) :
    Q ((eachPart depth parts pos resume).run node skip) := by
  induction parts generalizing pos with
  | nil => exact h pos (.self hpos) fun _ _ hpart => absurd hpart List.not_mem_nil
  | cons part parts ih =>
    rw [List.forall_mem_cons] at hparts
    rw [eachPart]
    refine Script.skipOptional_rule habort hparts.1 hpos ?_
    intro next hnext hidle
    refine ih hparts.2 hnext.1 ?_
    intro stop hstop hidles
    refine h stop (hnext.trans hstop) ?_
    -- The round goes through `next`, so it ends where it began only if that is there as well.
    intro heq
    have hmiddle : next = pos := Nat.le_antisymm (heq ▸ hstop.2.1) hnext.2.1
    rw [List.forall_mem_cons]
    exact ⟨hidle hmiddle, hmiddle ▸ hidles (heq.trans hmiddle.symm)⟩

/-- Trivia ends where none of its parts moves. -/
theorem triviaFrom_ends (hparts : ∀ part ∈ parts, Confined V bound (skip part depth))
    (hpos : V pos) (hrounds : bound - pos < rounds) :
    Ends (fun stop => Onward V bound pos stop ∧ ∀ part ∈ parts, Idle (skip part depth) stop)
      ((triviaFrom parts depth rounds pos).run node skip) := by
  induction rounds generalizing pos with
  | zero => omega
  | succ rounds ih =>
    rw [triviaFrom]
    refine eachPart_rule (fun _ => trivial) hparts hpos ?_
    intro next hnext hidle
    by_cases hmoved : next = pos
    · rw [if_pos hmoved]
      exact ⟨.self hpos, hidle hmoved⟩
    · have hleft := hnext.left_lt hmoved
      rw [if_neg hmoved]
      exact (ih hnext.1 (by omega)).mono fun stop h => ⟨hnext.trans h.1, h.2⟩

end SkipRule

namespace NodeRule

/-- Forms that a run makes one behind the other. One without text is the last. -/
inductive Collected (run : Nat → Option (Reply Form)) : Nat → List Form → Nat → Prop where
  | nil {pos : Nat} : Collected run pos [] pos
  | cons {pos next stop : Nat} {f : Form} {e : Expectation} {fs : List Form}
      (h : run pos = some (.accept f next e)) (hnext : pos < next)
      (hfs : Collected run next fs stop) : Collected run pos (f :: fs) stop
  | last {pos : Nat} {f : Form} {e : Expectation} (h : run pos = some (.accept f pos e)) :
      Collected run pos [f] pos

variable {expression : NodeHandle} {inner : Depth}

/-- The items of a list end, and the list goes on with those that were collected. -/
theorem itemsFrom_rule {Q : Option (Reply Form) → Prop}
    {finish : List Form → Nat → Expectation → Script Form} {items : List Form}
    {expected : Expectation} (habort : ∀ fault, Q (some (.abort fault)))
    (hrun : Confined V bound (node expression inner)) (hpos : V pos)
    (hrounds : bound - pos < rounds)
    (h : ∀ fs stop e, Onward V bound pos stop → Collected (node expression inner) pos fs stop →
      Q ((finish (fs.reverse ++ items) stop e).run node skip)) :
    Q ((itemsFrom expression inner finish rounds items pos expected).run node skip) := by
  induction rounds generalizing pos items expected with
  | zero => omega
  | succ rounds ih =>
    rw [itemsFrom, Script.run_askNode]
    rcases (hrun pos hpos).cases with ⟨f, next, e, hreply, hnext⟩ | ⟨e, hreply⟩ | ⟨fault, hreply⟩
    · simp only [hreply, Option.bind_some]
      by_cases hmoved : next = pos
      · rw [if_pos hmoved]
        rw [hmoved] at hreply
        exact h [f] pos _ (.self hpos) (.last hreply)
      · have hleft := hnext.left_lt hmoved
        have hlt := Nat.lt_of_le_of_ne hnext.2.1 (Ne.symm hmoved)
        rw [if_neg hmoved]
        refine ih hnext.1 (by omega) ?_
        intro fs stop e' hstop hfs
        simpa using h (f :: fs) stop e' (hnext.trans hstop) (.cons hreply hlt hfs)
    · rw [hreply]
      exact h [] pos _ (.self hpos) .nil
    · rw [hreply]
      exact habort fault

end NodeRule

end Rules

/-! ## Loops of readings -/

namespace Reading

/-- The slots that a reading asks for itself stay within the source. It asks for an interpreter
line only where one is allowed. -/
structure Guarded (r : Reading) (V : Nat → Prop) : Prop where
  zero : V 0
  node : Confined V r.source.width (r.node Grammar.expression r.depth)
  trivia : Confined V r.source.width (r.skip Grammar.trivia r.depth)
  shebang : r.grammar.settings.allowShebang = true →
    Confined V r.source.width (r.skip Grammar.shebang r.depth)

variable {r : Reading} {e e' : Expectation} {fs : List Form}

theorem skipOptional_cases {slot : SkipHandle} {depth : Depth}
    (h : Confined V bound (r.skip slot depth)) (hpos : V pos) :
    (∃ fault, r.skipOptional slot depth pos = some (.error fault)) ∨
      ∃ next, r.skipOptional slot depth pos = some (.ok next) ∧ V next := by
  rw [skipOptional]
  rcases (h pos hpos).cases with ⟨x, next, e, hrun, hnext⟩ | ⟨e, hrun⟩ | ⟨fault, hrun⟩
  · exact Or.inr ⟨next, by rw [hrun], hnext.1⟩
  · exact Or.inr ⟨pos, by rw [hrun], hpos⟩
  · exact Or.inl ⟨fault, by rw [hrun]⟩

theorem Guarded.start_cases (hr : r.Guarded V) :
    (∃ fault, r.start = some (.error fault)) ∨ ∃ pos, r.start = some (.ok pos) ∧ V pos := by
  rw [start]
  split
  next hallowed =>
    rcases skipOptional_cases (hr.shebang hallowed) hr.zero with ⟨fault, h⟩ | ⟨next, h, hnext⟩
    · exact Or.inl ⟨fault, by rw [h]⟩
    · rw [h]
      exact skipOptional_cases hr.trivia hnext
  next => exact skipOptional_cases hr.trivia hr.zero

/-- A step reads a form and moves on, or is the last. -/
theorem Guarded.step_cases (hr : r.Guarded V) (e : Expectation) (hpos : V pos) :
    (∃ f next e', r.step pos e = some (.form f next e') ∧
      Onward V r.source.width pos next ∧ next ≠ pos) ∨
    r.step pos e = some .finished ∨ ∃ fault, r.step pos e = some (.failed fault) := by
  rw [step]
  rcases (hr.node pos hpos).cases with ⟨f, next, e', hrun, hnext⟩ | ⟨e', hrun⟩ | ⟨fault, hrun⟩
  · simp only [hrun]
    split
    next => exact Or.inr (Or.inr ⟨_, rfl⟩)
    next hmoved => exact Or.inl ⟨f, next, e.merge e', rfl, hnext, hmoved⟩
  · right
    simp only [hrun]
    split
    next => exact Or.inl rfl
    next => exact Or.inr ⟨_, rfl⟩
  · exact Or.inr (Or.inr ⟨fault, by rw [hrun]⟩)

/-- Every form takes at least a byte. -/
theorem Guarded.length_le_of_reads (hr : r.Guarded V) (h : r.Reads pos e fs stop e')
    (hpos : V pos) : fs.length ≤ r.source.width - pos := by
  induction h with
  | nil => exact Nat.zero_le _
  | @cons pos next _ e e₁ _ f fs hstep _ ih =>
    rcases hr.step_cases e hpos with ⟨f', next', e₂, h, hnext, hmoved⟩ | h | ⟨fault, h⟩
    · cases hstep.symm.trans h
      have hleft := hnext.left_lt hmoved
      have hrest := ih hnext.1
      rw [List.length_cons]
      omega
    · cases hstep.symm.trans h
    · cases hstep.symm.trans h

/-- Steps read forms up to a step that reads none. -/
theorem Guarded.exists_reads (hr : r.Guarded V) (e : Expectation) (hpos : V pos) :
    ∃ fs stop e', r.Reads pos e fs stop e' ∧
      (r.step stop e' = some .finished ∨ ∃ fault, r.step stop e' = some (.failed fault)) := by
  induction hn : r.source.width - pos using Nat.strongRecOn generalizing pos e with
  | ind n ih =>
    rcases hr.step_cases e hpos with ⟨f, next, e₁, h, hnext, hmoved⟩ | h
    · have hleft := hnext.left_lt hmoved
      obtain ⟨fs, stop, e', hreads, hend⟩ := ih _ (hn ▸ hleft) e₁ hnext.1 rfl
      exact ⟨f :: fs, stop, e', .cons h hreads, hend⟩
    · exact ⟨[], pos, e, .nil, h⟩

/-- The loop over the forms ends with the same result for all rounds that suffice. -/
theorem Guarded.exists_formsFrom (hr : r.Guarded V) (forms : List Form) (e : Expectation)
    (hpos : V pos) :
    ∃ result, ∀ rounds, r.source.width - pos < rounds →
      r.formsFrom rounds forms pos e = some result := by
  obtain ⟨fs, stop, e', hreads, hend⟩ := hr.exists_reads e hpos
  have hlength := hr.length_le_of_reads hreads hpos
  have hrounds : ∀ rounds, r.source.width - pos < rounds → ∃ n,
      r.formsFrom rounds forms pos e = r.formsFrom (n + 1) (fs.reverse ++ forms) stop e' := by
    intro rounds hlt
    obtain ⟨n, rfl⟩ : ∃ n, rounds = n + 1 + fs.length := ⟨rounds - fs.length - 1, by omega⟩
    exact ⟨n, hreads.formsFrom_eq (n + 1) forms⟩
  rcases hend with hstep | ⟨fault, hstep⟩
  · refine ⟨.ok (fs.reverse ++ forms).reverse, ?_⟩
    intro rounds hlt
    obtain ⟨n, hn⟩ := hrounds rounds hlt
    rw [hn, formsFrom, hstep]
  · refine ⟨.error fault, ?_⟩
    intro rounds hlt
    obtain ⟨n, hn⟩ := hrounds rounds hlt
    rw [hn, formsFrom, hstep]

theorem Guarded.exists_forms (hr : r.Guarded V) (hfuel : r.source.width < r.fuel) :
    ∃ result, r.forms = some result := by
  rcases hr.start_cases with ⟨fault, hstart⟩ | ⟨pos, hstart, hpos⟩
  · exact ⟨_, by rw [forms, hstart]⟩
  · obtain ⟨result, hforms⟩ := hr.exists_formsFrom [] Expectation.none hpos
    have hresult := hforms r.fuel (by omega)
    exact ⟨r.locate result, by simp only [forms, hstart, hresult, Option.map_some]⟩

/-- A stream delivers no more items than there are bytes, and one. -/
theorem Guarded.exists_delivers (hr : r.Guarded V) :
    ∃ items, (FormStream.mk r .fresh).Delivers items ∧ items.length ≤ r.source.width + 1 := by
  rcases hr.start_cases with ⟨fault, hstart⟩ | ⟨pos, hstart, hpos⟩
  · exact ⟨_, FormStream.delivers_of_start_error hstart, by simp⟩
  obtain ⟨fs, stop, e', hreads, hend⟩ := hr.exists_reads Expectation.none hpos
  have hlength := hr.length_le_of_reads hreads hpos
  rcases hend with hstep | ⟨fault, hstep⟩
  · have hrest := FormStream.delivers_of_finished hstep
    refine ⟨_, FormStream.delivers_of_start hstart (FormStream.delivers_of_reads hreads hrest), ?_⟩
    simp only [List.length_append, List.length_map, List.length_nil]
    omega
  · have hrest := FormStream.delivers_of_failed hstep
    refine ⟨_, FormStream.delivers_of_start hstart (FormStream.delivers_of_reads hreads hrest), ?_⟩
    simp only [List.length_append, List.length_map, List.length_singleton]
    omega

end Reading

end LispReader
