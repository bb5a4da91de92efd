import LispReader.Proofs.Furthest
import LispReader.Proofs.Run.Fuel
import LispReader.Proofs.Run.Loops
import LispReader.Proofs.Streaming

/-!
# Guards of loops

Rules of a dialect may do as they like. As long as their runs come to a reply and stay
within the source, every loop around them ends, after as many rounds as there are bytes,
and two. The guards differ: trivia stops at an offset where none of its parts moves, a list
takes an item without text as its last one, and a reading takes such a form for an error,
because the next one would be read at the same offset again.
-/

namespace LispReader

/-- At every offset a run comes to a reply. Where it accepts, it does not move back, and not
behind the end of the source unless it began there. -/
def Source.Confines {α : Type} (s : Source) (run : Nat → Option (Reply α)) : Prop :=
  ∀ pos, Ends (fun next => pos ≤ next ∧ next ≤ max pos s.width) (run pos)

theorem Source.Confines.confined {α : Type} {s : Source} {run : Nat → Option (Reply α)}
    (h : s.Confines run) : Confined (fun _ => True) s.width run := by
  intro pos _
  exact (h pos).mono fun next hnext => ⟨trivial, hnext⟩

/-! ## Loops of rules -/

section Rules

variable {node : NodeHandle → Depth → Nat → Option (Reply Form)}
  {skip : SkipHandle → Depth → Nat → Option (Reply Unit)} {v : View}

/-- Trivia has one reply for all rounds that suffice. It accepts up to an offset where no part
moves. -/
theorem SkipRule.exists_trivia_reply {parts : List SkipHandle}
    (hparts : ∀ part ∈ parts, v.source.Confines (skip part v.depth)) (pos : Nat) :
    ∃ reply,
      (∀ rounds, v.source.width + 2 ≤ rounds →
        ((SkipRule.trivia parts).script rounds v pos).run node skip = some reply) ∧
      ∀ x next e, reply = .accept x next e → pos ≤ next ∧ next ≤ max pos v.source.width ∧
        ∀ part ∈ parts, Idle (skip part v.depth) next := by
  have hconfined : ∀ part ∈ parts,
      Confined (fun _ => True) v.source.width (skip part v.depth) := fun part hpart =>
    (hparts part hpart).confined
  have hrounds : v.source.width - pos < v.source.width + 2 := by omega
  have hends : Ends _ (((SkipRule.trivia parts).script (v.source.width + 2) v pos).run node skip) :=
    triviaFrom_ends hconfined trivial hrounds
  obtain ⟨reply, hreply⟩ := hends.exists_reply
  rw [hreply] at hends
  refine ⟨reply, ?_, ?_⟩
  · intro rounds hle
    exact ((SkipRule.trivia parts).script_cut v pos hle).run (fun _ _ _ _ h => h)
      (fun _ _ _ _ h => h) hreply
  · rintro x next e rfl
    obtain ⟨⟨-, hle, hmax⟩, hidle⟩ := hends
    exact ⟨hle, hmax, hidle⟩

namespace NodeRule

variable {expression : NodeHandle} {trivia : SkipHandle} {rounds : Nat}

/-- What a list comes to: a reply which, if it accepts, is of items that were collected. -/
def Lists (node : NodeHandle → Depth → Nat → Option (Reply Form)) (expression : NodeHandle)
    (depth : Depth) (pos : Nat) (result : Option (Reply Form)) : Prop :=
  ∃ reply, result = some reply ∧ ∀ f next e, reply = .accept f next e →
    ∃ inner items start stop, depth.inner? = some inner ∧ f = .list items ⟨pos, next⟩ ∧
      Collected (node expression inner) start items stop

theorem lists_reject {depth : Depth} {pos : Nat} (e : Expectation) :
    Lists node expression depth pos (some (.reject e)) := by
  refine ⟨_, rfl, ?_⟩
  intro f next e' h
  cases h

theorem lists_abort {depth : Depth} {pos : Nat} (fault : Fault) :
    Lists node expression depth pos (some (.abort fault)) := by
  refine ⟨_, rfl, ?_⟩
  intro f next e h
  cases h

theorem lists_closeList {inner : Depth} {items : List Form} {start stop : Nat}
    (hinner : v.depth.inner? = some inner)
    (hitems : Collected (node expression inner) start items stop) (pos : Nat) (e : Expectation) :
    Lists node expression v.depth pos
      ((closeList v pos items.reverse stop e).run node skip) := by
  rw [closeList]
  split
  next =>
    refine ⟨_, rfl, ?_⟩
    intro f next e' h
    cases h
    exact ⟨inner, items, start, stop, hinner, by simp, hitems⟩
  next => exact lists_reject _

theorem lists_listScript (htrivia : v.source.Confines (skip trivia v.depth))
    (hexpression : ∀ inner, v.depth.inner? = some inner →
      v.source.Confines (node expression inner))
    (hrounds : v.source.width < rounds) (pos : Nat) :
    Lists node expression v.depth pos
      ((listScript expression trivia rounds v pos).run node skip) := by
  rw [listScript]
  split
  next =>
    cases hinner : v.depth.inner? with
    | none => exact lists_abort _
    | some inner =>
      refine Script.skipOptional_rule lists_abort htrivia.confined .intro ?_
      intro next _ _
      refine itemsFrom_rule lists_abort (hexpression inner hinner).confined .intro (by omega) ?_
      intro items stop e _ hitems
      simpa using lists_closeList hinner hitems pos e
  next => exact lists_reject _

/-- A list has one reply for all rounds that suffice. -/
theorem exists_list_reply (htrivia : v.source.Confines (skip trivia v.depth))
    (hexpression : ∀ inner, v.depth.inner? = some inner →
      v.source.Confines (node expression inner)) (pos : Nat) :
    ∃ reply,
      (∀ rounds, v.source.width + 2 ≤ rounds →
        ((NodeRule.list expression trivia).script rounds v pos).run node skip = some reply) ∧
      ∀ f next e, reply = .accept f next e → ∃ inner items start stop,
        v.depth.inner? = some inner ∧ f = .list items ⟨pos, next⟩ ∧
        Collected (node expression inner) start items stop := by
  obtain ⟨reply, hreply, hitems⟩ :=
    lists_listScript htrivia hexpression (show _ < v.source.width + 2 by omega) pos
  refine ⟨reply, ?_, hitems⟩
  intro rounds hle
  exact ((NodeRule.list expression trivia).script_cut v pos hle).run (fun _ _ _ _ h => h)
    (fun _ _ _ _ h => h) hreply

end NodeRule

end Rules

/-! ## Loops of readings -/

namespace Reading

variable {r : Reading} {pos stop : Nat} {e e' : Expectation} {f : Form} {fs : List Form}

theorem offset_notEnded (e : Expectation) (pos : Nat) :
    (notEnded e pos).offset = max e.offset pos :=
  Expectation.offset_merge e (Expectation.one pos Wanted.endOfInput)

/-- Where nothing got further, the end of the source is among what was expected, unless a string
literal had no end. -/
theorem cause_notEnded (h : (notEnded e pos).offset = pos) :
    Wanted.stringTerminator ∈ e.items ∧ (notEnded e pos).cause = .unterminatedString ∨
    ∃ wanted, (notEnded e pos).cause = .unexpected wanted ∧ Wanted.endOfInput ∈ wanted := by
  have hle : e.offset ≤ pos := by
    rw [offset_notEnded] at h
    exact Nat.le_trans (Nat.le_max_left e.offset pos) (Nat.le_of_eq h)
  have hend : Wanted.endOfInput ∈ (e.merge (Expectation.one pos Wanted.endOfInput)).items :=
    Expectation.mem_items_merge.mpr (Or.inr ⟨List.mem_cons_self, hle⟩)
  by_cases hstring :
      Wanted.stringTerminator ∈ (e.merge (Expectation.one pos Wanted.endOfInput)).items
  · left
    refine ⟨?_, Notation.ofExpectation_eq_unterminated hstring⟩
    rcases Expectation.mem_items_merge.mp hstring with h | h
    · exact h.1
    · have heq : Wanted.stringTerminator = Wanted.endOfInput := List.mem_singleton.mp h.1
      exact absurd heq (by decide)
  · have hne := Expectation.ne_none_of_mem hend
    exact Or.inr ⟨_, Notation.ofExpectation_eq_unexpected hne hstring, hend⟩

/-- A form without text is an error at its offset, or where something got further. -/
theorem Guarded.forms_of_idle {V : Nat → Prop} (hr : r.Guarded V) (hfuel : r.source.width < r.fuel)
    (hstart : r.start = some (.ok pos)) (hreads : r.Reads pos Expectation.none fs stop e)
    (hnode : r.node Grammar.expression r.depth stop = some (.accept f stop e')) :
    r.forms = some (.error ((notEnded (e.merge e') stop).locate r.source.text)) := by
  have hstep : r.step stop e = some (.failed (notEnded (e.merge e') stop)) := by
    simp only [step, hnode, if_true]
  rcases hr.start_cases with ⟨fault, h⟩ | ⟨pos', h, hpos⟩
  · cases hstart.symm.trans h
  · cases hstart.symm.trans h
    have hlength := hr.length_le_of_reads hreads hpos
    exact hreads.forms_of_failed hstart (by omega) hstep

end Reading

/-- The guards of all loops suffice for rules that stay within the source, whatever they do.
Trivia, lists and readings come to a result that more rounds do not change. Trivia stops where
none of its parts moves. An item without text is the last one of its list. A form without text
is an error, at its offset or behind it, and at its offset the end of the source is wanted. -/
theorem loops_end (v : View) (node : NodeHandle → Depth → Nat → Option (Reply Form))
    (skip : SkipHandle → Depth → Nat → Option (Reply Unit)) (r : Reading) :
    (∀ parts, (∀ part ∈ parts, v.source.Confines (skip part v.depth)) → ∀ pos, ∃ reply,
      (∀ rounds, v.source.width + 2 ≤ rounds →
        ((SkipRule.trivia parts).script rounds v pos).run node skip = some reply) ∧
      ∀ x next e, reply = .accept x next e → pos ≤ next ∧ next ≤ max pos v.source.width ∧
        ∀ part ∈ parts, Idle (skip part v.depth) next) ∧
    (∀ expression trivia, v.source.Confines (skip trivia v.depth) →
      (∀ inner, v.depth.inner? = some inner → v.source.Confines (node expression inner)) →
      ∀ pos, ∃ reply,
        (∀ rounds, v.source.width + 2 ≤ rounds →
          ((NodeRule.list expression trivia).script rounds v pos).run node skip = some reply) ∧
        ∀ f next e, reply = .accept f next e → ∃ inner items start stop,
          v.depth.inner? = some inner ∧ f = .list items ⟨pos, next⟩ ∧
          NodeRule.Collected (node expression inner) start items stop) ∧
    (r.source.Confines (r.node Grammar.expression r.depth) →
      r.source.Confines (r.skip Grammar.trivia r.depth) →
      (r.grammar.settings.allowShebang = true →
        r.source.Confines (r.skip Grammar.shebang r.depth)) →
      (∀ forms pos e, ∃ result, ∀ rounds, r.source.width + 2 ≤ rounds →
        r.formsFrom rounds forms pos e = some result) ∧
      (∃ items, (FormStream.mk r .fresh).Delivers items ∧ items.length < r.source.width + 2) ∧
      (r.source.width + 2 ≤ r.fuel →
        (∃ result, r.forms = some result) ∧
        ∀ pos fs p e f e', r.start = some (.ok pos) → r.Reads pos Expectation.none fs p e →
          r.node Grammar.expression r.depth p = some (.accept f p e') →
          ∃ d, r.forms = some (.error d) ∧ p ≤ d.offset ∧
            (d.offset = p →
              Wanted.stringTerminator ∈ (e.merge e').items ∧ d.cause = .unterminatedString ∨
              ∃ wanted, d.cause = .unexpected wanted ∧ Wanted.endOfInput ∈ wanted))) := by
  refine ⟨?_, ?_, ?_⟩
  · intro parts hparts pos
    exact SkipRule.exists_trivia_reply hparts pos
  · intro expression trivia htrivia hexpression pos
    exact NodeRule.exists_list_reply htrivia hexpression pos
  · intro hnode htrivia hshebang
    have hr : r.Guarded fun _ => True :=
      ⟨.intro, hnode.confined, htrivia.confined, fun hallowed => (hshebang hallowed).confined⟩
    refine ⟨?_, ?_, ?_⟩
    · intro forms pos e
      obtain ⟨result, hresult⟩ := hr.exists_formsFrom forms e (show (fun _ => True) pos from trivial)
      exact ⟨result, fun rounds hle => hresult rounds (by omega)⟩
    · obtain ⟨items, hitems, hlength⟩ := hr.exists_delivers
      exact ⟨items, hitems, by omega⟩
    · intro hfuel
      refine ⟨hr.exists_forms (by omega), ?_⟩
      intro pos fs p e f e' hstart hreads hidle
      refine ⟨_, hr.forms_of_idle (by omega) hstart hreads hidle, ?_, Reading.cause_notEnded⟩
      have hoffset := Reading.offset_notEnded (e.merge e') p
      exact Nat.le_trans (Nat.le_max_right _ p) (Nat.le_of_eq hoffset.symm)

/-- A grammar of the letter `a` alone, in which nothing is skipped. -/
def Grammar.letters : Grammar where
  nodeRules := Array.replicate 5 letterOrNothing
  skipRules := Array.replicate 4 (.custom fun _ pos => .answer (.done () pos))
  slots := builtins
  settings := .fragment

theorem Source.lt_width_of_rest {s : Source} {pos : Nat} {c : Char} {t : Text}
    (h : s.rest pos = c :: t) : pos < s.width := by
  cases hs : s.suffix? pos with
  | none => simp [rest, hs] at h
  | some u =>
    have hwidth := width_of_suffix? hs
    have hpos := Text.width_pos (List.cons_ne_nil c t)
    rw [rest_of_suffix? hs] at h
    rw [hwidth, h]
    omega

theorem Source.confines_letters_node (s : Source) (fuel : Nat) (slot : NodeHandle)
    (depth : Depth) : s.Confines (Grammar.letters.runNode s (fuel + 1) slot depth) := by
  intro pos
  rw [Grammar.runNode]
  split
  next rule hrule =>
    obtain rfl : rule = Grammar.letterOrNothing := by
      simpa [Grammar.letters] using Array.mem_of_getElem? hrule
    simp only [Grammar.letterOrNothing, NodeRule.script, View.rest]
    split
    next t hrest =>
      have hwidth := lt_width_of_rest hrest
      exact ⟨Nat.le_succ pos, Nat.le_trans hwidth (Nat.le_max_right pos _)⟩
    next => exact ⟨Nat.le_refl pos, Nat.le_max_left pos _⟩
  next => exact trivial

theorem Source.confines_letters_skip (s : Source) (fuel : Nat) (slot : SkipHandle)
    (depth : Depth) : s.Confines (Grammar.letters.runSkip s (fuel + 1) slot depth) := by
  intro pos
  rw [Grammar.runSkip]
  split
  next rule hrule =>
    obtain rfl : rule = .custom fun _ pos => .answer (.done () pos) := by
      simpa [Grammar.letters] using Array.mem_of_getElem? hrule
    exact ⟨Nat.le_refl pos, Nat.le_max_left pos _⟩
  next => exact trivial

/-- What a rule sees in front of a list of one letter. -/
def lettersView : View := ⟨Source.ofText ['(', 'a', ')'], some 1⟩

/-- A reading of two letters. -/
def lettersReading : Reading := ⟨Grammar.letters, Source.ofText ['a', 'a'], 4⟩

/-- Trivia that does not move, a list whose last item has no text, and a reading that meets a
form without text behind two letters. -/
theorem loops_end_letters :
    (∀ rounds, 5 ≤ rounds →
      ((SkipRule.trivia [Grammar.comment]).script rounds lettersView 1).run
        (Grammar.letters.runNode lettersView.source 1)
        (Grammar.letters.runSkip lettersView.source 1) =
          some (.accept () 1 Expectation.none)) ∧
    (∀ rounds, 5 ≤ rounds →
      ((NodeRule.list Grammar.expression Grammar.trivia).script rounds lettersView 0).run
        (Grammar.letters.runNode lettersView.source 1)
        (Grammar.letters.runSkip lettersView.source 1) =
          some (.accept (.list [.atom ['a'] ⟨1, 2⟩, .list [] ⟨2, 2⟩] ⟨0, 3⟩) 3
            Expectation.none)) ∧
    (∃ items, (FormStream.mk lettersReading .fresh).Delivers items ∧ items.length < 4) ∧
    ∃ d, lettersReading.forms = some (.error d) ∧ 2 ≤ d.offset := by
  have hnode := fun (s : Source) (fuel : Nat) => s.confines_letters_node fuel
  have hskip := fun (s : Source) (fuel : Nat) => s.confines_letters_skip fuel
  obtain ⟨htrivia, hlist, hreading⟩ := loops_end lettersView
    (Grammar.letters.runNode lettersView.source 1) (Grammar.letters.runSkip lettersView.source 1)
    lettersReading
  refine ⟨?_, ?_, ?_⟩
  · obtain ⟨reply, hreply, -⟩ := htrivia [Grammar.comment] (fun part _ => hskip _ 0 part _) 1
    intro rounds hle
    exact (hreply rounds hle).trans (hreply 5 (by decide)).symm
  · obtain ⟨reply, hreply, -⟩ := hlist Grammar.expression Grammar.trivia (hskip _ 0 _ _)
      (fun inner _ => hnode _ 0 _ inner) 0
    intro rounds hle
    exact (hreply rounds hle).trans (hreply 5 (by decide)).symm
  · obtain ⟨-, hitems, hforms⟩ := hreading (hnode _ 3 _ _) (hskip _ 3 _ _)
      (fun hallowed => absurd hallowed (by decide))
    obtain ⟨-, hidle⟩ := hforms (by decide)
    obtain ⟨d, hd, hoffset, -⟩ := hidle 0 [.atom ['a'] ⟨0, 1⟩, .atom ['a'] ⟨1, 2⟩] 2
      Expectation.none (.list [] ⟨2, 2⟩) Expectation.none rfl (.cons rfl (.cons rfl .nil)) rfl
    exact ⟨hitems, d, hd, hoffset⟩

end LispReader
