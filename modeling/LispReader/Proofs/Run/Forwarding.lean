import LispReader.Proofs.Run.Visit

/-!
# Forwarding of aborts

A script forwards aborts if an abort of a slot that it asks is its answer. Then only its
last visit can abort, and what the visit aborts with is the answer. All rules of the
library are such scripts, and so are readings. Of the rules that ask other slots, those for
lists and quote operators are the only ones that abort by themselves, too.
-/

namespace LispReader

namespace Script

variable {α : Type} {node : NodeHandle → Depth → Nat → Option (Reply Form)}
  {skip : SkipHandle → Depth → Nat → Option (Reply Unit)} {own own' : Fault → Prop}
  {script : Script α} {fault : Fault}

/-- A script answers with the abort of a slot that it asks, and aborts by itself for some
faults at most. -/
inductive Forwards (own : Fault → Prop) : Script α → Prop where
  | answer {reply : Reply α} (h : ∀ fault, reply.fault? = some fault → own fault) :
      Forwards own (answer reply)
  | askNode {slot : NodeHandle} {depth : Depth} {pos : Nat} {resume : Reply Form → Script α}
      (habort : ∀ fault, resume (.abort fault) = .answer (.abort fault))
      (h : ∀ reply, reply.fault? = none → Forwards own (resume reply)) :
      Forwards own (askNode slot depth pos resume)
  | askSkip {slot : SkipHandle} {depth : Depth} {pos : Nat} {resume : Reply Unit → Script α}
      (habort : ∀ fault, resume (.abort fault) = .answer (.abort fault))
      (h : ∀ reply, reply.fault? = none → Forwards own (resume reply)) :
      Forwards own (askSkip slot depth pos resume)
  | unfinished : Forwards own unfinished

/-- No visit aborts, and the run for such faults at most; or the last visit alone aborts, and
the run with its fault. -/
def AbortsLast (own : Fault → Prop) (visits : List Visit) (run : Option (Reply α)) : Prop :=
  ((∀ visit ∈ visits, visit.fault? = none) ∧ ∀ fault, run = some (.abort fault) → own fault) ∨
  ∃ front last fault, visits = front ++ [last] ∧ (∀ visit ∈ front, visit.fault? = none) ∧
    last.fault? = some fault ∧ run = some (.abort fault)

namespace AbortsLast

variable {visit : Visit} {visits : List Visit} {run : Option (Reply α)}

theorem none_aborts (h : ∀ visit ∈ visits, visit.fault? = none)
    (hrun : ∀ fault, run = some (.abort fault) → own fault) : AbortsLast own visits run :=
  Or.inl ⟨h, hrun⟩

theorem last_aborts (h : visit.fault? = some fault) :
    AbortsLast own [visit] (some (.abort fault : Reply α)) :=
  Or.inr ⟨[], visit, fault, rfl, List.forall_mem_nil _, h, rfl⟩

theorem cons (h : AbortsLast own visits run) (hvisit : visit.fault? = none) :
    AbortsLast own (visit :: visits) run := by
  rcases h with ⟨hnone, hrun⟩ | ⟨front, last, fault, rfl, hnone, hlast, hrun⟩
  · exact .none_aborts (List.forall_mem_cons.mpr ⟨hvisit, hnone⟩) hrun
  · exact Or.inr ⟨visit :: front, last, fault, rfl, List.forall_mem_cons.mpr ⟨hvisit, hnone⟩,
      hlast, hrun⟩

end AbortsLast

namespace Forwards

theorem mono (h : script.Forwards own) (hown : ∀ fault, own fault → own' fault) :
    script.Forwards own' := by
  induction h with
  | answer h => exact .answer fun fault hfault => hown fault (h fault hfault)
  | askNode habort _ ih => exact .askNode habort ih
  | askSkip habort _ ih => exact .askSkip habort ih
  | unfinished => exact .unfinished

/-- Either no visit of a script aborts, or its last one alone, and so does the script. -/
theorem visits_cases (h : script.Forwards own)
    (node : NodeHandle → Depth → Nat → Option (Reply Form))
    (skip : SkipHandle → Depth → Nat → Option (Reply Unit)) :
    AbortsLast own (script.visits node skip) (script.run node skip) := by
  induction h with
  | answer h =>
    refine .none_aborts (List.forall_mem_nil _) ?_
    intro fault hrun
    exact h fault (Reply.fault?_eq_some_iff.mpr (Option.some.inj hrun))
  | unfinished =>
    refine .none_aborts (List.forall_mem_nil _) ?_
    intro fault hrun
    cases hrun
  | @askNode slot depth pos resume habort _ ih =>
    rw [visits, run]
    cases node slot depth pos with
    | none =>
      refine .none_aborts (List.forall_mem_singleton.mpr rfl) ?_
      intro fault hrun
      cases hrun
    | some reply =>
      cases hfault : reply.fault? with
      | none => exact (ih reply hfault).cons hfault
      | some fault =>
        obtain rfl := Reply.fault?_eq_some_iff.mp hfault
        dsimp only
        rw [habort]
        exact .last_aborts hfault
  | @askSkip slot depth pos resume habort _ ih =>
    rw [visits, run]
    cases skip slot depth pos with
    | none =>
      refine .none_aborts (List.forall_mem_singleton.mpr rfl) ?_
      intro fault hrun
      cases hrun
    | some reply =>
      cases hfault : reply.fault? with
      | none => exact (ih reply hfault).cons hfault
      | some fault =>
        obtain rfl := Reply.fault?_eq_some_iff.mp hfault
        dsimp only
        rw [habort]
        exact .last_aborts hfault

/-- What a visit aborts with is the answer. -/
theorem run_of_visit (h : script.Forwards own) {visit : Visit}
    (hvisit : visit ∈ script.visits node skip) (hfault : visit.fault? = some fault) :
    script.run node skip = some (.abort fault) := by
  rcases h.visits_cases node skip with
    ⟨hnone, -⟩ | ⟨front, last, fault', hvisits, hnone, hlast, hrun⟩
  · exact absurd ((hnone visit hvisit).symm.trans hfault) nofun
  · rw [hvisits, List.mem_append, List.mem_singleton] at hvisit
    rcases hvisit with hvisit | rfl
    · exact absurd ((hnone visit hvisit).symm.trans hfault) nofun
    · obtain rfl := Option.some.inj (hlast.symm.trans hfault)
      exact hrun

/-- No visit aborts on the way to an answer that is no abort. -/
theorem fault?_of_mem_visits (h : script.Forwards own) {reply : Reply α}
    (hrun : script.run node skip = some reply) (hreply : reply.fault? = none) :
    ∀ visit ∈ script.visits node skip, visit.fault? = none := by
  intro visit hvisit
  cases hfault : visit.fault? with
  | none => rfl
  | some fault =>
    obtain rfl := Option.some.inj (hrun.symm.trans (h.run_of_visit hvisit hfault))
    exact absurd hreply nofun

end Forwards

/-- A script aborts if it has such a fault by itself or a visit of it aborts, with the same
fault, and for no other reason; and behind a visit that aborts there is no other. -/
def AbortsOnly (own : Fault → Prop) (script : Script α) : Prop :=
  ∀ node skip,
    (∀ fault, script.run node skip = some (.abort fault) ↔
      own fault ∨ ∃ visit ∈ script.visits node skip, visit.fault? = some fault) ∧
    ∀ front visit back, script.visits node skip = front ++ visit :: back →
      visit.fault?.isSome → back = []

theorem Forwards.abortsOnly (h : script.Forwards own)
    (hown : ∀ fault, own fault → script = .answer (.abort fault)) : script.AbortsOnly own := by
  intro node skip
  constructor
  · intro fault
    constructor
    · intro hrun
      rcases h.visits_cases node skip with
        ⟨-, hcause⟩ | ⟨front, last, fault', hvisits, -, hlast, hrun'⟩
      · exact Or.inl (hcause fault hrun)
      · obtain rfl := Reply.abort.inj (Option.some.inj (hrun'.symm.trans hrun))
        exact Or.inr ⟨last, by simp [hvisits], hlast⟩
    · rintro (hfault | ⟨visit, hvisit, hfault⟩)
      · rw [hown fault hfault]
        rfl
      · exact h.run_of_visit hvisit hfault
  · intro front visit back hvisits hfault
    obtain ⟨fault, hfault⟩ := Option.isSome_iff_exists.mp hfault
    rcases h.visits_cases node skip with ⟨hnone, -⟩ | ⟨front', last, -, hvisits', hnone, -, -⟩
    · exact absurd ((hnone visit (by simp [hvisits])).symm.trans hfault) nofun
    · -- All visits but the last come to an end without an abort.
      rcases List.eq_nil_or_concat back with rfl | ⟨back, last', rfl⟩
      · rfl
      · have hcut : front ++ visit :: back ++ [last'] = front' ++ [last] := by
          rw [← hvisits', hvisits]
          simp
        obtain ⟨rfl, -⟩ := List.append_inj' hcut rfl
        exact absurd ((hnone visit (by simp)).symm.trans hfault) nofun

/-! ## Scripts that forward aborts -/

theorem forwards_skipOptional {slot : SkipHandle} {depth : Depth} {pos : Nat}
    {resume : Nat → Script α} (h : ∀ next, (resume next).Forwards own) :
    (skipOptional slot depth pos resume).Forwards own := by
  refine .askSkip (fun fault => rfl) fun reply hreply => ?_
  cases reply with
  | accept _ next _ => exact h next
  | reject _ => exact h pos
  | abort fault => exact absurd hreply nofun

theorem forwards_accept {value : α} {next : Nat} {e : Expectation} :
    (answer (.accept value next e)).Forwards own :=
  .answer nofun

theorem forwards_reject {e : Expectation} : (answer (α := α) (.reject e)).Forwards own :=
  .answer nofun

end Script

open Script

/-! ## Rules of the library -/

variable {own : Fault → Prop} {depth : Depth} {pos rounds : Nat} {v : View}

namespace SkipRule

theorem forwards_eachPart {parts : List SkipHandle} {resume : Nat → Script Unit}
    (h : ∀ next, (resume next).Forwards own) : (eachPart depth parts pos resume).Forwards own := by
  induction parts generalizing pos with
  | nil => exact h pos
  | cons part parts ih => exact forwards_skipOptional fun next => ih

theorem forwards_triviaFrom {parts : List SkipHandle} :
    (triviaFrom parts depth rounds pos).Forwards own := by
  induction rounds generalizing pos with
  | zero => exact .unfinished
  | succ rounds ih =>
    refine forwards_eachPart fun next => ?_
    split
    · exact forwards_accept
    · exact ih

/-- A rule forwards aborts, or is one of a dialect that does. -/
def ForwardsAborts : SkipRule → Prop
  | custom rule => ∀ v pos, (rule v pos).Forwards fun _ => True
  | _ => True

theorem ForwardsAborts.forwards {rule : SkipRule} (h : rule.ForwardsAborts) :
    (rule.script rounds v pos).Forwards fun _ => True := by
  cases rule with
  | trivia parts => exact forwards_triviaFrom
  | custom rule => exact h v pos
  | whitespace => exact .answer fun _ _ => trivial
  | comment => exact .answer fun _ _ => trivial
  | shebang => exact .answer fun _ _ => trivial

end SkipRule

namespace NodeRule

variable {expression : NodeHandle} {trivia : SkipHandle}

theorem forwards_itemsFrom {inner : Depth} {finish : List Form → Nat → Expectation → Script Form}
    {items : List Form} {expected : Expectation}
    (h : ∀ items pos expected, (finish items pos expected).Forwards own) :
    (itemsFrom expression inner finish rounds items pos expected).Forwards own := by
  induction rounds generalizing items pos expected with
  | zero => exact .unfinished
  | succ rounds ih =>
    refine .askNode (fun fault => rfl) fun reply hreply => ?_
    cases reply with
    | accept item next e =>
      dsimp only
      split
      · exact h _ _ _
      · exact ih
    | reject e => exact h _ _ _
    | abort fault => exact absurd hreply nofun

theorem forwards_closeList {start : Nat} {items : List Form} {expected : Expectation} :
    (closeList v start items pos expected).Forwards own := by
  rw [closeList]
  split
  · exact forwards_accept
  · exact forwards_reject

/-- A list cannot be opened at an offset where it begins. -/
def ListTooDeep (v : View) (pos : Nat) (fault : Fault) : Prop :=
  [Alphabet.openParen] <+: v.rest pos ∧ v.depth.inner? = none ∧ fault = ⟨.nestingTooDeep, pos⟩

/-- The list for a quote operator cannot be opened where the operator is. -/
def QuoteTooDeep (v : View) (pos : Nat) (fault : Fault) : Prop :=
  (QuoteOperator.ofText? (v.rest pos)).isSome ∧ v.depth.inner? = none ∧
    fault = ⟨.nestingTooDeep, pos⟩

theorem forwards_listScript :
    (listScript expression trivia rounds v pos).Forwards (ListTooDeep v pos) := by
  rw [listScript]
  split
  next hopen =>
    split
    next hinner =>
      refine .answer fun fault hfault => ⟨List.isPrefixOf_iff_prefix.mp hopen, hinner, ?_⟩
      exact (Option.some.inj hfault).symm
    next inner hinner =>
      exact forwards_skipOptional fun next =>
        forwards_itemsFrom fun items pos expected => forwards_closeList
  next => exact forwards_reject

theorem forwards_quoteScript :
    (quoteScript expression trivia v pos).Forwards (QuoteTooDeep v pos) := by
  rw [quoteScript]
  split
  next => exact forwards_reject
  next op hop =>
    split
    next hinner =>
      refine .answer fun fault hfault => ⟨by simp [hop], hinner, ?_⟩
      exact (Option.some.inj hfault).symm
    next inner hinner =>
      refine forwards_skipOptional fun next => .askNode (fun fault => rfl) fun reply hreply => ?_
      cases reply with
      | accept f next e => exact forwards_accept
      | reject e => exact forwards_reject
      | abort fault => exact absurd hreply nofun

theorem forwards_firstOf {slots : List NodeHandle} {expected : Expectation} :
    (firstOf trivia depth pos slots expected).Forwards own := by
  induction slots generalizing expected with
  | nil => exact forwards_reject
  | cons slot slots ih =>
    refine .askNode (fun fault => rfl) fun reply hreply => ?_
    cases reply with
    | accept f next e => exact forwards_skipOptional fun stop => forwards_accept
    | reject e => exact ih
    | abort fault => exact absurd hreply nofun

/-- A rule forwards aborts, or is one of a dialect that does. -/
def ForwardsAborts : NodeRule → Prop
  | custom rule => ∀ v pos, (rule v pos).Forwards fun _ => True
  | _ => True

theorem ForwardsAborts.forwards {rule : NodeRule} (h : rule.ForwardsAborts) :
    (rule.script rounds v pos).Forwards fun _ => True := by
  cases rule with
  | atom reserved => exact .answer fun _ _ => trivial
  | string => exact .answer fun _ _ => trivial
  | list expression trivia => exact forwards_listScript.mono fun _ _ => True.intro
  | quote expression trivia => exact forwards_quoteScript.mono fun _ _ => True.intro
  | alternation alternatives trivia => exact forwards_firstOf
  | custom rule => exact h v pos

end NodeRule

/-! ## Readings -/

namespace Reading

variable {r : Reading} {α : Type}

theorem forwards_startScript {resume : Nat → Script α} (h : ∀ pos, (resume pos).Forwards own) :
    (r.startScript resume).Forwards own := by
  rw [startScript]
  split
  · exact forwards_skipOptional fun pos => forwards_skipOptional h
  · exact forwards_skipOptional h

theorem forwards_formsScript {forms : List Form} {e : Expectation} :
    (r.formsScript rounds forms pos e).Forwards own := by
  induction rounds generalizing forms pos e with
  | zero => exact .unfinished
  | succ rounds ih =>
    refine .askNode (fun fault => rfl) fun reply hreply => ?_
    cases reply with
    | accept f next e' =>
      dsimp only
      split
      · exact forwards_reject
      · exact ih
    | reject e' =>
      dsimp only
      split
      · exact forwards_accept
      · exact forwards_reject
    | abort fault => exact absurd hreply nofun

/-- A reading does not abort by itself. -/
theorem forwards_script (r : Reading) : r.script.Forwards fun _ => False :=
  forwards_startScript fun _ => forwards_formsScript

theorem forwards_slotScript (r : Reading) (handle : NodeHandle) :
    (r.slotScript handle).Forwards fun _ => False := by
  refine forwards_skipOptional fun pos => .askNode (fun fault => rfl) fun reply hreply => ?_
  cases reply with
  | accept f next e =>
    refine forwards_skipOptional fun stop => ?_
    split
    · exact forwards_accept
    · exact forwards_reject
  | reject e => exact forwards_reject
  | abort fault => exact absurd hreply nofun

end Reading

end LispReader
