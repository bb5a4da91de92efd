import LispReader.Proofs.Run.Fuel
import LispReader.Proofs.Run.Progress
import LispReader.Proofs.Run.Stream

/-!
# Dialects come to an end

A dialect of library rules in which no link leads back to its beginning reads every
source to its end. The runs that are open at once move through the source, and
between two moves they go down along the links; the fuel of a reading covers both.
What a slot accepts never lies behind the end of the source, and stops at a
character boundary.
-/

namespace LispReader

/-! ## Runs of a slot -/

namespace Grammar

variable {g : Grammar} {source : Source} {fuel pos left : Nat} {depth : Depth}

namespace Ranks

/-- Fuel for a slot that skips text, with so many bytes left: a level for each link,
and a round for each byte. -/
def skipFuel (ranks : g.Ranks) (slot : SkipHandle) (left : Nat) : Nat :=
  ranks.skip slot + left + 2

/-- Fuel for a slot that makes forms, with so many bytes left. For each byte there are
as many levels as slots, and then the fuel for what is skipped. -/
def nodeFuel (ranks : g.Ranks) (slot : NodeHandle) (left : Nat) : Nat :=
  ranks.node slot + (g.nodeRules.size + 1) * left + (g.skipRules.size + left + 3)

variable (ranks : g.Ranks)

theorem skipFuel_lt_nodeFuel (slot : SkipHandle) (slot' : NodeHandle) (left : Nat) :
    ranks.skipFuel slot left < ranks.nodeFuel slot' left := by
  have hle := ranks.skip_le slot
  rw [skipFuel, nodeFuel]
  omega

/-- One byte less outweighs every rank. -/
theorem nodeFuel_lt {left' : Nat} (h : left < left') (slot slot' : NodeHandle) :
    ranks.nodeFuel slot left < ranks.nodeFuel slot' left' := by
  have hle := ranks.node_le slot
  have hmul := Nat.mul_le_mul_left (g.nodeRules.size + 1) (Nat.succ_le_of_lt h)
  rw [Nat.mul_succ] at hmul
  rw [nodeFuel, nodeFuel]
  omega

/-- The fuel of a reading covers every slot at every offset. -/
theorem nodeFuel_le_enoughFuel (hg : g.HasLibraryRules) (slot : NodeHandle)
    (h : left ≤ source.width) : ranks.nodeFuel slot left ≤ g.enoughFuel source := by
  have hle := ranks.node_le slot
  have hskip : 2 < g.skipRules.size := hg.trivia
  rw [nodeFuel, enoughFuel]
  calc ranks.node slot + (g.nodeRules.size + 1) * left + (g.skipRules.size + left + 3)
      ≤ (g.nodeRules.size + 1) * left + 1 * left +
          (g.nodeRules.size + g.skipRules.size + 1) * 4 := by omega
    _ ≤ (g.nodeRules.size + 1) * left + g.skipRules.size * left +
          (g.nodeRules.size + g.skipRules.size + 1) * 4 := by
        have := Nat.mul_le_mul_right left (show 1 ≤ g.skipRules.size by omega)
        omega
    _ = (g.nodeRules.size + g.skipRules.size + 1) * (left + 4) := by
        rw [← Nat.add_mul, Nat.add_right_comm, ← Nat.mul_add]
    _ ≤ (g.nodeRules.size + g.skipRules.size + 1) *
          (source.width + g.settings.depth.getD 0 + 4) :=
        Nat.mul_le_mul_left _ (by omega)

end Ranks

variable (ranks : g.Ranks)

/-- A slot that skips text comes to a reply and does not move back. -/
theorem ends_runSkip (hg : g.HasLibraryRules) {slot : SkipHandle} (hpos : source.IsBoundary pos)
    (hfuel : ranks.skipFuel slot (source.width - pos) ≤ fuel) :
    Ends (source.BoundaryFrom pos) (g.runSkip source fuel slot depth pos) := by
  induction fuel generalizing slot depth pos with
  | zero =>
    rw [Ranks.skipFuel] at hfuel
    omega
  | succ fuel ih =>
    rw [Ranks.skipFuel] at hfuel
    rw [runSkip]
    split
    next rule hrule =>
      refine SkipRule.ends_script (hg.skip rule (Array.mem_of_getElem? hrule)) hpos (by omega) ?_
      rintro parts rfl part hpart next ⟨hle, hnext⟩
      have hlt := ranks.skip_lt ⟨parts, hrule, hpart⟩
      refine ih hnext ?_
      rw [Ranks.skipFuel]
      omega
    next => exact trivial

/-- A slot that makes forms comes to a reply and moves on. -/
theorem ends_runNode (hg : g.HasLibraryRules) {slot : NodeHandle} (hpos : source.IsBoundary pos)
    (hfuel : ranks.nodeFuel slot (source.width - pos) ≤ fuel) :
    Ends (source.BoundaryFrom (pos + 1)) (g.runNode source fuel slot depth pos) := by
  induction fuel generalizing slot depth pos with
  | zero =>
    rw [Ranks.nodeFuel] at hfuel
    omega
  | succ fuel ih =>
    rw [runNode]
    split
    next rule hrule =>
      refine NodeRule.ends_script (hg.node rule (Array.mem_of_getElem? hrule)) hpos ?_ ?_ ?_ ?_
      · rw [Ranks.nodeFuel] at hfuel
        omega
      · -- What is skipped lies further on.
        rintro skipped next ⟨hlt, hnext⟩
        have hwidth := hnext.le_width
        have hbehind := ranks.nodeFuel_lt (show source.width - next < source.width - pos by omega)
          slot slot
        have hskipped := ranks.skipFuel_lt_nodeFuel skipped slot (source.width - next)
        exact ends_runSkip ranks hg hnext (by omega)
      · rintro item inner next ⟨hlt, hnext⟩
        have hwidth := hnext.le_width
        have hbehind := ranks.nodeFuel_lt (show source.width - next < source.width - pos by omega)
          item slot
        exact ih hnext (by omega)
      · rintro alternatives trivia rfl alternative hmem
        have hlt := ranks.node_lt ⟨alternatives, trivia, hrule, hmem⟩
        refine ih hpos ?_
        rw [Ranks.nodeFuel] at hfuel ⊢
        omega
    next => exact trivial

end Grammar

/-! ## Readings -/

namespace Reading

/-- At every boundary the slots come to a reply, those for forms move on, and a loop
over the bytes of the source is not cut off. -/
structure Advances (r : Reading) : Prop where
  node : ∀ slot depth pos, r.source.IsBoundary pos →
    Ends (r.source.BoundaryFrom (pos + 1)) (r.node slot depth pos)
  skip : ∀ slot depth pos, r.source.IsBoundary pos →
    Ends (r.source.BoundaryFrom pos) (r.skip slot depth pos)
  rounds : r.source.width < r.fuel

variable {r : Reading}

theorem Advances.guarded (hr : r.Advances) : r.Guarded r.source.IsBoundary := by
  have hskip : ∀ slot, Confined r.source.IsBoundary r.source.width (r.skip slot r.depth) := by
    intro slot pos hpos
    refine (hr.skip slot r.depth pos hpos).mono ?_
    intro next hnext
    exact ⟨hnext.2, hnext.1, hnext.2.le_width.trans (Nat.le_max_right pos _)⟩
  refine ⟨r.source.isBoundary_zero, ?_, hskip Grammar.trivia, fun _ => hskip Grammar.shebang⟩
  intro pos hpos
  refine (hr.node Grammar.expression r.depth pos hpos).mono ?_
  intro next hnext
  exact ⟨hnext.2, (Nat.le_succ pos).trans hnext.1,
    hnext.2.le_width.trans (Nat.le_max_right pos _)⟩

theorem Advances.exists_forms (hr : r.Advances) : ∃ result, r.forms = some result :=
  hr.guarded.exists_forms hr.rounds

theorem Advances.exists_formBy (hr : r.Advances) (handle : NodeHandle) :
    ∃ result, r.formBy handle = some result := by
  rw [formBy]
  have htrivia := hr.guarded.trivia
  rcases skipOptional_cases htrivia r.source.isBoundary_zero with ⟨fault, h⟩ | ⟨pos, h, hpos⟩
  · rw [h]
    exact ⟨_, rfl⟩
  rw [h]
  dsimp only
  have hnode := hr.node handle r.depth pos hpos
  match r.node handle r.depth pos, hnode with
  | some (.accept f next e), hnext =>
    dsimp only
    rcases skipOptional_cases htrivia hnext.2 with ⟨fault, h⟩ | ⟨stop, h, -⟩
    · rw [h]
      exact ⟨_, rfl⟩
    · rw [h]
      dsimp only
      split
      · exact ⟨_, rfl⟩
      · exact ⟨_, rfl⟩
  | some (.reject e), _ => exact ⟨_, rfl⟩
  | some (.abort fault), _ => exact ⟨_, rfl⟩

end Reading

theorem FormStream.exists_delivers {r : Reading} (hr : r.Advances) :
    ∃ items, (FormStream.mk r .fresh).Delivers items := by
  obtain ⟨items, hitems, -⟩ := hr.guarded.exists_delivers
  exact ⟨items, hitems⟩

/-! ## Dialects without left recursion -/

namespace Grammar

variable {g : Grammar}

theorem advances (ranks : g.Ranks) (hg : g.HasLibraryRules) {source : Source} {fuel : Nat}
    (hfuel : g.enoughFuel source ≤ fuel) : (Reading.mk g source fuel).Advances where
  node := by
    intro slot depth pos hpos
    have hle := ranks.nodeFuel_le_enoughFuel hg slot (Nat.sub_le source.width pos)
    exact ends_runNode ranks hg hpos (hle.trans hfuel)
  skip := by
    intro slot depth pos hpos
    have hle := ranks.nodeFuel_le_enoughFuel hg expression (Nat.sub_le source.width pos)
    have hlt := ranks.skipFuel_lt_nodeFuel slot expression (source.width - pos)
    exact ends_runSkip ranks hg hpos (hlt.le.trans (hle.trans hfuel))
  rounds := by
    have hle := ranks.nodeFuel_le_enoughFuel hg expression (Nat.le_refl source.width)
    rw [Ranks.nodeFuel] at hle
    dsimp only
    omega

/-- At a boundary a slot for forms has one reply, with all fuel that suffices a reading. -/
theorem exists_runNode (ranks : g.Ranks) (hg : g.HasLibraryRules) {source : Source} {pos : Nat}
    (slot : NodeHandle) (depth : Depth) (hpos : source.IsBoundary pos) :
    ∃ reply, Ends (source.BoundaryFrom (pos + 1)) (some reply) ∧
      ∀ fuel, g.enoughFuel source ≤ fuel → g.runNode source fuel slot depth pos = some reply := by
  have hends := (g.advances ranks hg (Nat.le_refl (g.enoughFuel source))).node slot depth pos hpos
  obtain ⟨reply, hreply⟩ := hends.exists_reply
  refine ⟨reply, hreply ▸ hends, ?_⟩
  intro fuel hfuel
  exact (g.extends_of_le source hfuel).1 slot depth pos reply hreply

theorem exists_runSkip (ranks : g.Ranks) (hg : g.HasLibraryRules) {source : Source} {pos : Nat}
    (slot : SkipHandle) (depth : Depth) (hpos : source.IsBoundary pos) :
    ∃ reply, Ends (source.BoundaryFrom pos) (some reply) ∧
      ∀ fuel, g.enoughFuel source ≤ fuel → g.runSkip source fuel slot depth pos = some reply := by
  have hends := (g.advances ranks hg (Nat.le_refl (g.enoughFuel source))).skip slot depth pos hpos
  obtain ⟨reply, hreply⟩ := hends.exists_reply
  refine ⟨reply, hreply ▸ hends, ?_⟩
  intro fuel hfuel
  exact (g.extends_of_le source hfuel).2 slot depth pos reply hreply

end Grammar

/-- A dialect of library rules without left recursion comes to an end: it reads every
source at once, form by form, and as one form of any slot. Every run of a slot at a
boundary comes to a reply that more fuel does not change. A run that accepts a form,
with whatever fuel, ends at a boundary further on, and one that skips text at a
boundary that is not further back. -/
theorem LibraryDialect.terminates {g : Grammar} (hg : LibraryDialect g)
    (hnode : ∀ slot, ¬ Relation.TransGen g.AltLink slot slot)
    (hskip : ∀ slot, ¬ Relation.TransGen g.PartLink slot slot) (t : Text) :
    (∃ result, g.read t = some result) ∧
    (∃ items, (g.stream t).Delivers items) ∧
    (∀ name, ∃ result, g.readSlot name t = some result) ∧
    (∀ slot depth pos, (Source.ofText t).IsBoundary pos →
      ∃ reply, ∀ fuel, g.enoughFuel (Source.ofText t) ≤ fuel →
        g.runNode (Source.ofText t) fuel slot depth pos = some reply) ∧
    (∀ slot depth pos, (Source.ofText t).IsBoundary pos →
      ∃ reply, ∀ fuel, g.enoughFuel (Source.ofText t) ≤ fuel →
        g.runSkip (Source.ofText t) fuel slot depth pos = some reply) ∧
    (∀ fuel slot depth pos f next e, (Source.ofText t).IsBoundary pos →
      g.runNode (Source.ofText t) fuel slot depth pos = some (.accept f next e) →
        pos < next ∧ next ≤ Text.width t ∧ (Source.ofText t).IsBoundary next) ∧
    (∀ fuel slot depth pos next e, (Source.ofText t).IsBoundary pos →
      g.runSkip (Source.ofText t) fuel slot depth pos = some (.accept () next e) →
        pos ≤ next ∧ next ≤ Text.width t ∧ (Source.ofText t).IsBoundary next) := by
  have hrules := hg.hasLibraryRules
  obtain ⟨ranks⟩ := Grammar.nonempty_ranks_iff.mpr ⟨hnode, hskip⟩
  have hr : (g.reading t).Advances := Grammar.advances ranks hrules (Nat.le_refl _)
  refine ⟨hr.exists_forms, FormStream.exists_delivers hr, ?_, ?_, ?_, ?_, ?_⟩
  · intro name
    rw [Grammar.readSlot]
    cases g.nodeHandle name with
    | error error => exact ⟨_, rfl⟩
    | ok handle =>
      obtain ⟨result, hresult⟩ := hr.exists_formBy handle
      refine ⟨(Reading.locate (g.reading t) result).mapError .source, ?_⟩
      dsimp only
      rw [Reading.slot, hresult]
      rfl
  · intro slot depth pos hpos
    obtain ⟨reply, -, hreply⟩ := Grammar.exists_runNode ranks hrules slot depth hpos
    exact ⟨reply, hreply⟩
  · intro slot depth pos hpos
    obtain ⟨reply, -, hreply⟩ := Grammar.exists_runSkip ranks hrules slot depth hpos
    exact ⟨reply, hreply⟩
  · intro fuel slot depth pos f next e hpos h
    obtain ⟨reply, hends, hreply⟩ := Grammar.exists_runNode ranks hrules slot depth hpos
    obtain rfl := Grammar.runNode_unique h (hreply _ (Nat.le_refl _))
    exact ⟨hends.1, hends.2.le_width, hends.2⟩
  · intro fuel slot depth pos next e hpos h
    obtain ⟨reply, hends, hreply⟩ := Grammar.exists_runSkip ranks hrules slot depth hpos
    obtain rfl := Grammar.runSkip_unique h (hreply _ (Nat.le_refl _))
    exact ⟨hends.1, hends.2.le_width, hends.2⟩

/-- Expressions are lists, and what a slot of another grammar reads, which is nothing. -/
theorem LibraryDialect.terminates_foreign :
    ∃ g, (Grammar.standard .unlimited).replace "expression"
        (.node (.alternation [⟨5⟩, Grammar.list] Grammar.trivia)) = .ok g ∧
      LibraryDialect g ∧ (∀ slot, ¬ Relation.TransGen g.AltLink slot slot) ∧
      (∀ slot, ¬ Relation.TransGen g.PartLink slot slot) ∧
      ∃ result, g.read ['(', '(', ')', ')'] = some result := by
  obtain ⟨g, hg⟩ : ∃ g, (Grammar.standard .unlimited).replace "expression"
      (.node (.alternation [⟨5⟩, Grammar.list] Grammar.trivia)) = .ok g := ⟨_, rfl⟩
  have hrule : LibraryRule (.node (.alternation [⟨5⟩, Grammar.list] Grammar.trivia)) :=
    .node trivial
  have hdialect : LibraryDialect g := .replace (.standard .unlimited) hrule hg
  have hnodes : g.nodeRules = #[.atom Alphabet.isReserved, .string,
      .list Grammar.expression Grammar.trivia, .quote Grammar.expression Grammar.trivia,
      .alternation [⟨5⟩, Grammar.list] Grammar.trivia] := by
    cases hg
    rfl
  have hskips : g.skipRules = (Grammar.standard .unlimited).skipRules := by
    cases hg
    rfl
  have hnode : ∀ slot, ¬ Relation.TransGen g.AltLink slot slot := by
    refine not_transGen_self (fun slot => if slot = Grammar.expression then 1 else 0) ?_
    rintro ⟨a⟩ b ⟨alternatives, trivia, h, hmem⟩
    rw [hnodes] at h
    rcases a with _ | _ | _ | _ | _ | a
    all_goals cases h
    simp at hmem
    rcases hmem with rfl | rfl <;> decide
  have hskip : ∀ slot, ¬ Relation.TransGen g.PartLink slot slot := by
    refine not_transGen_self (fun slot => if slot = Grammar.trivia then 1 else 0) ?_
    rintro ⟨a⟩ b ⟨parts, h, hmem⟩
    rw [hskips] at h
    rcases a with _ | _ | _ | _ | a
    all_goals cases h
    simp at hmem
    rcases hmem with rfl | rfl <;> decide
  exact ⟨g, hg, hdialect, hnode, hskip, (hdialect.terminates hnode hskip _).1⟩

end LispReader
