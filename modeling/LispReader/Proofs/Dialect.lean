import Mathlib.Data.Finset.Card
import Mathlib.Data.Finset.Range
import Mathlib.Logic.Relation
import LispReader.Grammar.Basic

/-!
# Dialects of library rules

The grammars that are made from the standard one with rules of the library alone:
no script of their own, but any handles, also of slots that another grammar has.
Rules lead to each other at the same offset in two ways, from an alternation to its
alternatives and from trivia to its parts. Where neither way leads back to its
beginning, every slot has a rank that falls along the links.
-/

namespace LispReader

/-! ## Rules of the library -/

/-- All rules that make forms, except for the scripts of a dialect. -/
def NodeRule.IsLibrary : NodeRule → Prop
  | .custom _ => False
  | _ => True

/-- All rules that skip text, except for the scripts of a dialect. -/
def SkipRule.IsLibrary : SkipRule → Prop
  | .custom _ => False
  | _ => True

def Rule.IsLibrary : Rule → Prop
  | .node rule => rule.IsLibrary
  | .skip rule => rule.IsLibrary

mutual
/-- The grammars that come from the standard one by requests with library rules. -/
inductive LibraryDialect : Grammar → Prop where
  | standard (settings : Settings) : LibraryDialect (.standard settings)
  | replace {g g' : Grammar} {name : String} {rule : Rule} (hg : LibraryDialect g)
      (hrule : LibraryRule rule) (h : g.replace name rule = .ok g') : LibraryDialect g'
  | define {g g' : Grammar} {name : String} {rule : Rule} (hg : LibraryDialect g)
      (hrule : LibraryRule rule) (h : g.define name rule = .ok g') : LibraryDialect g'

/-- The rules of such requests: new ones with any handles, and those that a slot of
some dialect holds. -/
inductive LibraryRule : Rule → Prop where
  | node {rule : NodeRule} (h : rule.IsLibrary) : LibraryRule (.node rule)
  | skip {rule : SkipRule} (h : rule.IsLibrary) : LibraryRule (.skip rule)
  | clone {g : Grammar} {name : String} {rule : Rule} (hg : LibraryDialect g)
      (h : g.ruleOf name = .ok rule) : LibraryRule rule
end

namespace Grammar

variable {g g' : Grammar} {name : String} {rule : Rule}

/-- A rule is put into a slot of its kind, which the grammar has already. -/
theorem replace_cases (h : g.replace name rule = .ok g') :
    (∃ handle nodeRule, rule = .node nodeRule ∧ g.slot? name = some (.node handle) ∧
      g' = { g with nodeRules := g.nodeRules.setIfInBounds handle.index nodeRule }) ∨
    (∃ handle skipRule, rule = .skip skipRule ∧ g.slot? name = some (.skip handle) ∧
      g' = { g with skipRules := g.skipRules.setIfInBounds handle.index skipRule }) := by
  unfold replace at h
  split at h
  next => exact absurd h nofun
  next handle rule hslot =>
    exact Or.inl ⟨handle, rule, rfl, hslot, (Except.ok.inj h).symm⟩
  next handle rule hslot =>
    exact Or.inr ⟨handle, rule, rfl, hslot, (Except.ok.inj h).symm⟩
  next => exact absurd h nofun

/-- A rule that is put into a slot takes the place of another one and changes no further. -/
theorem rules_of_replace {nodeRule : NodeRule} (h : g.replace name (.node nodeRule) = .ok g') :
    (∀ rule ∈ g'.nodeRules, rule ∈ g.nodeRules ∨ rule = nodeRule) ∧
      g'.skipRules = g.skipRules := by
  rcases replace_cases h with ⟨handle, rule, heq, -, rfl⟩ | ⟨handle, rule, heq, -, rfl⟩
  · obtain rfl := Rule.node.inj heq
    exact ⟨fun rule hmem => Array.mem_or_eq_of_mem_setIfInBounds hmem, rfl⟩
  · exact absurd heq nofun

/-- A slot is added behind those of its kind, with a name that no slot has. -/
theorem define_cases (h : g.define name rule = .ok g') :
    g.slot? name = none ∧
      ((∃ nodeRule, rule = .node nodeRule ∧
        g' = { g with
          nodeRules := g.nodeRules.push nodeRule
          slots := g.slots ++ [(name, .node ⟨g.nodeRules.size⟩)] }) ∨
      (∃ skipRule, rule = .skip skipRule ∧
        g' = { g with
          skipRules := g.skipRules.push skipRule
          slots := g.slots ++ [(name, .skip ⟨g.skipRules.size⟩)] })) := by
  unfold define at h
  split at h
  next => exact absurd h nofun
  next rule hslot => exact ⟨hslot, Or.inl ⟨rule, rfl, (Except.ok.inj h).symm⟩⟩
  next rule hslot => exact ⟨hslot, Or.inr ⟨rule, rfl, (Except.ok.inj h).symm⟩⟩

/-- Every slot holds a rule of the library, and there is a slot for trivia. -/
structure HasLibraryRules (g : Grammar) : Prop where
  node : ∀ rule ∈ g.nodeRules, rule.IsLibrary
  skip : ∀ rule ∈ g.skipRules, rule.IsLibrary
  trivia : Grammar.trivia.index < g.skipRules.size

theorem hasLibraryRules_standard (settings : Settings) : (standard settings).HasLibraryRules where
  node := by
    intro rule hmem
    simp only [standard, List.mem_toArray, List.mem_cons, List.not_mem_nil, or_false] at hmem
    rcases hmem with rfl | rfl | rfl | rfl | rfl <;> exact trivial
  skip := by
    intro rule hmem
    simp only [standard, List.mem_toArray, List.mem_cons, List.not_mem_nil, or_false] at hmem
    rcases hmem with rfl | rfl | rfl | rfl <;> exact trivial
  trivia := (by decide : 2 < 4)

theorem HasLibraryRules.replace (hg : g.HasLibraryRules) (hrule : rule.IsLibrary)
    (h : g.replace name rule = .ok g') : g'.HasLibraryRules := by
  rcases replace_cases h with ⟨handle, rule, rfl, -, rfl⟩ | ⟨handle, rule, rfl, -, rfl⟩
  · refine { hg with node := ?_ }
    intro rule' hmem
    rcases Array.mem_or_eq_of_mem_setIfInBounds hmem with hmem | rfl
    · exact hg.node rule' hmem
    · exact hrule
  · refine { hg with skip := ?_, trivia := ?_ }
    · intro rule' hmem
      rcases Array.mem_or_eq_of_mem_setIfInBounds hmem with hmem | rfl
      · exact hg.skip rule' hmem
      · exact hrule
    · rw [Array.size_setIfInBounds]
      exact hg.trivia

theorem HasLibraryRules.define (hg : g.HasLibraryRules) (hrule : rule.IsLibrary)
    (h : g.define name rule = .ok g') : g'.HasLibraryRules := by
  rcases define_cases h with ⟨-, ⟨rule, rfl, rfl⟩ | ⟨rule, rfl, rfl⟩⟩
  · refine { hg with node := ?_ }
    intro rule' hmem
    rcases Array.mem_push.mp hmem with hmem | rfl
    · exact hg.node rule' hmem
    · exact hrule
  · refine { hg with skip := ?_, trivia := ?_ }
    · intro rule' hmem
      rcases Array.mem_push.mp hmem with hmem | rfl
      · exact hg.skip rule' hmem
      · exact hrule
    · rw [Array.size_push]
      exact Nat.lt_succ_of_lt hg.trivia

theorem HasLibraryRules.isLibrary_of_ruleOf (hg : g.HasLibraryRules)
    (h : g.ruleOf name = .ok rule) : rule.IsLibrary := by
  rw [ruleOf] at h
  split at h
  · split at h
    next hr => exact Except.ok.inj h ▸ hg.node _ (Array.mem_of_getElem? hr)
    next => exact absurd h nofun
  · split at h
    next hr => exact Except.ok.inj h ▸ hg.skip _ (Array.mem_of_getElem? hr)
    next => exact absurd h nofun
  · exact absurd h nofun

end Grammar

mutual
theorem LibraryDialect.hasLibraryRules {g : Grammar} : LibraryDialect g → g.HasLibraryRules
  | .standard settings => Grammar.hasLibraryRules_standard settings
  | .replace hg hrule h => hg.hasLibraryRules.replace hrule.isLibrary h
  | .define hg hrule h => hg.hasLibraryRules.define hrule.isLibrary h

theorem LibraryRule.isLibrary {rule : Rule} : LibraryRule rule → rule.IsLibrary
  | .node h => h
  | .skip h => h
  | .clone hg h => hg.hasLibraryRules.isLibrary_of_ruleOf h
end

/-! ## Links between slots -/

namespace Grammar

variable (g : Grammar)

/-- The first slot holds an alternation, and the second is one of its alternatives. -/
def AltLink (a b : NodeHandle) : Prop :=
  ∃ alternatives trivia, g.nodeRules[a.index]? = some (.alternation alternatives trivia) ∧
    b ∈ alternatives

/-- The first slot holds trivia, and the second is one of its parts. -/
def PartLink (a b : SkipHandle) : Prop :=
  ∃ parts, g.skipRules[a.index]? = some (.trivia parts) ∧ b ∈ parts

/-- A number for each slot that is smaller at the end of every link, and at most
the number of slots. -/
structure Ranks where
  node : NodeHandle → Nat
  skip : SkipHandle → Nat
  node_le : ∀ slot, node slot ≤ g.nodeRules.size
  skip_le : ∀ slot, skip slot ≤ g.skipRules.size
  node_lt : ∀ {a b}, g.AltLink a b → node b < node a
  skip_lt : ∀ {a b}, g.PartLink a b → skip b < skip a

end Grammar

theorem NodeHandle.index_injective : Function.Injective NodeHandle.index := by
  rintro ⟨a⟩ ⟨b⟩ rfl
  rfl

theorem SkipHandle.index_injective : Function.Injective SkipHandle.index := by
  rintro ⟨a⟩ ⟨b⟩ rfl
  rfl

section Rank

variable {α : Type} {r : α → α → Prop} {index : α → Nat} {size : Nat}

open Classical in
/-- The numbers below a bound that belong to what a relation reaches. -/
noncomputable def reachedBelow (r : α → α → Prop) (index : α → Nat) (size : Nat) (a : α) :
    Finset Nat :=
  (Finset.range size).filter fun i => ∃ c, index c = i ∧ Relation.ReflTransGen r a c

theorem mem_reachedBelow {a : α} {i : Nat} :
    i ∈ reachedBelow r index size a ↔
      i < size ∧ ∃ c, index c = i ∧ Relation.ReflTransGen r a c := by
  classical
  rw [reachedBelow, Finset.mem_filter, Finset.mem_range]

theorem card_reachedBelow_le (a : α) : (reachedBelow r index size a).card ≤ size := by
  classical
  exact (Finset.card_filter_le _ _).trans (Finset.card_range size).le

/-- Without cycles, less is reached from the right side of a relation than from the left,
which is not reached any more. -/
theorem card_reachedBelow_lt (hindex : Function.Injective index)
    (hr : ∀ a, ¬ Relation.TransGen r a a) {a b : α} (hab : r a b) (ha : index a < size) :
    (reachedBelow r index size b).card < (reachedBelow r index size a).card := by
  apply Finset.card_lt_card
  constructor
  · intro i hi
    obtain ⟨hi, c, hc, hbc⟩ := mem_reachedBelow.mp hi
    exact mem_reachedBelow.mpr ⟨hi, c, hc, hbc.head hab⟩
  · intro hsub
    obtain ⟨-, c, hc, hbc⟩ := mem_reachedBelow.mp (hsub (mem_reachedBelow.mpr ⟨ha, a, rfl, .refl⟩))
    obtain rfl := hindex hc
    exact hr c (.head' hab hbc)

/-- A relation that falls along some number has no cycles. -/
theorem not_transGen_self (rank : α → Nat) (h : ∀ {a b}, r a b → rank b < rank a) (a : α) :
    ¬ Relation.TransGen r a a := by
  have hlt : ∀ {b}, Relation.TransGen r a b → rank b < rank a := by
    intro b hab
    induction hab with
    | single hab => exact h hab
    | tail _ hbc ih => exact (h hbc).trans ih
  exact fun ha => Nat.lt_irrefl _ (hlt ha)

end Rank

/-- The slots can be ranked if and only if no link leads back to its beginning. -/
theorem Grammar.nonempty_ranks_iff {g : Grammar} :
    Nonempty g.Ranks ↔ (∀ slot, ¬ Relation.TransGen g.AltLink slot slot) ∧
      ∀ slot, ¬ Relation.TransGen g.PartLink slot slot := by
  constructor
  · rintro ⟨ranks⟩
    exact ⟨not_transGen_self ranks.node ranks.node_lt, not_transGen_self ranks.skip ranks.skip_lt⟩
  · rintro ⟨hnode, hskip⟩
    exact ⟨{
      node := fun slot => (reachedBelow g.AltLink NodeHandle.index g.nodeRules.size slot).card
      skip := fun slot => (reachedBelow g.PartLink SkipHandle.index g.skipRules.size slot).card
      node_le := card_reachedBelow_le
      skip_le := card_reachedBelow_le
      node_lt := by
        rintro a b ⟨alternatives, trivia, h, hmem⟩
        exact card_reachedBelow_lt NodeHandle.index_injective hnode
          ⟨alternatives, trivia, h, hmem⟩ (Array.getElem?_eq_some_iff.mp h).1
      skip_lt := by
        rintro a b ⟨parts, h, hmem⟩
        exact card_reachedBelow_lt SkipHandle.index_injective hskip
          ⟨parts, h, hmem⟩ (Array.getElem?_eq_some_iff.mp h).1 }⟩

end LispReader
