import LispReader.FormStream
import LispReader.Proofs.Run.Region

/-!
# What readings depend on

A reading depends on the settings of its grammar and on the slots that it can reach: the
ones it begins with, those whose handles their rules hold, and so on. Grammars that agree
there read every source alike, all at once or form by form. So nobody who replaces a rule
out of reach changes a reading, and neither does a new slot, unless a rule within reach
holds the very handle that the slot gets, as one of another grammar may.

Whether a reading comes to an end is covered, too: it does in one grammar with the fuel
with which it does in the other.
-/

namespace LispReader

/-! ## Readings that reply more often -/

namespace Reading

/-- Where the slots that the first reading begins with reply, they reply the same in the
second one. -/
structure ExtendedBy (r r' : Reading) : Prop where
  source : r'.source = r.source
  settings : r'.grammar.settings = r.grammar.settings
  fuel : r.fuel ≤ r'.fuel
  expression : ∀ depth pos reply, r.node Grammar.expression depth pos = some reply →
    r'.node Grammar.expression depth pos = some reply
  trivia : ∀ depth pos reply, r.skip Grammar.trivia depth pos = some reply →
    r'.skip Grammar.trivia depth pos = some reply
  shebang : ∀ depth pos reply, r.skip Grammar.shebang depth pos = some reply →
    r'.skip Grammar.shebang depth pos = some reply

variable {r r' : Reading}

theorem ExtendedBy.depth (h : r.ExtendedBy r') : r'.depth = r.depth := by
  rw [Reading.depth, Reading.depth, h.settings]

theorem skipOptional_of_skip {slot : SkipHandle} {depth : Depth} {pos : Nat}
    {result : Except Fault Nat}
    (hskip : ∀ reply, r.skip slot depth pos = some reply → r'.skip slot depth pos = some reply)
    (h : r.skipOptional slot depth pos = some result) :
    r'.skipOptional slot depth pos = some result := by
  cases hreply : r.skip slot depth pos with
  | none =>
    rw [skipOptional, hreply] at h
    cases h
  | some reply =>
    rw [skipOptional, hreply] at h
    rw [skipOptional, hskip reply hreply]
    exact h

theorem ExtendedBy.start (h : r.ExtendedBy r') {result : Except Fault Nat}
    (hstart : r.start = some result) : r'.start = some result := by
  rw [Reading.start] at hstart ⊢
  rw [h.settings, h.depth]
  by_cases hshebang : r.grammar.settings.allowShebang = true
  · rw [if_pos hshebang] at hstart ⊢
    cases hfirst : r.skipOptional Grammar.shebang r.depth 0 with
    | none =>
      rw [hfirst] at hstart
      cases hstart
    | some first =>
      rw [hfirst] at hstart
      rw [skipOptional_of_skip (h.shebang _ _) hfirst]
      cases first with
      | ok pos => exact skipOptional_of_skip (h.trivia _ _) hstart
      | error fault => exact hstart
  · rw [if_neg hshebang] at hstart ⊢
    exact skipOptional_of_skip (h.trivia _ _) hstart

theorem ExtendedBy.step (h : r.ExtendedBy r') {pos : Nat} {e : Expectation} {step : Step}
    (hstep : r.step pos e = some step) : r'.step pos e = some step := by
  rw [Reading.step] at hstep ⊢
  rw [h.depth, h.source]
  cases hreply : r.node Grammar.expression r.depth pos with
  | none =>
    rw [hreply] at hstep
    cases hstep
  | some reply =>
    rw [hreply] at hstep
    rw [h.expression _ _ reply hreply]
    exact hstep

theorem ExtendedBy.formsFrom (h : r.ExtendedBy r') {rounds rounds' : Nat}
    (hle : rounds ≤ rounds') {forms : List Form} {pos : Nat} {e : Expectation}
    {result : Except Fault (List Form)} (hforms : r.formsFrom rounds forms pos e = some result) :
    r'.formsFrom rounds' forms pos e = some result := by
  induction rounds generalizing rounds' forms pos e with
  | zero => cases hforms
  | succ rounds ih =>
    obtain ⟨n, rfl⟩ : ∃ n, rounds' = n + 1 := ⟨rounds' - 1, by omega⟩
    rw [Reading.formsFrom] at hforms ⊢
    cases hstep : r.step pos e with
    | none =>
      rw [hstep] at hforms
      cases hforms
    | some step =>
      rw [hstep] at hforms
      rw [h.step hstep]
      cases step with
      | form f next e' => exact ih (by omega) hforms
      | finished => exact hforms
      | failed fault => exact hforms

theorem ExtendedBy.locate (h : r.ExtendedBy r') {α : Type} (result : Except Fault α) :
    r'.locate result = r.locate result := by
  rw [Reading.locate, Reading.locate, h.source]

/-- A reading that comes to an end comes to the same end when more slots reply. -/
theorem ExtendedBy.forms (h : r.ExtendedBy r') {result : Except Diagnostic (List Form)}
    (hforms : r.forms = some result) : r'.forms = some result := by
  rw [Reading.forms] at hforms ⊢
  cases hstart : r.start with
  | none =>
    rw [hstart] at hforms
    cases hforms
  | some start =>
    rw [hstart] at hforms
    rw [h.start hstart, h.source]
    cases start with
    | error fault => exact hforms
    | ok pos =>
      obtain ⟨found, hfound, rfl⟩ := Option.map_eq_some_iff.mp hforms
      exact Option.map_eq_some_iff.mpr ⟨found, h.formsFrom h.fuel hfound, h.locate found⟩

/-- The same for a single slot, if it replies more often as well. -/
theorem ExtendedBy.slot (h : r.ExtendedBy r') {handle : NodeHandle}
    (hhandle : ∀ depth pos reply, r.node handle depth pos = some reply →
      r'.node handle depth pos = some reply)
    {result : Except Diagnostic Form} (hslot : r.slot handle = some result) :
    r'.slot handle = some result := by
  obtain ⟨found, hfound, rfl⟩ := Option.map_eq_some_iff.mp hslot
  refine Option.map_eq_some_iff.mpr ⟨found, ?_, h.locate found⟩
  rw [formBy] at hfound ⊢
  rw [h.depth, h.source]
  cases hfirst : r.skipOptional Grammar.trivia r.depth 0 with
  | none =>
    rw [hfirst] at hfound
    cases hfound
  | some first =>
    rw [hfirst] at hfound
    rw [skipOptional_of_skip (h.trivia _ _) hfirst]
    cases first with
    | error fault => exact hfound
    | ok pos =>
      dsimp only at hfound ⊢
      cases hreply : r.node handle r.depth pos with
      | none =>
        rw [hreply] at hfound
        cases hfound
      | some reply =>
        rw [hreply] at hfound
        rw [hhandle _ _ reply hreply]
        cases reply with
        | reject e => exact hfound
        | abort fault => exact hfound
        | accept f next e =>
          dsimp only at hfound ⊢
          cases hlast : r.skipOptional Grammar.trivia r.depth next with
          | none =>
            rw [hlast] at hfound
            cases hfound
          | some last =>
            rw [hlast] at hfound
            rw [skipOptional_of_skip (h.trivia _ _) hlast]
            exact hfound

end Reading

namespace FormStream

variable {r r' : Reading}

theorem nextAt_of_extendedBy (h : r.ExtendedBy r') {place : Place} {pos : Nat} {e : Expectation}
    {item : Option (Except Diagnostic Form)} {rest : FormStream}
    (hnext : (FormStream.mk r place).nextAt pos e = some (item, rest)) :
    (FormStream.mk r' place).nextAt pos e = some (item, ⟨r', rest.place⟩) ∧ rest.reading = r := by
  rw [nextAt] at hnext ⊢
  cases hstep : r.step pos e with
  | none =>
    rw [hstep] at hnext
    cases hnext
  | some step =>
    rw [hstep] at hnext
    rw [h.step hstep]
    cases step with
    | form f next e' =>
      obtain ⟨rfl, rfl⟩ := Prod.mk.inj (Option.some.inj hnext)
      exact ⟨rfl, rfl⟩
    | finished =>
      obtain ⟨rfl, rfl⟩ := Prod.mk.inj (Option.some.inj hnext)
      exact ⟨rfl, rfl⟩
    | failed fault =>
      obtain ⟨rfl, rfl⟩ := Prod.mk.inj (Option.some.inj hnext)
      dsimp only
      rw [fail, h.source]
      exact ⟨rfl, rfl⟩

theorem next_of_extendedBy (h : r.ExtendedBy r') {place : Place}
    {item : Option (Except Diagnostic Form)} {rest : FormStream}
    (hnext : (FormStream.mk r place).next = some (item, rest)) :
    (FormStream.mk r' place).next = some (item, ⟨r', rest.place⟩) ∧ rest.reading = r := by
  cases place with
  | fresh =>
    rw [next] at hnext ⊢
    cases hstart : r.start with
    | none =>
      simp only [hstart] at hnext
      cases hnext
    | some start =>
      simp only [hstart] at hnext
      simp only [h.start hstart]
      cases start with
      | ok pos => exact nextAt_of_extendedBy h hnext
      | error fault =>
        obtain ⟨rfl, rfl⟩ := Prod.mk.inj (Option.some.inj hnext)
        dsimp only
        rw [fail, h.source]
        exact ⟨rfl, rfl⟩
  | next pos e => exact nextAt_of_extendedBy h hnext
  | ended =>
    obtain ⟨rfl, rfl⟩ := Prod.mk.inj (Option.some.inj hnext)
    exact ⟨rfl, rfl⟩

/-- What a stream delivers it delivers as well when more slots reply. -/
theorem take_of_extendedBy (h : r.ExtendedBy r') {place : Place} {n : Nat}
    {items : List (Except Diagnostic Form) × Bool}
    (htake : (FormStream.mk r place).take n = some items) :
    (FormStream.mk r' place).take n = some items := by
  induction n generalizing place items with
  | zero => exact htake
  | succ n ih =>
    rw [take] at htake ⊢
    cases hnext : (FormStream.mk r place).next with
    | none =>
      rw [hnext] at htake
      cases htake
    | some found =>
      obtain ⟨item, rest, place'⟩ := found
      obtain ⟨hnext', rfl⟩ := next_of_extendedBy h hnext
      rw [hnext] at htake
      rw [hnext']
      cases item with
      | none => exact htake
      | some item =>
        obtain ⟨found, hfound, rfl⟩ := Option.map_eq_some_iff.mp htake
        exact Option.map_eq_some_iff.mpr ⟨found, ih hfound, rfl⟩

end FormStream

/-! ## Grammars that agree in a closed region -/

namespace Grammar

/-- Two grammars read every source alike with the same fuel, at once, form by form, and as
one form of any slot in a region. -/
def ReadsAlike (g g' : Grammar) (region : Set Slot) : Prop :=
  ∀ source fuel, (Reading.mk g' source fuel).forms = (Reading.mk g source fuel).forms ∧
    (∀ n, (FormStream.mk ⟨g', source, fuel⟩ .fresh).take n =
      (FormStream.mk ⟨g, source, fuel⟩ .fresh).take n) ∧
    ∀ handle, .node handle ∈ region →
      (Reading.mk g' source fuel).slot handle = (Reading.mk g source fuel).slot handle

variable {g g' : Grammar} {region : Set Slot} {source : Source} {fuel fuel' : Nat}

theorem AgreeOn.refl (g : Grammar) (region : Set Slot) : g.AgreeOn g region where
  settings := rfl
  rules := fun _ _ => rfl

theorem Closed.extendedBy (hg : g.Closed region) (h : g.AgreeOn g' region) (source : Source)
    (hle : fuel ≤ fuel') : (Reading.mk g source fuel).ExtendedBy (Reading.mk g' source fuel') where
  source := rfl
  settings := h.settings
  fuel := hle
  expression := (hg.extends h source hle).1 Grammar.expression hg.expression
  trivia := (hg.extends h source hle).2 Grammar.trivia hg.trivia
  shebang := (hg.extends h source hle).2 Grammar.shebang hg.shebang

/-- Each of the two extends the other one. -/
theorem Closed.readsAlike (hg : g.Closed region) (h : g.AgreeOn g' region) :
    g.ReadsAlike g' region := by
  intro source fuel
  have hg' := hg.of_agreeOn h
  have hthere := hg.extendedBy h source (Nat.le_refl fuel)
  have hback := hg'.extendedBy h.symm source (Nat.le_refl fuel)
  refine ⟨?_, ?_, ?_⟩
  · apply Option.ext
    intro result
    exact ⟨hback.forms, hthere.forms⟩
  · intro n
    apply Option.ext
    intro items
    exact ⟨FormStream.take_of_extendedBy hback, FormStream.take_of_extendedBy hthere⟩
  · intro handle hmem
    apply Option.ext
    intro result
    exact ⟨hback.slot ((hg'.extends h.symm source (Nat.le_refl fuel)).1 handle hmem),
      hthere.slot ((hg.extends h source (Nat.le_refl fuel)).1 handle hmem)⟩

/-- Results are compared at the larger one of two fuels. -/
theorem Closed.forms_unique (hg : g.Closed region) (h : g.AgreeOn g' region)
    {result result' : Except Diagnostic (List Form)}
    (hforms : (Reading.mk g source fuel).forms = some result)
    (hforms' : (Reading.mk g' source fuel').forms = some result') : result = result' := by
  have hl := (hg.extendedBy h source (Nat.le_max_left fuel fuel')).forms hforms
  have hr := ((hg.of_agreeOn h).extendedBy (.refl g' region) source
    (Nat.le_max_right fuel fuel')).forms hforms'
  exact Option.some.inj (hl.symm.trans hr)

theorem Closed.take_unique (hg : g.Closed region) (h : g.AgreeOn g' region) {n : Nat}
    {items items' : List (Except Diagnostic Form) × Bool}
    (htake : (FormStream.mk ⟨g, source, fuel⟩ .fresh).take n = some items)
    (htake' : (FormStream.mk ⟨g', source, fuel'⟩ .fresh).take n = some items') :
    items = items' := by
  have hl := FormStream.take_of_extendedBy
    (hg.extendedBy h source (Nat.le_max_left fuel fuel')) htake
  have hr := FormStream.take_of_extendedBy ((hg.of_agreeOn h).extendedBy (.refl g' region) source
    (Nat.le_max_right fuel fuel')) htake'
  exact Option.some.inj (hl.symm.trans hr)

/-! ## Changes out of reach -/

variable {name : String} {slot : Slot} {rule : Rule}

theorem agreeOn_replace (h : g.replace name rule = .ok g') (hslot : g.slot? name = some slot)
    (hout : slot ∉ region) : g.AgreeOn g' region := by
  rw [replace_eq, hslot] at h
  dsimp only at h
  split at h
  next =>
    obtain rfl := Except.ok.inj h
    refine ⟨by cases slot <;> cases rule <;> rfl, ?_⟩
    intro other hother
    exact rule?_put_of_ne fun heq => hout (heq ▸ hother)
  next => cases h

theorem enoughFuel_replace (h : g.replace name rule = .ok g') (source : Source) :
    g'.enoughFuel source = g.enoughFuel source := by
  rcases replace_cases h with ⟨handle, rule, -, -, rfl⟩ | ⟨handle, rule, -, -, rfl⟩ <;>
    rw [enoughFuel, enoughFuel, Array.size_setIfInBounds]

theorem eq_add_of_define (h : g.define name rule = .ok g') : g' = g.add name rule := by
  rw [define_eq] at h
  split at h
  next => cases h
  next => exact (Except.ok.inj h).symm

theorem agreeOn_add (hnew : g.newSlot rule.kind ∉ region) (name : String) :
    g.AgreeOn (g.add name rule) region where
  settings := by cases rule <;> rfl
  rules := by
    intro slot hslot
    refine rule?_add_of_ne ?_ name
    rintro rfl
    exact hnew hslot

theorem enoughFuel_le_add (g : Grammar) (name : String) (rule : Rule) (source : Source) :
    g.enoughFuel source ≤ (g.add name rule).enoughFuel source := by
  cases rule with
  | node rule =>
    rw [enoughFuel, enoughFuel, add]
    dsimp only
    rw [Array.size_push]
    exact Nat.mul_le_mul_right _ (by omega)
  | skip rule =>
    rw [enoughFuel, enoughFuel, add]
    dsimp only
    rw [Array.size_push]
    exact Nat.mul_le_mul_right _ (by omega)

/-- A slot that no rule of a closed region holds yet can be left out of it. -/
theorem Closed.without_newSlot (hg : g.Closed region) (hn : g.Numbered) (kind : RuleKind)
    (h : ∀ slot ∈ region, ¬ g.Holds slot (g.newSlot kind)) :
    g.Closed (region \ {g.newSlot kind}) := by
  have hbuiltin : ∀ name slot, (name, slot) ∈ Grammar.builtins → slot ≠ g.newSlot kind :=
    fun _ _ hmem => ne_newSlot_of_hasSlot (hn.hasSlot (hn.slot?_of_mem_builtins hmem)) kind
  refine ⟨⟨hg.expression, ?_⟩, ⟨hg.trivia, ?_⟩, ⟨hg.shebang, ?_⟩, ?_⟩
  · exact hbuiltin "expression" _ (by simp [Grammar.builtins])
  · exact hbuiltin "trivia" _ (by simp [Grammar.builtins])
  · exact hbuiltin "shebang" _ (by simp [Grammar.builtins])
  · intro slot hslot held hheld
    refine ⟨hg.held slot hslot.1 held hheld, ?_⟩
    rintro rfl
    exact h slot hslot.1 hheld

theorem Closed.readSlot_add (hg : g.Closed region) (hnew : g.newSlot rule.kind ∉ region)
    {other : String} (hslot : g.slot? other = some slot) (hmem : slot ∈ region) {t : Text}
    {result : Except SlotError Form} (h : g.readSlot other t = some result) :
    (g.add name rule).readSlot other t = some result := by
  have hslot' : (g.add name rule).slot? other = some slot := by
    rw [slot?_add, hslot, Option.some_or]
  have hle := g.enoughFuel_le_add name rule (Source.ofText t)
  cases slot with
  | skip handle =>
    rw [readSlot, nodeHandle, hslot] at h
    rw [readSlot, nodeHandle, hslot']
    exact h
  | node handle =>
    rw [readSlot, nodeHandle_eq_ok_iff.mpr hslot] at h
    rw [readSlot, nodeHandle_eq_ok_iff.mpr hslot']
    obtain ⟨found, hfound, rfl⟩ := Option.map_eq_some_iff.mp h
    have hagree := agreeOn_add hnew name
    exact Option.map_eq_some_iff.mpr ⟨found, (hg.extendedBy hagree _ hle).slot
      ((hg.extends hagree _ hle).1 handle hmem) hfound, rfl⟩

/-- Grammars with the same settings that hold the same rules in a closed region read alike.
So a rule outside the region can be replaced, and a slot that no rule in the region holds
can be added, and no reading changes. A new slot only ever adds to the fuel. -/
theorem readings_depend_on_reachable_slots :
    (∀ (g g' : Grammar) (region : Set Slot), g.Closed region → g.AgreeOn g' region →
      g.ReadsAlike g' region ∧
      (∀ t result result', g.read t = some result → g'.read t = some result' →
        result = result') ∧
      ∀ t n items items', (g.stream t).take n = some items → (g'.stream t).take n = some items' →
        items = items') ∧
    (∀ (g g' : Grammar) (region : Set Slot) (name : String) (slot : Slot) (rule : Rule),
      g.Closed region → g.slot? name = some slot → slot ∉ region →
      g.replace name rule = .ok g' →
      g.ReadsAlike g' region ∧ ∀ t, g'.read t = g.read t ∧
        ∀ n, (g'.stream t).take n = (g.stream t).take n) ∧
    ∀ (settings : Settings) (requests : List Request) (g g' : Grammar) (region : Set Slot)
      (name : String) (rule : Rule), g = (standard settings).afterAll requests →
      g.Closed region → (∀ slot ∈ region, ¬ g.Holds slot (g.newSlot rule.kind)) →
      g.define name rule = .ok g' →
      g.ReadsAlike g' {slot | slot ∈ region ∧ g.HasSlot slot} ∧
      (∀ t result, g.read t = some result → g'.read t = some result) ∧
      (∀ t n items, (g.stream t).take n = some items → (g'.stream t).take n = some items) ∧
      ∀ other slot, g.slot? other = some slot → slot ∈ region →
        ∀ t result, g.readSlot other t = some result → g'.readSlot other t = some result := by
  refine ⟨?_, ?_, ?_⟩
  · intro g g' region hg hagree
    exact ⟨hg.readsAlike hagree, fun _ _ _ => hg.forms_unique hagree,
      fun _ _ _ _ => hg.take_unique hagree⟩
  · intro g g' region name slot rule hg hslot hout h
    have halike := hg.readsAlike (agreeOn_replace h hslot hout)
    refine ⟨halike, ?_⟩
    intro t
    obtain ⟨hforms, htake, -⟩ := halike (Source.ofText t) (g.enoughFuel (Source.ofText t))
    rw [read, stream, reading, enoughFuel_replace h]
    exact ⟨hforms, htake⟩
  · rintro settings requests g g' region name rule hreached hg hheld h
    have hn : g.Numbered := hreached ▸ (numbered_standard settings).afterAll requests
    have hg := hg.without_newSlot hn rule.kind hheld
    have hnew : g.newSlot rule.kind ∉ region \ {g.newSlot rule.kind} := fun hmem => hmem.2 rfl
    obtain rfl := eq_add_of_define h
    have hagree := agreeOn_add hnew name
    have hle := g.enoughFuel_le_add name rule
    refine ⟨?_, ?_, ?_, ?_⟩
    · intro source fuel
      obtain ⟨hforms, htake, hslot⟩ := hg.readsAlike hagree source fuel
      refine ⟨hforms, htake, ?_⟩
      rintro handle ⟨hmem, hhas⟩
      exact hslot handle ⟨hmem, ne_newSlot_of_hasSlot hhas rule.kind⟩
    · intro t result
      exact (hg.extendedBy hagree (Source.ofText t) (hle _)).forms
    · intro t n items
      exact FormStream.take_of_extendedBy (hg.extendedBy hagree (Source.ofText t) (hle _))
    · intro other slot hslot hmem t result
      exact hg.readSlot_add hnew hslot
        ⟨hmem, ne_newSlot_of_hasSlot (hn.hasSlot hslot) rule.kind⟩

/-- The slots within reach where strings are the only expressions. -/
def stringSlots : Set Slot :=
  {slot | slot ∈ [.node expression, .node string, .skip trivia, .skip shebang, .skip comment,
    .skip whitespace]}

/-- The request after which strings are the only expressions. -/
def onlyStrings : Request := .replace "expression" (.node (.alternation [string] trivia))

theorem closed_stringSlots (settings : Settings) :
    ((standard settings).after onlyStrings).Closed stringSlots where
  expression := by simp [stringSlots]
  trivia := by simp [stringSlots]
  shebang := by simp [stringSlots]
  held := by
    rintro slot hslot held ⟨rule, hrule, hheld⟩
    simp only [stringSlots, Set.mem_ofPred_eq, List.mem_cons, List.not_mem_nil, or_false] at hslot
    rcases hslot with rfl | rfl | rfl | rfl | rfl | rfl <;> obtain rfl := Option.some.inj hrule
    · rcases hheld with ⟨_, hmem, rfl⟩ | rfl
      · obtain rfl := List.mem_singleton.mp hmem
        simp [stringSlots]
      · simp [stringSlots]
    · exact hheld.elim
    · obtain ⟨part, hmem, rfl⟩ := hheld
      simp only [List.mem_cons, List.not_mem_nil, or_false] at hmem
      rcases hmem with rfl | rfl <;> simp [stringSlots]
    · exact hheld.elim
    · exact hheld.elim
    · exact hheld.elim

/-- Where strings are the only expressions, quote operators can get another rule, and a slot
can be added: a source is read as before. -/
theorem readings_depend_on_reachable_slots_strings :
    ∃ g g' g'', g = (standard .fragment).afterAll [onlyStrings] ∧ g.Closed stringSlots ∧
      g.replace "quote" (.node .string) = .ok g' ∧ g.ReadsAlike g' stringSlots ∧
      g'.read ['\'', '"', '"'] = g.read ['\'', '"', '"'] ∧
      g.define "extra" (.node .string) = .ok g'' ∧
      g.ReadsAlike g'' {slot | slot ∈ stringSlots ∧ g.HasSlot slot} ∧
      g''.read ['"', 'a', '"'] = some (.ok [.string ['a'] ⟨0, 3⟩]) ∧
      g''.readSlot "string" ['"', '"'] = some (.ok (.string [] ⟨0, 2⟩)) := by
  have hg : ((standard .fragment).afterAll [onlyStrings]).Closed stringSlots :=
    closed_stringSlots .fragment
  obtain ⟨hagree, hreplace, hdefine⟩ := readings_depend_on_reachable_slots
  have hout : Slot.node quote ∉ stringSlots := by simp [stringSlots, quote, expression, string]
  have hnew : Slot.node ⟨5⟩ ∉ stringSlots := by simp [stringSlots, expression, string]
  have hquote : ((standard .fragment).afterAll [onlyStrings]).slot? "quote" =
    some (.node quote) := rfl
  obtain ⟨g', hg'⟩ : ∃ g', ((standard .fragment).afterAll [onlyStrings]).replace "quote"
    (.node .string) = .ok g' := ⟨_, rfl⟩
  obtain ⟨halike, hread, -, hslot⟩ := hdefine .fragment [onlyStrings] _ _ stringSlots "extra"
    (.node .string) rfl hg (fun slot hslot hheld => hnew (hg.held slot hslot _ hheld)) rfl
  refine ⟨_, g', _, rfl, hg, hg', ?_, ?_, rfl, halike, hread _ _ rfl, ?_⟩
  · exact (hagree _ _ stringSlots hg (agreeOn_replace hg' hquote hout)).1
  · exact ((hreplace _ _ stringSlots "quote" _ (.node .string) hg hquote hout hg').2 _).1
  · exact hslot "string" (.node string) rfl (by simp [stringSlots]) _ _ rfl

end Grammar

end LispReader
