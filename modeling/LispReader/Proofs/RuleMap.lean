import LispReader.Proofs.Registry

/-!
# The registry as a map

Behind names, handles and two arrays of rules there is a map from names to rules: a
name has the rule that was stored under it last, whatever was stored under other names
in between. This module runs requests on such a map, where nothing is shared between
names, and proves that a grammar answers as the map does. That no two names lead to one
slot is what the proof rests on.

A rule that was taken from a slot is a value. Where it came from has no bearing on what
it is when it is stored again.
-/

namespace LispReader

/-- Names with the rules stored under them, the last one first. -/
abbrev RuleMap := List (String × Rule)

/-- The name and the rule of a request that stores one. -/
def Request.stored? : Request → Option (String × Rule)
  | .replace name rule => some (name, rule)
  | .define name rule => some (name, rule)
  | .take _ => none

namespace RuleMap

variable (m : RuleMap)

/-- The answer to the request for a rule, if there is one. -/
def orUnknown (name : String) : Option Rule → Except RegistryError Rule
  | some rule => .ok rule
  | none => .error (.unknown name)

/-- The rule that was stored last under a name. -/
def ruleOf (name : String) : Except RegistryError Rule := orUnknown name (m.lookup name)

/-- The answer to a request. -/
def answer : Request → Except RegistryError (Option Rule)
  | .replace name rule =>
    match m.lookup name with
    | some old =>
      if old.kind = rule.kind then .ok none else .error (.kindMismatch name old.kind rule.kind)
    | none => .error (.unknown name)
  | .define name _ =>
    match m.lookup name with
    | some _ => .error (.duplicate name)
    | none => .ok none
  | .take name => (m.ruleOf name).map some

/-- The map behind a request. -/
def after (request : Request) : RuleMap :=
  match m.answer request with
  | .ok _ => request.stored?.toList ++ m
  | .error _ => m

def afterAll (requests : List Request) : RuleMap := requests.foldl after m

/-- The rules of the notation. -/
def standard : RuleMap :=
  [("whitespace", .skip .whitespace), ("comment", .skip .comment),
   ("trivia", .skip (.trivia [Grammar.comment, Grammar.whitespace])),
   ("shebang", .skip .shebang), ("atom", .node (.atom Alphabet.isReserved)),
   ("string", .node .string), ("list", .node (.list Grammar.expression Grammar.trivia)),
   ("quote", .node (.quote Grammar.expression Grammar.trivia)),
   ("expression", .node (.alternation
     [Grammar.list, Grammar.atom, Grammar.string, Grammar.quote] Grammar.trivia))]

theorem orUnknown_eq_ok_iff {name : String} {rule? : Option Rule} {rule : Rule} :
    orUnknown name rule? = .ok rule ↔ rule? = some rule := by
  cases rule? <;> simp [orUnknown]

variable {m}

/-- A rule stays under its name while no other is stored there. -/
theorem lookup_afterAll {name : String} {requests : List Request}
    (h : ∀ request ∈ requests, ∀ entry, request.stored? = some entry → entry.1 ≠ name) :
    (m.afterAll requests).lookup name = m.lookup name := by
  induction requests generalizing m with
  | nil => rfl
  | cons request requests ih =>
    obtain ⟨hrequest, hrequests⟩ := List.forall_mem_cons.mp h
    refine (ih hrequests).trans ?_
    rw [after]
    split
    next =>
      cases hstored : request.stored? with
      | none => rfl
      | some entry =>
        rw [Option.toList_some, List.singleton_append, List.lookup_cons,
          beq_false_of_ne (hrequest entry hstored).symm]
    next => rfl

end RuleMap

/-! ## Rules by slot -/

namespace Grammar

/-- The rule in a slot. -/
def rule? (g : Grammar) : Slot → Option Rule
  | .node handle => g.nodeRules[handle.index]?.map .node
  | .skip handle => g.skipRules[handle.index]?.map .skip

/-- The rule in the slot with a name. -/
def ruleNamed? (g : Grammar) (name : String) : Option Rule := (g.slot? name).bind g.rule?

/-- Puts a rule into a slot, if the slot is one for such rules. -/
def put (g : Grammar) : Slot → Rule → Grammar
  | .node handle, .node rule =>
    { g with nodeRules := g.nodeRules.setIfInBounds handle.index rule }
  | .skip handle, .skip rule =>
    { g with skipRules := g.skipRules.setIfInBounds handle.index rule }
  | .node _, .skip _ => g
  | .skip _, .node _ => g

/-- The slot that the next rule of some kind gets. -/
def newSlot (g : Grammar) : RuleKind → Slot
  | .node => .node ⟨g.nodeRules.size⟩
  | .skip => .skip ⟨g.skipRules.size⟩

/-- Adds a slot for a rule. -/
def add (g : Grammar) (name : String) (rule : Rule) : Grammar :=
  let slots := g.slots ++ [(name, g.newSlot rule.kind)]
  match rule with
  | .node rule => { g with nodeRules := g.nodeRules.push rule, slots := slots }
  | .skip rule => { g with skipRules := g.skipRules.push rule, slots := slots }

variable {g g' : Grammar} {name : String} {slot : Slot} {rule : Rule}

theorem ruleOf_eq (g : Grammar) (name : String) :
    g.ruleOf name = RuleMap.orUnknown name (g.ruleNamed? name) := by
  unfold ruleOf ruleNamed?
  cases g.slot? name with
  | none => rfl
  | some slot =>
    cases slot with
    | node handle =>
      dsimp only [Option.bind_some, rule?]
      cases g.nodeRules[handle.index]? <;> rfl
    | skip handle =>
      dsimp only [Option.bind_some, rule?]
      cases g.skipRules[handle.index]? <;> rfl

theorem ruleOf_eq_ok_iff : g.ruleOf name = .ok rule ↔ g.ruleNamed? name = some rule := by
  rw [ruleOf_eq, RuleMap.orUnknown_eq_ok_iff]

theorem exists_ok_of_map {ε α β : Type} {x : Except ε α} {f : α → β} {b : β}
    (h : x.map f = .ok b) : ∃ a, x = .ok a := by
  cases x with
  | ok a => exact ⟨a, rfl⟩
  | error e => cases h

theorem eq_error_of_map {ε α β : Type} {x : Except ε α} {f : α → β} {e : ε}
    (h : x.map f = .error e) : x = .error e := by
  cases x with
  | ok a => cases h
  | error e' => exact congrArg _ (Except.error.inj h)

theorem lookup_or {name : String} {rule : Rule} {old? : Option Rule} (other : String) :
    (if other = name then some rule else old?) = ([(name, rule)].lookup other).or old? := by
  by_cases h : other = name
  · rw [if_pos h, h, List.lookup_cons_self, Option.some_or]
  · rw [if_neg h, List.lookup_cons, beq_false_of_ne h, List.lookup_nil, Option.none_or]

theorem replace_eq (g : Grammar) (name : String) (rule : Rule) :
    g.replace name rule = match g.slot? name with
      | some slot =>
        if slot.kind = rule.kind then .ok (g.put slot rule)
        else .error (.kindMismatch name slot.kind rule.kind)
      | none => .error (.unknown name) := by
  unfold replace
  cases g.slot? name with
  | none => rfl
  | some slot => cases slot <;> cases rule <;> rfl

theorem define_eq (g : Grammar) (name : String) (rule : Rule) :
    g.define name rule = match g.slot? name with
      | some _ => .error (.duplicate name)
      | none => .ok (g.add name rule) := by
  unfold define
  cases g.slot? name <;> cases rule <;> rfl

theorem kind_of_rule? (h : g.rule? slot = some rule) : slot.kind = rule.kind := by
  cases slot with
  | node handle =>
    obtain ⟨_, -, rfl⟩ := Option.map_eq_some_iff.mp h
    rfl
  | skip handle =>
    obtain ⟨_, -, rfl⟩ := Option.map_eq_some_iff.mp h
    rfl

theorem exists_rule?_of_hasSlot (h : g.HasSlot slot) : ∃ rule, g.rule? slot = some rule := by
  cases slot with
  | node handle =>
    exact ⟨_, congrArg (Option.map Rule.node) (Array.getElem?_eq_getElem h)⟩
  | skip handle =>
    exact ⟨_, congrArg (Option.map Rule.skip) (Array.getElem?_eq_getElem h)⟩

/-! ## Rules behind a change -/

@[simp] theorem slot?_put (g : Grammar) (slot : Slot) (rule : Rule) (name : String) :
    (g.put slot rule).slot? name = g.slot? name := by
  cases slot <;> cases rule <;> rfl

theorem rule?_put_self (h : g.HasSlot slot) (hkind : slot.kind = rule.kind) :
    (g.put slot rule).rule? slot = some rule := by
  cases slot with
  | node handle =>
    cases rule with
    | node rule =>
      exact congrArg (Option.map Rule.node) (Array.getElem?_setIfInBounds_self_of_lt h)
    | skip rule => exact absurd hkind RuleKind.noConfusion
  | skip handle =>
    cases rule with
    | node rule => exact absurd hkind RuleKind.noConfusion
    | skip rule =>
      exact congrArg (Option.map Rule.skip) (Array.getElem?_setIfInBounds_self_of_lt h)

theorem rule?_put_of_ne {other : Slot} (hne : other ≠ slot) :
    (g.put slot rule).rule? other = g.rule? other := by
  cases slot with
  | node handle =>
    cases rule with
    | node rule =>
      cases other with
      | node handle' =>
        refine congrArg (Option.map Rule.node) (Array.getElem?_setIfInBounds_ne ?_)
        exact fun h => hne (congrArg Slot.node (NodeHandle.index_injective h.symm))
      | skip handle' => rfl
    | skip rule => rfl
  | skip handle =>
    cases rule with
    | node rule => rfl
    | skip rule =>
      cases other with
      | node handle' => rfl
      | skip handle' =>
        refine congrArg (Option.map Rule.skip) (Array.getElem?_setIfInBounds_ne ?_)
        exact fun h => hne (congrArg Slot.skip (SkipHandle.index_injective h.symm))

theorem put_put (h : slot.kind = rule.kind) (old : Rule) :
    (g.put slot old).put slot rule = g.put slot rule := by
  cases slot with
  | node handle =>
    cases rule with
    | node rule => cases old <;> simp only [put, Array.setIfInBounds_setIfInBounds]
    | skip rule => exact absurd h RuleKind.noConfusion
  | skip handle =>
    cases rule with
    | node rule => exact absurd h RuleKind.noConfusion
    | skip rule => cases old <;> simp only [put, Array.setIfInBounds_setIfInBounds]

theorem setIfInBounds_of_getElem? {α : Type} {xs : Array α} {i : Nat} {a : α}
    (h : xs[i]? = some a) : xs.setIfInBounds i a = xs := by
  apply Array.ext_getElem?
  intro j
  rw [Array.getElem?_setIfInBounds]
  split
  next hij =>
    subst hij
    rw [if_pos (Array.getElem?_eq_some_iff.mp h).1, h]
  next => rfl

/-- The rule that is in a slot already changes nothing. -/
theorem put_of_rule? (h : g.rule? slot = some rule) : g.put slot rule = g := by
  cases slot with
  | node handle =>
    obtain ⟨rule, hrule, rfl⟩ := Option.map_eq_some_iff.mp h
    rw [put, setIfInBounds_of_getElem? hrule]
  | skip handle =>
    obtain ⟨rule, hrule, rfl⟩ := Option.map_eq_some_iff.mp h
    rw [put, setIfInBounds_of_getElem? hrule]

theorem rule?_add_newSlot (g : Grammar) (name : String) (rule : Rule) :
    (g.add name rule).rule? (g.newSlot rule.kind) = some rule := by
  cases rule with
  | node rule => exact congrArg (Option.map Rule.node) Array.getElem?_push_size
  | skip rule => exact congrArg (Option.map Rule.skip) Array.getElem?_push_size

theorem ne_newSlot_of_hasSlot (h : g.HasSlot slot) (kind : RuleKind) : slot ≠ g.newSlot kind := by
  rintro rfl
  cases kind <;> exact Nat.lt_irrefl _ h

/-- No other slot gets a rule, those that are not there included. -/
theorem rule?_add_of_ne (hne : slot ≠ g.newSlot rule.kind) (name : String) :
    (g.add name rule).rule? slot = g.rule? slot := by
  cases slot with
  | node handle =>
    cases rule with
    | node rule =>
      have hindex : handle.index ≠ g.nodeRules.size := fun h =>
        hne (congrArg (fun i => Slot.node ⟨i⟩) h)
      exact congrArg (Option.map Rule.node) (by rw [add, Array.getElem?_push, if_neg hindex])
    | skip rule => rfl
  | skip handle =>
    cases rule with
    | node rule => rfl
    | skip rule =>
      have hindex : handle.index ≠ g.skipRules.size := fun h =>
        hne (congrArg (fun i => Slot.skip ⟨i⟩) h)
      exact congrArg (Option.map Rule.skip) (by rw [add, Array.getElem?_push, if_neg hindex])

theorem slot?_add (g : Grammar) (name : String) (rule : Rule) (other : String) :
    (g.add name rule).slot? other =
      (g.slot? other).or (if other = name then some (g.newSlot rule.kind) else none) := by
  have hslots : (g.add name rule).slots = g.slots ++ [(name, g.newSlot rule.kind)] := by
    cases rule <;> rfl
  rw [slot?, hslots, List.lookup_append, ← slot?]
  congr 1
  by_cases h : other = name
  · rw [h, List.lookup_cons_self, if_pos rfl]
  · rw [List.lookup_cons, if_neg h, beq_false_of_ne h, List.lookup_nil]

theorem Numbered.exists_ruleNamed? (hg : g.Numbered) (h : g.slot? name = some slot) :
    ∃ rule, g.ruleNamed? name = some rule ∧ slot.kind = rule.kind := by
  obtain ⟨rule, hrule⟩ := exists_rule?_of_hasSlot (hg.hasSlot h)
  refine ⟨rule, ?_, kind_of_rule? hrule⟩
  rw [ruleNamed?, h]
  exact hrule

/-- Another name has another slot, so its rule stays. -/
theorem Numbered.ruleNamed?_replace (hg : g.Numbered) (h : g.replace name rule = .ok g')
    (other : String) :
    g'.ruleNamed? other = if other = name then some rule else g.ruleNamed? other := by
  rw [replace_eq] at h
  split at h
  next slot hslot =>
    split at h
    next hkind =>
      obtain rfl := Except.ok.inj h
      rw [ruleNamed?, slot?_put]
      by_cases hname : other = name
      · rw [if_pos hname, hname, hslot]
        exact rule?_put_self (hg.hasSlot hslot) hkind
      · rw [if_neg hname, ruleNamed?]
        cases hother : g.slot? other with
        | none => rfl
        | some slot' =>
          refine rule?_put_of_ne ?_
          rintro rfl
          exact hname ((hg.existsUnique_name_of_hasSlot (hg.hasSlot hslot)).unique hother hslot)
    next => cases h
  next => cases h

theorem Numbered.ruleNamed?_define (hg : g.Numbered) (h : g.define name rule = .ok g')
    (other : String) :
    g'.ruleNamed? other = if other = name then some rule else g.ruleNamed? other := by
  rw [define_eq] at h
  split at h
  next => cases h
  next hslot =>
    obtain rfl := Except.ok.inj h
    rw [ruleNamed?, slot?_add]
    by_cases hname : other = name
    · rw [if_pos hname, if_pos hname, hname, hslot]
      exact rule?_add_newSlot g name rule
    · rw [if_neg hname, if_neg hname, Option.or_none, ruleNamed?]
      cases hother : g.slot? other with
      | none => rfl
      | some slot => exact rule?_add_of_ne (ne_newSlot_of_hasSlot (hg.hasSlot hother) _) name

theorem grant_of_answer {request : Request} {answer : Option Rule}
    (h : g.answer request = .ok answer) : g.grant request = .ok (g.after request) := by
  have hgrant : ∃ g', g.grant request = .ok g' := by
    cases request with
    | replace name rule => exact exists_ok_of_map h
    | define name rule => exact exists_ok_of_map h
    | take name =>
      obtain ⟨rule, hrule⟩ := exists_ok_of_map h
      exact ⟨g, by rw [grant, hrule]; rfl⟩
  obtain ⟨g', hg'⟩ := hgrant
  rw [after, hg']

theorem after_of_error {request : Request} {error : RegistryError}
    (h : g.answer request = .error error) : g.after request = g := by
  have hgrant : g.grant request = .error error := by
    cases request with
    | replace name rule => exact eq_error_of_map h
    | define name rule => exact eq_error_of_map h
    | take name => rw [grant, eq_error_of_map h]; rfl
  rw [after, hgrant]

/-- What a request stores is found under its name, and under all other names is found what
was there. -/
theorem Numbered.ruleNamed?_after (hg : g.Numbered) {request : Request} {answer : Option Rule}
    (h : g.answer request = .ok answer) (other : String) :
    (g.after request).ruleNamed? other =
      (request.stored?.toList.lookup other).or (g.ruleNamed? other) := by
  have hgrant := grant_of_answer h
  cases request with
  | replace name rule => exact (hg.ruleNamed?_replace hgrant other).trans (lookup_or other)
  | define name rule => exact (hg.ruleNamed?_define hgrant other).trans (lookup_or other)
  | take name => rw [after_take]; rfl

/-! ## The grammar and the map -/

/-- A grammar holds the rules of a map under its names. -/
structure Represents (g : Grammar) (m : RuleMap) : Prop where
  numbered : g.Numbered
  rules : ∀ name, g.ruleNamed? name = m.lookup name

variable {m : RuleMap}

theorem represents_standard (settings : Settings) :
    (standard settings).Represents RuleMap.standard where
  numbered := numbered_standard settings
  rules := by
    intro name
    change (builtins.lookup name).bind (standard settings).rule? = RuleMap.standard.lookup name
    simp only [builtins, RuleMap.standard, List.lookup_cons, List.lookup_nil]
    repeat' split
    all_goals rfl

theorem Represents.answer_eq (h : g.Represents m) (request : Request) :
    g.answer request = m.answer request := by
  cases request with
  | replace name rule =>
    rw [answer, replace_eq, RuleMap.answer, ← h.rules]
    cases hslot : g.slot? name with
    | none => rw [ruleNamed?, hslot]; rfl
    | some slot =>
      obtain ⟨old, hold, hkind⟩ := h.numbered.exists_ruleNamed? hslot
      simp only [hold, hkind]
      split <;> rfl
  | define name rule =>
    rw [answer, define_eq, RuleMap.answer, ← h.rules]
    cases hslot : g.slot? name with
    | none => rw [ruleNamed?, hslot]; rfl
    | some slot =>
      obtain ⟨old, hold, -⟩ := h.numbered.exists_ruleNamed? hslot
      rw [hold]
      rfl
  | take name => rw [answer, ruleOf_eq, h.rules, RuleMap.answer, RuleMap.ruleOf]

theorem Represents.after (h : g.Represents m) (request : Request) :
    (g.after request).Represents (m.after request) := by
  refine ⟨h.numbered.after request, ?_⟩
  intro name
  rw [RuleMap.after, ← h.answer_eq]
  cases hanswer : g.answer request with
  | error e => rw [after_of_error hanswer]; exact h.rules name
  | ok answer =>
    dsimp only
    rw [h.numbered.ruleNamed?_after hanswer, List.lookup_append, h.rules]

theorem Represents.afterAll (h : g.Represents m) (requests : List Request) :
    (g.afterAll requests).Represents (m.afterAll requests) := by
  induction requests generalizing g m with
  | nil => exact h
  | cons request requests ih => exact ih (h.after request)

/-! ## Refinement -/

theorem settings_after (g : Grammar) (request : Request) :
    (g.after request).settings = g.settings := by
  rcases g.after_cases request with h | ⟨name, rule, h⟩ | ⟨name, rule, h⟩
  · rw [h]
  · rcases replace_cases h with ⟨_, _, -, -, h⟩ | ⟨_, _, -, -, h⟩ <;> rw [h]
  · rcases define_cases h with ⟨-, ⟨_, -, h⟩ | ⟨_, -, h⟩⟩ <;> rw [h]

theorem slot?_after_of_ne {request : Request} {answer : Option Rule} {other : String}
    (hstored : request.stored? = some (name, rule)) (h : g.answer request = .ok answer)
    (hne : other ≠ name) : (g.after request).slot? other = g.slot? other := by
  have hgrant := grant_of_answer h
  cases request with
  | replace name rule => rw [slot?, slots_of_replace hgrant, slot?]
  | define name' rule' =>
    obtain ⟨rfl, rfl⟩ := Prod.mk.inj (Option.some.inj hstored)
    rw [grant, define_eq] at hgrant
    split at hgrant
    next => cases hgrant
    next => rw [← Except.ok.inj hgrant, slot?_add, if_neg hne, Option.or_none]
  | take name => cases hstored

theorem mem_names_iff : name ∈ g.names ↔ ∃ slot, g.slot? name = some slot := by
  rw [g.perm_names.mem_iff, ← Option.isSome_iff_exists, slot?, List.lookup_isSome_iff,
    List.mem_map]
  simp only [beq_iff_eq, @eq_comm _ name]

theorem replace_eq_error_iff {error : RegistryError} :
    g.replace name rule = .error error ↔ (name ∉ g.names ∧ error = .unknown name) ∨
      ∃ slot, g.slot? name = some slot ∧ slot.kind ≠ rule.kind ∧
        error = .kindMismatch name slot.kind rule.kind := by
  rw [replace_eq, mem_names_iff]
  cases g.slot? name with
  | none => simp [eq_comm]
  | some slot =>
    by_cases hkind : slot.kind = rule.kind
    · simp [hkind]
    · simp only [if_neg hkind, Except.error.injEq]
      constructor
      · rintro rfl
        exact Or.inr ⟨slot, rfl, hkind, rfl⟩
      · rintro (⟨hnot, -⟩ | ⟨_, hslot, -, rfl⟩)
        · exact absurd ⟨slot, rfl⟩ hnot
        · rw [Option.some.inj hslot]

theorem define_eq_error_iff {error : RegistryError} :
    g.define name rule = .error error ↔ name ∈ g.names ∧ error = .duplicate name := by
  rw [define_eq, mem_names_iff]
  cases g.slot? name <;> simp [eq_comm]

/-- A rule that is put back into its slot leaves the grammar as it was before. -/
theorem replace_of_ruleOf {old : Rule} (hold : g.ruleOf name = .ok old)
    (h : g.replace name rule = .ok g') : g'.replace name old = .ok g := by
  obtain ⟨slot, hslot, hrule⟩ := Option.bind_eq_some_iff.mp (ruleOf_eq_ok_iff.mp hold)
  rw [replace_eq, hslot] at h
  simp only at h
  split at h
  next hkind =>
    obtain rfl := Except.ok.inj h
    have hkind' := kind_of_rule? hrule
    simp only [replace_eq, slot?_put, hslot]
    rw [if_pos hkind', put_put hkind', put_of_rule? hrule]
  next => cases h

/-- A grammar answers every request as the map of the rules that were stored does, and the
last rule under a name is the one that it gives for the name. What it refuses changes
nothing, what it grants changes the rule of one name, and a rule keeps its meaning wherever
it is stored, whatever becomes of the slot that it was taken from. A rule that is put back
restores the grammar. -/
theorem registry_refines_map (settings : Settings) (requests : List Request) :
    let g := (standard settings).afterAll requests
    let m := RuleMap.standard.afterAll requests
    (∀ request, g.answer request = m.answer request) ∧
    (∀ name rule, g.ruleOf name = .ok rule ↔ m.lookup name = some rule) ∧
    (∀ name rule error, g.replace name rule = .error error ↔
      (name ∉ g.names ∧ error = .unknown name) ∨
      ∃ slot, g.slot? name = some slot ∧ slot.kind ≠ rule.kind ∧
        error = .kindMismatch name slot.kind rule.kind) ∧
    (∀ name rule error, g.define name rule = .error error ↔
      name ∈ g.names ∧ error = .duplicate name) ∧
    (∀ request error, g.answer request = .error error → g.after request = g) ∧
    (∀ request name rule, request.stored? = some (name, rule) → g.answer request = .ok none →
      (g.after request).ruleOf name = .ok rule ∧ (g.after request).settings = g.settings ∧
      ∀ other, other ≠ name → (g.after request).ruleOf other = g.ruleOf other ∧
        (g.after request).slot? other = g.slot? other) ∧
    (∀ name taken, g.ruleOf name = .ok taken →
      ∀ later request other, request.stored? = some (other, taken) →
        (g.afterAll later).answer request = .ok none →
        ∀ rest : List Request, (∀ r ∈ rest, ∀ entry, r.stored? = some entry → entry.1 ≠ other) →
          (((g.afterAll later).after request).afterAll rest).ruleOf other = .ok taken) ∧
    ∀ name old rule g', g.ruleOf name = .ok old → g.replace name rule = .ok g' →
      g'.replace name old = .ok g := by
  intro g m
  have h : g.Represents m := (represents_standard settings).afterAll requests
  refine ⟨h.answer_eq, ?_, fun _ _ _ => replace_eq_error_iff, fun _ _ _ => define_eq_error_iff,
    fun _ _ => after_of_error, ?_, ?_, fun _ _ _ _ => replace_of_ruleOf⟩
  · intro name rule
    rw [ruleOf_eq_ok_iff, h.rules]
  · intro request name rule hstored hanswer
    have hrules := h.numbered.ruleNamed?_after hanswer
    rw [hstored] at hrules
    refine ⟨?_, settings_after g request, ?_⟩
    · rw [ruleOf_eq_ok_iff, hrules, Option.toList_some, ← lookup_or, if_pos rfl]
    · intro other hne
      refine ⟨?_, slot?_after_of_ne hstored hanswer hne⟩
      rw [ruleOf_eq, ruleOf_eq, hrules, Option.toList_some, ← lookup_or, if_neg hne]
  · intro name taken _ later request other hstored hanswer rest hrest
    have hlater := h.afterAll later
    have hrules := hlater.numbered.ruleNamed?_after hanswer other
    rw [hstored] at hrules
    have hkept := ((hlater.after request).afterAll rest).rules other
    rw [RuleMap.lookup_afterAll hrest, ← (hlater.after request).rules, hrules] at hkept
    rw [ruleOf_eq_ok_iff, hkept, Option.toList_some, ← lookup_or, if_pos rfl]

/-- Two requests that are granted, and one that is refused because of the kind. -/
def twoStrings : List Request :=
  [.define "a" (.node .string), .replace "atom" (.node .string), .replace "atom" (.skip .comment)]

/-- The rule for strings is stored again after its slot got another rule, and put back. -/
theorem registry_refines_map_twoStrings :
    ∃ g g', g = (standard .fragment).afterAll twoStrings ∧
      g.answer (.take "atom") = .ok (some (.node .string)) ∧
      g.replace "atom" (.skip .comment) = .error (.kindMismatch "atom" .node .skip) ∧
      (((g.afterAll [.replace "a" (.node (.list expression trivia))]).after
        (.define "b" (.node .string))).afterAll
          [.replace "a" (.node (.quote expression trivia))]).ruleOf "b" = .ok (.node .string) ∧
      g.replace "a" (.node (.list expression trivia)) = .ok g' ∧
      g'.replace "a" (.node .string) = .ok g := by
  obtain ⟨hanswer, -, hreplace, -, -, -, htaken, hback⟩ :=
    registry_refines_map .fragment twoStrings
  refine ⟨_, _, rfl, (hanswer (.take "atom")).trans rfl, ?_, ?_, rfl, ?_⟩
  · exact (hreplace "atom" (.skip .comment) _).mpr
      (Or.inr ⟨.node atom, rfl, RuleKind.noConfusion, rfl⟩)
  · refine htaken "a" (.node .string) rfl _ (.define "b" (.node .string)) "b" rfl rfl _ ?_
    intro request hmem entry hentry
    obtain rfl := List.mem_singleton.mp hmem
    obtain rfl := Option.some.inj hentry
    decide
  · exact hback "a" (.node .string) (.node (.list expression trivia)) _ rfl rfl

end Grammar

end LispReader
