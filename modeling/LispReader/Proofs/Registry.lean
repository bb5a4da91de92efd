import Mathlib.Data.List.Pairwise
import Mathlib.Data.List.Sort
import Mathlib.Data.String.Basic
import LispReader.Proofs.Dialect

/-!
# The registry of a grammar

Names lead to slots, and slots to rules. The slots of each kind are numbered in the
order in which they were added, and there is one name for each of them, so a name
and its slot determine each other. Requests keep this, those that are refused
included, and none takes a name or a slot away: a handle that was given out stays
the handle of its name, however the grammar is changed or copied.

The requests are any at all. Nothing is assumed of the rules.
-/

namespace LispReader

/-! ## Requests -/

/-- What can be asked of the registry of a grammar. -/
inductive Request where
  | replace (name : String) (rule : Rule)
  | define (name : String) (rule : Rule)
  /-- Asks for the rule of a slot as it is now. -/
  | take (name : String)

namespace Grammar

variable (g : Grammar)

/-- The answer to a request: a refusal, or the rule that was asked for, if one was. -/
def answer : Request → Except RegistryError (Option Rule)
  | .replace name rule => (g.replace name rule).map fun _ => none
  | .define name rule => (g.define name rule).map fun _ => none
  | .take name => (g.ruleOf name).map some

/-- The grammar that a request makes, if it is granted. -/
def grant : Request → Except RegistryError Grammar
  | .replace name rule => g.replace name rule
  | .define name rule => g.define name rule
  | .take name => (g.ruleOf name).map fun _ => g

/-- The grammar behind a request. One that is refused leaves it as it was. -/
def after (request : Request) : Grammar :=
  match g.grant request with
  | .ok g' => g'
  | .error _ => g

def afterAll (requests : List Request) : Grammar := requests.foldl after g

/-- The name that a request adds, if it adds one. -/
def added : Request → List String
  | .replace _ _ => []
  | .define name rule =>
    match g.define name rule with
    | .ok _ => [name]
    | .error _ => []
  | .take _ => []

/-- The names that requests add, in order. -/
def additions (g : Grammar) : List Request → List String
  | [] => []
  | request :: requests => g.added request ++ (g.after request).additions requests

theorem after_take (name : String) : g.after (.take name) = g := by
  rw [after, grant]
  cases g.ruleOf name <;> rfl

/-- What a request does: nothing, or one of the two changes. -/
theorem after_cases (request : Request) :
    g.after request = g ∨
      (∃ name rule, g.replace name rule = .ok (g.after request)) ∨
      ∃ name rule, g.define name rule = .ok (g.after request) := by
  cases request with
  | replace name rule =>
    unfold after grant
    split
    next g' h => exact Or.inr (Or.inl ⟨name, rule, h⟩)
    next => exact Or.inl rfl
  | define name rule =>
    unfold after grant
    split
    next g' h => exact Or.inr (Or.inr ⟨name, rule, h⟩)
    next => exact Or.inl rfl
  | take name => exact Or.inl (g.after_take name)

variable {g} {g' : Grammar} {name : String} {rule : Rule}

theorem slots_of_replace (h : g.replace name rule = .ok g') : g'.slots = g.slots := by
  rcases replace_cases h with ⟨handle, rule, -, -, rfl⟩ | ⟨handle, rule, -, -, rfl⟩ <;> rfl

theorem exists_slots_of_define (h : g.define name rule = .ok g') :
    ∃ slot, g'.slots = g.slots ++ [(name, slot)] := by
  rcases define_cases h with ⟨-, ⟨rule, -, rfl⟩ | ⟨rule, -, rfl⟩⟩ <;> exact ⟨_, rfl⟩

theorem prefix_slots_after (g : Grammar) (request : Request) :
    g.slots <+: (g.after request).slots := by
  rcases g.after_cases request with h | ⟨name, rule, h⟩ | ⟨name, rule, h⟩
  · rw [h]
  · rw [slots_of_replace h]
  · obtain ⟨slot, hslots⟩ := exists_slots_of_define h
    exact ⟨_, hslots.symm⟩

/-- Slots are only ever added, behind those that are there. -/
theorem prefix_slots_afterAll (g : Grammar) (requests : List Request) :
    g.slots <+: (g.afterAll requests).slots := by
  induction requests generalizing g with
  | nil => exact List.prefix_rfl
  | cons request requests ih => exact (g.prefix_slots_after request).trans (ih (g.after request))

theorem slot?_afterAll {slot : Slot} (h : g.slot? name = some slot) (requests : List Request) :
    (g.afterAll requests).slot? name = some slot :=
  (g.prefix_slots_afterAll requests).lookup_eq_some h

theorem map_fst_slots_after (g : Grammar) (request : Request) :
    (g.after request).slots.map Prod.fst = g.slots.map Prod.fst ++ g.added request := by
  cases request with
  | replace name rule =>
    rw [after, grant, added, List.append_nil]
    split
    next g' h => rw [slots_of_replace h]
    next => rfl
  | define name rule =>
    rw [after, grant, added]
    split
    next g' h =>
      obtain ⟨slot, hslots⟩ := exists_slots_of_define h
      rw [hslots, List.map_append]
      rfl
    next => exact (List.append_nil _).symm
  | take name => rw [after_take, added, List.append_nil]

/-- The names are those that were there, and the additions behind them. -/
theorem map_fst_slots_afterAll (g : Grammar) (requests : List Request) :
    (g.afterAll requests).slots.map Prod.fst = g.slots.map Prod.fst ++ g.additions requests := by
  induction requests generalizing g with
  | nil => exact (List.append_nil _).symm
  | cons request requests ih =>
    rw [additions, ← List.append_assoc, ← map_fst_slots_after]
    exact ih (g.after request)

/-! ## Handles by name -/

theorem nodeHandle_eq_ok_iff {handle : NodeHandle} :
    g.nodeHandle name = .ok handle ↔ g.slot? name = some (.node handle) := by
  rw [nodeHandle]
  split <;> simp_all

theorem skipHandle_eq_ok_iff {handle : SkipHandle} :
    g.skipHandle name = .ok handle ↔ g.slot? name = some (.skip handle) := by
  rw [skipHandle]
  split <;> simp_all

end Grammar

/-! ## Numbered slots -/

namespace Slot

/-- The handle of a slot for forms. -/
def node? : Slot → Option NodeHandle
  | node handle => some handle
  | skip _ => none

/-- The handle of a slot for text to be skipped. -/
def skip? : Slot → Option SkipHandle
  | node _ => none
  | skip handle => some handle

end Slot

namespace Grammar

/-- The grammar has the slot. -/
def HasSlot (g : Grammar) : Slot → Prop
  | .node handle => handle.index < g.nodeRules.size
  | .skip handle => handle.index < g.skipRules.size

/-- No name occurs twice, the slots of the notation come first, and the slots of each
kind are numbered in order. -/
structure Numbered (g : Grammar) : Prop where
  names : (g.slots.map Prod.fst).Nodup
  builtins : builtins <+: g.slots
  nodes : (g.slots.filterMap fun entry => entry.2.node?) =
    (List.range g.nodeRules.size).map NodeHandle.mk
  skips : (g.slots.filterMap fun entry => entry.2.skip?) =
    (List.range g.skipRules.size).map SkipHandle.mk

variable {g g' : Grammar} {name : String} {slot : Slot} {rule : Rule}

theorem numbered_standard (settings : Settings) : (standard settings).Numbered where
  names := (by decide +kernel : (Grammar.builtins.map Prod.fst).Nodup)
  builtins := List.prefix_rfl
  nodes := rfl
  skips := rfl

theorem Numbered.replace (hg : g.Numbered) (h : g.replace name rule = .ok g') : g'.Numbered := by
  rcases replace_cases h with ⟨handle, rule, -, -, rfl⟩ | ⟨handle, rule, -, -, rfl⟩
  · exact { hg with nodes := by rw [Array.size_setIfInBounds]; exact hg.nodes }
  · exact { hg with skips := by rw [Array.size_setIfInBounds]; exact hg.skips }

theorem notMem_names_of_slot? (h : g.slot? name = none) : name ∉ g.slots.map Prod.fst := by
  intro hmem
  obtain ⟨entry, hentry, rfl⟩ := List.mem_map.mp hmem
  simpa using List.lookup_eq_none_iff.mp h entry hentry

theorem Numbered.define (hg : g.Numbered) (h : g.define name rule = .ok g') : g'.Numbered := by
  obtain ⟨hnew, hg'⟩ := define_cases h
  have hnames : ∀ slot, ((g.slots ++ [(name, slot)]).map Prod.fst).Nodup := by
    intro slot
    rw [List.map_append]
    exact hg.names.append (List.nodup_singleton name)
      (List.disjoint_singleton.mpr (notMem_names_of_slot? hnew))
  rcases hg' with ⟨rule, -, rfl⟩ | ⟨rule, -, rfl⟩
  · refine ⟨hnames _, hg.builtins.trans (List.prefix_append _ _), ?_, ?_⟩
    · rw [List.filterMap_append, hg.nodes, Array.size_push, List.range_succ, List.map_append]
      rfl
    · rw [List.filterMap_append, hg.skips]
      exact List.append_nil _
  · refine ⟨hnames _, hg.builtins.trans (List.prefix_append _ _), ?_, ?_⟩
    · rw [List.filterMap_append, hg.nodes]
      exact List.append_nil _
    · rw [List.filterMap_append, hg.skips, Array.size_push, List.range_succ, List.map_append]
      rfl

theorem Numbered.after (hg : g.Numbered) (request : Request) : (g.after request).Numbered := by
  rcases g.after_cases request with h | ⟨name, rule, h⟩ | ⟨name, rule, h⟩
  · rwa [h]
  · exact hg.replace h
  · exact hg.define h

theorem Numbered.afterAll (hg : g.Numbered) (requests : List Request) :
    (g.afterAll requests).Numbered := by
  induction requests generalizing g with
  | nil => exact hg
  | cons request requests ih => exact ih (hg.after request)

theorem Numbered.slot?_eq_some_iff (hg : g.Numbered) :
    g.slot? name = some slot ↔ (name, slot) ∈ g.slots := by
  rw [slot?, List.lookup_eq_some_iff]
  constructor
  · rintro ⟨front, rest, hslots, -⟩
    rw [hslots]
    exact List.mem_append_right front List.mem_cons_self
  · intro hmem
    obtain ⟨front, rest, hslots⟩ := List.append_of_mem hmem
    refine ⟨front, rest, hslots, ?_⟩
    intro entry hentry
    have hnames := hg.names
    rw [hslots, List.map_append, List.nodup_append] at hnames
    have hne := hnames.2.2 entry.1 (List.mem_map_of_mem hentry) name (by simp)
    simpa using hne.symm

/-- A slot that is numbered among those of its kind has one name, and only one. -/
theorem Numbered.existsUnique_name (hg : g.Numbered) {α : Type} {f : Slot → Option α}
    {mk : Nat → α} {size n : Nat} (hmk : Function.Injective mk)
    (hnumbers : (g.slots.filterMap fun entry => f entry.2) = (List.range size).map mk)
    (hn : n < size) (hf : ∀ slot', f slot' = some (mk n) ↔ slot' = slot) :
    ∃! name, g.slot? name = some slot := by
  have hnodup : (g.slots.filterMap fun entry => f entry.2).Nodup := by
    rw [hnumbers]
    exact List.nodup_range.map hmk
  have hmem : mk n ∈ g.slots.filterMap fun entry => f entry.2 := by
    rw [hnumbers]
    exact List.mem_map_of_mem (List.mem_range.mpr hn)
  obtain ⟨⟨name, slot'⟩, hentry, hslot⟩ := List.mem_filterMap.mp hmem
  obtain rfl := (hf slot').mp hslot
  refine ⟨name, hg.slot?_eq_some_iff.mpr hentry, ?_⟩
  intro other hother
  by_contra hne
  -- two names of the slot would be two entries with one number
  have hsymm : Std.Symm fun a b : String × Slot =>
      ∀ x, f a.2 = some x → ∀ y, f b.2 = some y → x ≠ y :=
    ⟨fun _ _ h x hx y hy => (h y hy x hx).symm⟩
  have hapart := (List.pairwise_filterMap.mp hnodup).forall (hg.slot?_eq_some_iff.mp hother) hentry
    (fun h => hne (congrArg Prod.fst h))
  exact hapart (mk n) hslot (mk n) hslot rfl

theorem Numbered.hasSlot (hg : g.Numbered) (h : g.slot? name = some slot) : g.HasSlot slot := by
  have hentry := hg.slot?_eq_some_iff.mp h
  cases slot with
  | node handle =>
    have hmem : handle ∈ g.slots.filterMap fun entry => entry.2.node? :=
      List.mem_filterMap.mpr ⟨_, hentry, rfl⟩
    rw [hg.nodes] at hmem
    obtain ⟨n, hn, rfl⟩ := List.mem_map.mp hmem
    exact List.mem_range.mp hn
  | skip handle =>
    have hmem : handle ∈ g.slots.filterMap fun entry => entry.2.skip? :=
      List.mem_filterMap.mpr ⟨_, hentry, rfl⟩
    rw [hg.skips] at hmem
    obtain ⟨n, hn, rfl⟩ := List.mem_map.mp hmem
    exact List.mem_range.mp hn

/-- Names and slots determine each other. -/
theorem Numbered.existsUnique_name_of_hasSlot (hg : g.Numbered) (h : g.HasSlot slot) :
    ∃! name, g.slot? name = some slot := by
  cases slot with
  | node handle =>
    refine hg.existsUnique_name (fun _ _ => NodeHandle.mk.inj) hg.nodes h ?_
    intro slot'
    cases slot' <;> simp [Slot.node?]
  | skip handle =>
    refine hg.existsUnique_name (fun _ _ => SkipHandle.mk.inj) hg.skips h ?_
    intro slot'
    cases slot' <;> simp [Slot.skip?]

theorem Numbered.slot?_of_mem_builtins (hg : g.Numbered) (h : (name, slot) ∈ Grammar.builtins) :
    g.slot? name = some slot :=
  hg.slot?_eq_some_iff.mpr (hg.builtins.subset h)

/-! ## Names in order -/

theorem perm_names (g : Grammar) : g.names.Perm (g.slots.map Prod.fst) :=
  List.mergeSort_perm _ _

theorem Numbered.pairwise_names (hg : g.Numbered) : g.names.Pairwise (· < ·) := by
  have hle : g.names.Pairwise (· ≤ ·) := List.pairwise_mergeSort' (· ≤ ·) _
  have hne : g.names.Nodup := g.perm_names.nodup_iff.mpr hg.names
  exact (hle.and hne).imp fun h => lt_of_le_of_ne h.1 h.2

end Grammar

/-! ## Programs that copy grammars -/

/-- What a program does with the grammars it holds, which are numbered. A copy gets the
next number, and then goes its own way. -/
inductive Call where
  | ask (number : Nat) (request : Request)
  | clone (number : Nat)

namespace Call

variable {α β : Type}

/-- What is held after a call, if `after` is what a request does. -/
def perform (after : α → Request → α) (held : List α) : Call → List α
  | ask number request => held.modify number (after · request)
  | clone number => held ++ held[number]?.toList

def performAll (after : α → Request → α) (held : List α) (calls : List Call) : List α :=
  calls.foldl (perform after) held

theorem map_perform {after : α → Request → α} {after' : β → Request → β} {f : α → β}
    (hf : ∀ a request, f (after a request) = after' (f a) request) (held : List α) (call : Call) :
    (call.perform after held).map f = call.perform after' (held.map f) := by
  cases call with
  | ask number request =>
    apply List.ext_getElem?
    intro i
    simp only [perform, List.getElem?_map, List.getElem?_modify, Option.map_eq_map,
      Option.map_map]
    congr 1
    funext a
    by_cases h : number = i <;> simp [h, hf]
  | clone number =>
    rw [perform, perform, List.map_append, List.getElem?_map]
    cases held[number]? <;> rfl

/-- Calls do the same to whatever stands for the grammars. -/
theorem map_performAll {after : α → Request → α} {after' : β → Request → β} {f : α → β}
    (hf : ∀ a request, f (after a request) = after' (f a) request) (held : List α)
    (calls : List Call) :
    (performAll after held calls).map f = performAll after' (held.map f) calls := by
  induction calls generalizing held with
  | nil => rfl
  | cons call calls ih =>
    refine (ih (call.perform after held)).trans ?_
    rw [map_perform hf]
    rfl

end Call

/-- Where a grammar comes from: one that was held before, and the requests to it on the
way, those to the grammars it was copied from included. -/
structure Lineage where
  origin : Nat
  requests : List Request

namespace Lineage

def after (lineage : Lineage) (request : Request) : Lineage :=
  { lineage with requests := lineage.requests ++ [request] }

/-- Where the grammars that are held after some calls come from. -/
def all (count : Nat) (calls : List Call) : List Lineage :=
  Call.performAll after ((List.range count).map (⟨·, []⟩)) calls

end Lineage

namespace Grammar

theorem map_some_performAll (held : List Grammar) (calls : List Call) :
    (Call.performAll after held calls).map some =
      (Lineage.all held.length calls).map fun lineage =>
        held[lineage.origin]?.map (·.afterAll lineage.requests) := by
  have hstart : held.map some =
      ((List.range held.length).map fun i => (⟨i, []⟩ : Lineage)).map fun lineage =>
        held[lineage.origin]?.map (·.afterAll lineage.requests) := by
    apply List.ext_getElem
    · simp
    · intro i h h'
      simp [afterAll]
  have hafter : ∀ (lineage : Lineage) (request : Request),
      (held[lineage.origin]?.map fun g => g.afterAll (lineage.after request).requests) =
        (held[lineage.origin]?.map fun g => g.afterAll lineage.requests).map
          (after · request) := by
    intro lineage request
    rw [Option.map_map, Lineage.after]
    congr 1
    funext g
    exact List.foldl_append
  -- both sides do the calls to grammars that may be missing
  exact (Call.map_performAll (fun _ _ => rfl) held calls).trans
    ((congrArg (Call.performAll (fun g request => g.map (after · request)) · calls) hstart).trans
      (Call.map_performAll hafter _ calls).symm)

/-- A grammar that is held is the one at its origin behind the requests of its lineage. -/
theorem exists_lineage {held : List Grammar} {calls : List Call} {i : Nat} {g : Grammar}
    (h : (Call.performAll after held calls)[i]? = some g) :
    ∃ lineage origin, (Lineage.all held.length calls)[i]? = some lineage ∧
      held[lineage.origin]? = some origin ∧ g = origin.afterAll lineage.requests := by
  have hi : ((Call.performAll after held calls).map some)[i]? = some (some g) := by
    rw [List.getElem?_map, h]
    rfl
  rw [map_some_performAll, List.getElem?_map] at hi
  obtain ⟨lineage, hlineage, hg⟩ := Option.map_eq_some_iff.mp hi
  obtain ⟨origin, horigin, rfl⟩ := Option.map_eq_some_iff.mp hg
  exact ⟨lineage, origin, hlineage, horigin, rfl⟩

/-- The grammars that a program holds which begins with the standard one. -/
def held (settings : Settings) (calls : List Call) : List Grammar :=
  Call.performAll after [standard settings] calls

theorem exists_lineage_of_held {settings : Settings} {calls : List Call} {i : Nat} {g : Grammar}
    (h : (held settings calls)[i]? = some g) :
    ∃ lineage, (Lineage.all 1 calls)[i]? = some lineage ∧
      g = (standard settings).afterAll lineage.requests := by
  obtain ⟨lineage, origin, hlineage, horigin, hg⟩ := exists_lineage h
  have hlt := (List.getElem?_eq_some_iff.mp horigin).1
  have hzero : lineage.origin = 0 := by simpa using hlt
  rw [hzero] at horigin
  obtain rfl := Option.some.inj horigin
  exact ⟨lineage, hlineage, hg⟩

/-- Whatever is asked of a grammar and its copies, names and slots determine each other in
each of them, the slots of the notation keep their handles, and the names in order are
those of the notation and those that its own lineage added. A handle that is given for a
name is given for it ever after, in all that comes from the grammar. -/
theorem names_numbered_and_handles_kept (settings : Settings) (calls : List Call)
    (i : Nat) (g : Grammar) (hheld : (held settings calls)[i]? = some g) :
    (∀ name slot, g.slot? name = some slot → g.HasSlot slot) ∧
    (∀ slot, g.HasSlot slot → ∃! name, g.slot? name = some slot) ∧
    (∀ name handle, (name, .node handle) ∈ builtins → g.nodeHandle name = .ok handle) ∧
    (∀ name handle, (name, .skip handle) ∈ builtins → g.skipHandle name = .ok handle) ∧
    g.names.Pairwise (· < ·) ∧
    (∃ lineage, (Lineage.all 1 calls)[i]? = some lineage ∧ ∀ name, name ∈ g.names ↔
      name ∈ builtins.map Prod.fst ∨ name ∈ (standard settings).additions lineage.requests) ∧
    ∀ (later : List Call) (j : Nat) (g' : Grammar) (lineage : Lineage),
      (Call.performAll after (held settings calls) later)[j]? = some g' →
      (Lineage.all (held settings calls).length later)[j]? = some lineage → lineage.origin = i →
      (∀ name handle, g.nodeHandle name = .ok handle → g'.nodeHandle name = .ok handle) ∧
      ∀ name handle, g.skipHandle name = .ok handle → g'.skipHandle name = .ok handle := by
  obtain ⟨lineage, hlineage, rfl⟩ := exists_lineage_of_held hheld
  have hg := (numbered_standard settings).afterAll lineage.requests
  refine ⟨fun name slot => hg.hasSlot, fun slot => hg.existsUnique_name_of_hasSlot, ?_, ?_,
    hg.pairwise_names, ⟨lineage, hlineage, ?_⟩, ?_⟩
  · intro name handle h
    exact nodeHandle_eq_ok_iff.mpr (hg.slot?_of_mem_builtins h)
  · intro name handle h
    exact skipHandle_eq_ok_iff.mpr (hg.slot?_of_mem_builtins h)
  · intro name
    rw [(perm_names _).mem_iff, map_fst_slots_afterAll, List.mem_append]
    rfl
  · intro later j g' lineage' hlater hlineage' hi
    obtain ⟨_, origin, hl, horigin, rfl⟩ := exists_lineage hlater
    obtain rfl := Option.some.inj (hl.symm.trans hlineage')
    rw [hi, hheld] at horigin
    obtain rfl := Option.some.inj horigin
    constructor
    · intro name handle h
      exact nodeHandle_eq_ok_iff.mpr (slot?_afterAll (nodeHandle_eq_ok_iff.mp h) _)
    · intro name handle h
      exact skipHandle_eq_ok_iff.mpr (slot?_afterAll (skipHandle_eq_ok_iff.mp h) _)

/-- A grammar and its copy that get different slots, and a request that is refused. -/
def parting : List Call :=
  [.clone 0, .ask 0 (.define "a" (.node .string)), .ask 1 (.define "b" (.node .string)),
    .ask 1 (.replace "a" (.node .string))]

/-- A copy of the copy, with a slot of its own. -/
def partingAgain : List Call := [.clone 1, .ask 2 (.define "a" (.skip .comment))]

/-- A grammar and its copy give one handle to names of their own, and a copy of the copy
keeps it. -/
theorem names_numbered_and_handles_kept_parting :
    ∃ original copy last, (held .fragment parting)[0]? = some original ∧
      (held .fragment parting)[1]? = some copy ∧ original.nodeHandle "a" = .ok ⟨5⟩ ∧
      copy.nodeHandle "b" = .ok ⟨5⟩ ∧ (∃! name, copy.slot? name = some (.node ⟨5⟩)) ∧
      (Call.performAll after (held .fragment parting) partingAgain)[2]? = some last ∧
      (∃ lineage, (Lineage.all 2 partingAgain)[2]? = some lineage ∧ lineage.origin = 1) ∧
      last.nodeHandle "b" = .ok ⟨5⟩ ∧ last.skipHandle "a" = .ok ⟨4⟩ := by
  have hcopy := names_numbered_and_handles_kept .fragment parting 1 _ rfl
  obtain ⟨-, hunique, -, -, -, -, hkept⟩ := hcopy
  refine ⟨_, _, _, rfl, rfl, rfl, rfl, hunique _ (by decide : 5 < 6), rfl, ⟨_, rfl, rfl⟩, ?_, rfl⟩
  exact (hkept partingAgain 2 _ _ rfl rfl rfl).1 "b" ⟨5⟩ rfl

end Grammar

end LispReader
