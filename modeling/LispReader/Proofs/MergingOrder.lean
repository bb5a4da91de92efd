import LispReader.Diagnostic
import LispReader.Proofs.Furthest

/-!
# Merging in any order

Expectations are noted while rules try their alternatives, and merged as the rules return:
in the order of the attempts, and in the grouping of the rules that asked each other. Neither
shows in the result. A merge is the furthest of what was noted, whatever was merged first, and
empty notes and repetitions add nothing. An empty note has offset zero, like a failure at the
beginning of a source, but does not count as one.
-/

namespace LispReader

namespace Expectation

section

variable {notes notes' : List Expectation} {e : Expectation}

/-! ## Laws of merging -/

theorem merge_comm (a b : Expectation) : a.merge b = b.merge a := by
  apply eq_of_mem_items
  · rw [offset_merge, offset_merge, Nat.max_comm]
  · intro x
    rw [mem_items_merge, mem_items_merge]
    exact or_comm

theorem merge_assoc (a b c : Expectation) : (a.merge b).merge c = a.merge (b.merge c) := by
  have left : FurthestOf [a, b, c] ((a.merge b).merge c) :=
    ((FurthestOf.self a).append (.self b)).append (.self c)
  have right : FurthestOf [a, b, c] (a.merge (b.merge c)) :=
    (FurthestOf.self a).append ((FurthestOf.self b).append (.self c))
  exact left.unique right

/-- The expectations that rules can come to: nothing, one thing at an offset, and merges. -/
inductive Noted : Expectation → Prop where
  | none : Noted none
  | one (offset : Nat) (what : String) : Noted (one offset what)
  | merge {a b : Expectation} (ha : Noted a) (hb : Noted b) : Noted (a.merge b)

theorem noted_mergeAll (h : ∀ note ∈ notes, note.Noted) : (mergeAll notes).Noted := by
  induction notes with
  | nil => exact .none
  | cons note notes ih =>
    obtain ⟨hnote, hnotes⟩ := List.forall_mem_cons.mp h
    exact .merge hnote (ih hnotes)

/-- An expectation joins its descriptions, each of them noted by itself. -/
theorem furthestOf_map_one (e : Expectation) : FurthestOf (e.items.map (one e.offset)) e where
  le := by
    intro note hnote
    obtain ⟨x, -, rfl⟩ := List.mem_map.mp hnote
    exact Nat.le_refl _
  mem_items x := by
    constructor
    · intro hx
      exact ⟨one e.offset x, List.mem_map_of_mem hx, rfl, List.mem_singleton_self x⟩
    · rintro ⟨note, hnote, -, hx⟩
      obtain ⟨y, hy, rfl⟩ := List.mem_map.mp hnote
      exact List.mem_singleton.mp hx ▸ hy

/-- There are no other expectations than those that rules can come to. -/
theorem noted (e : Expectation) : e.Noted := by
  rw [(furthestOf_map_one e).unique (furthestOf_mergeAll _)]
  apply noted_mergeAll
  intro note hnote
  obtain ⟨x, -, rfl⟩ := List.mem_map.mp hnote
  exact .one e.offset x

/-! ## The furthest of several -/

namespace FurthestOf

/-- A failure at offset zero is told apart from no failure at all. -/
theorem ne_none (h : FurthestOf notes e) (hnotes : ∃ note ∈ notes, note ≠ none) : e ≠ none := by
  obtain ⟨note, hnote, hne⟩ := hnotes
  obtain ⟨x, hx⟩ := exists_mem_items hne
  rintro rfl
  have hoffset : note.offset = 0 := Nat.le_zero.mp (h.le note hnote)
  have hmem : x ∈ none.items := (h.mem_items x).mpr ⟨note, hnote, hoffset, hx⟩
  exact absurd hmem List.not_mem_nil

/-- The greatest offset is one of those that were noted. -/
theorem exists_note (h : FurthestOf notes e) (hnotes : ∃ note ∈ notes, note ≠ none) :
    ∃ note ∈ notes, note ≠ none ∧ note.offset = e.offset := by
  obtain ⟨x, hx⟩ := exists_mem_items (h.ne_none hnotes)
  obtain ⟨note, hnote, hoffset, hx⟩ := (h.mem_items x).mp hx
  exact ⟨note, hnote, ne_none_of_mem hx, hoffset⟩

/-- Empty notes, repetitions and the order of the notes have no influence. -/
theorem congr (h : FurthestOf notes e)
    (hnotes : ∀ note, note ≠ none → (note ∈ notes ↔ note ∈ notes')) : FurthestOf notes' e where
  le := by
    intro note hnote
    by_cases hne : note = none
    · rw [hne]
      exact Nat.zero_le _
    · exact h.le note ((hnotes note hne).mpr hnote)
  mem_items x := by
    rw [h.mem_items]
    constructor
    · rintro ⟨note, hnote, hoffset, hx⟩
      exact ⟨note, (hnotes note (ne_none_of_mem hx)).mp hnote, hoffset, hx⟩
    · rintro ⟨note, hnote, hoffset, hx⟩
      exact ⟨note, (hnotes note (ne_none_of_mem hx)).mpr hnote, hoffset, hx⟩

end FurthestOf

end

/-! ## Orders and groupings -/

/-- One way to merge several expectations: in some order, some of them with each other first. -/
inductive Merging where
  | nothing
  | note (e : Expectation)
  | join (left right : Merging)

namespace Merging

/-- What is merged. -/
def notes : Merging → List Expectation
  | nothing => []
  | note e => [e]
  | join left right => left.notes ++ right.notes

/-- What comes out. -/
def result : Merging → Expectation
  | nothing => none
  | note e => e
  | join left right => left.result.merge right.result

theorem furthestOf_result (m : Merging) : FurthestOf m.notes m.result := by
  induction m with
  | nothing => exact .nil
  | note e => exact .self e
  | join left right ihl ihr => exact ihl.append ihr

theorem result_eq_none {m : Merging} (h : ∀ note ∈ m.notes, note = none) : m.result = none :=
  m.furthestOf_result.unique (furthestOf_none h)

theorem result_congr {m m' : Merging}
    (h : ∀ note, note ≠ none → (note ∈ m.notes ↔ note ∈ m'.notes)) : m.result = m'.result :=
  (m.furthestOf_result.congr h).unique m'.furthestOf_result

/-- Merging is associative, commutative and idempotent, and merging nothing changes nothing, for
all expectations that rules can come to, and there are no others. So whatever is merged, in any
order and grouping, nothing comes out of nothing, and else the greatest offset with all that was
noted there. What is wrong with a source, and where, does not depend on the order in which the
failures were noted, nor on empty notes and repetitions among them. -/
theorem merged_in_any_order (a b c : Expectation) (m m' : Merging) :
    a.Noted ∧
    (a.merge b).merge c = a.merge (b.merge c) ∧ a.merge b = b.merge a ∧ a.merge a = a ∧
    a.merge none = a ∧ none.merge a = a ∧
    ((∀ note ∈ m.notes, note = none) → m.result = none) ∧
    ((∃ note ∈ m.notes, note ≠ none) →
      (∃ note ∈ m.notes, note ≠ none ∧ note.offset = m.result.offset) ∧
      (∀ note ∈ m.notes, note ≠ none → note.offset ≤ m.result.offset) ∧
      ∀ x, x ∈ m.result.items ↔
        ∃ note ∈ m.notes, note.offset = m.result.offset ∧ x ∈ note.items) ∧
    ((∀ note, note ≠ none → (note ∈ m.notes ↔ note ∈ m'.notes)) →
      m.result = m'.result ∧
      Fault.ofExpectation m.result = Fault.ofExpectation m'.result) := by
  refine ⟨noted a, merge_assoc a b c, merge_comm a b, merge_self a, merge_none a, none_merge a,
    result_eq_none, ?_, ?_⟩
  · intro hnotes
    have h := m.furthestOf_result
    exact ⟨h.exists_note hnotes, fun note hnote _ => h.le note hnote, h.mem_items⟩
  · intro hnotes
    have h := result_congr hnotes
    exact ⟨h, congrArg Fault.ofExpectation h⟩

/-- Failures at three places of the grammar, in the order in which they were noted. -/
def asNoted : Merging :=
  .join (.note (one 0 "atom")) (.join (.note (one 2 "quote")) (.note (one 2 "atom")))

/-- The same failures the other way round, one of them twice, and an empty note. -/
def backwards : Merging :=
  .join (.join (.note (one 2 "atom")) (.join .nothing (.note (one 2 "quote"))))
    (.join (.note none) (.join (.note (one 0 "atom")) (.note (one 2 "quote"))))

theorem mem_notes_asNoted (note : Expectation) (hne : note ≠ none) :
    note ∈ asNoted.notes ↔ note ∈ backwards.notes := by
  simp only [asNoted, backwards, notes, List.cons_append, List.nil_append, List.mem_cons,
    List.not_mem_nil, or_false, hne, false_or]
  constructor
  · rintro (rfl | rfl | rfl)
    · exact Or.inr (Or.inr (Or.inl rfl))
    · exact Or.inr (Or.inl rfl)
    · exact Or.inl rfl
  · rintro (rfl | rfl | rfl | rfl)
    · exact Or.inr (Or.inr rfl)
    · exact Or.inr (Or.inl rfl)
    · exact Or.inl rfl
    · exact Or.inr (Or.inl rfl)

/-- Both descriptions at the greater offset are kept, and the one at offset zero is not. -/
theorem merged_in_any_order_backwards :
    (∃ note ∈ asNoted.notes, note ≠ none) ∧
    (∀ note, note ≠ none → (note ∈ asNoted.notes ↔ note ∈ backwards.notes)) ∧
    (∀ note ∈ asNoted.notes, note ≠ none → note.offset ≤ asNoted.result.offset) ∧
    asNoted.result = backwards.result ∧
    Fault.ofExpectation asNoted.result = ⟨.unexpected ["atom", "quote"], 2⟩ ∧
    Fault.ofExpectation backwards.result = ⟨.unexpected ["atom", "quote"], 2⟩ := by
  have h := merged_in_any_order none none none asNoted backwards
  have hfailed : ∃ note ∈ asNoted.notes, note ≠ none :=
    ⟨one 0 "atom", List.mem_cons_self, by simp [one, none]⟩
  obtain ⟨-, -, -, -, -, -, -, hfurthest, hsame⟩ := h
  obtain ⟨hresult, hfault⟩ := hsame mem_notes_asNoted
  have hasNoted : Fault.ofExpectation asNoted.result = ⟨.unexpected ["atom", "quote"], 2⟩ := by
    decide
  exact ⟨hfailed, mem_notes_asNoted, (hfurthest hfailed).2.1, hresult, hasNoted,
    hfault.symm.trans hasNoted⟩

end Merging

end Expectation

end LispReader
