import LispReader.Expectation

/-!
# The furthest expectation

Merging keeps the expectation that got further. An expectation lies below an
offset if it is empty or stopped in front of it, and what lies below never shows
in a merge with something at the offset. Expectations with the same offset and
the same descriptions are equal, in whatever order they were merged.
-/

namespace LispReader

namespace Expectation

variable {a b : Expectation} {p q : Nat}

/-- Nothing was expected at the offset or behind it. -/
def Below (e : Expectation) (p : Nat) : Prop := e = none ∨ e.offset < p

theorem below_none (p : Nat) : none.Below p := Or.inl rfl

theorem below_one {what : String} (h : q < p) : (one q what).Below p := Or.inr h

theorem Below.mono (h : a.Below p) (hpq : p ≤ q) : a.Below q := by
  rcases h with h | h
  · exact Or.inl h
  · exact Or.inr (Nat.lt_of_lt_of_le h hpq)

theorem Below.offset_le (h : a.Below p) : a.offset ≤ p := by
  rcases h with rfl | h
  · exact Nat.zero_le p
  · exact Nat.le_of_lt h

theorem isNone_eq_false (h : a ≠ none) : a.isNone = false := by
  cases hn : a.isNone with
  | false => rfl
  | true => exact absurd (isNone_iff.mp hn) h

theorem ne_none_of_lt (h : p < a.offset) : a ≠ none := by
  rintro rfl
  exact Nat.not_lt_zero p h

theorem merge_eq_right (h : a.Below b.offset) : a.merge b = b := by
  rcases h with rfl | h
  · exact none_merge b
  · have hb := isNone_eq_false (ne_none_of_lt h)
    by_cases ha : a = none
    · rw [ha, none_merge]
    · rw [merge, dif_neg (by simp [hb]), if_neg (by simp [isNone_eq_false ha]),
        if_neg (by omega), if_pos h]

theorem merge_eq_left (h : b.Below a.offset) : a.merge b = a := by
  rcases h with rfl | h
  · exact merge_none a
  · have ha := isNone_eq_false (ne_none_of_lt h)
    by_cases hb : b = none
    · rw [hb, merge_none]
    · rw [merge, dif_neg (by simp [isNone_eq_false hb]), if_neg (by simp [ha]), if_pos h]

theorem offset_merge_of_eq (ha : a ≠ none) (hb : b ≠ none) (h : a.offset = b.offset) :
    (a.merge b).offset = a.offset := by
  rw [merge, dif_neg (by simp [isNone_eq_false hb]), if_neg (by simp [isNone_eq_false ha]),
    if_neg (by omega), if_neg (by omega)]

theorem items_merge_of_eq (ha : a ≠ none) (hb : b ≠ none) (h : a.offset = b.offset) :
    (a.merge b).items = union a.items b.items := by
  rw [merge, dif_neg (by simp [isNone_eq_false hb]), if_neg (by simp [isNone_eq_false ha]),
    if_neg (by omega), if_neg (by omega)]

/-- A merge is one of the two, or joins two that got equally far. -/
theorem merge_cases (a b : Expectation) :
    a.merge b = a ∨ a.merge b = b ∨ a.offset = b.offset ∧ (a.merge b).offset = a.offset := by
  by_cases ha : a = none
  · exact Or.inr (Or.inl (by rw [ha, none_merge]))
  by_cases hb : b = none
  · exact Or.inl (by rw [hb, merge_none])
  rcases Nat.lt_trichotomy a.offset b.offset with h | h | h
  · exact Or.inr (Or.inl (merge_eq_right (Or.inr h)))
  · exact Or.inr (Or.inr ⟨h, offset_merge_of_eq ha hb h⟩)
  · exact Or.inl (merge_eq_left (Or.inr h))

theorem offset_merge_lt (ha : a.offset < p) (hb : b.offset < p) : (a.merge b).offset < p := by
  rcases merge_cases a b with h | h | ⟨-, h⟩
  · rwa [h]
  · rwa [h]
  · rwa [h]

theorem Below.merge (ha : a.Below p) (hb : b.Below p) : (a.merge b).Below p := by
  rcases ha with rfl | ha
  · rwa [none_merge]
  rcases hb with rfl | hb
  · exact Or.inr ha
  · exact Or.inr (offset_merge_lt ha hb)

/-- Strictly ascending lists are determined by their members. -/
theorem eq_of_mem_items (ho : a.offset = b.offset) (hi : ∀ x, x ∈ a.items ↔ x ∈ b.items) :
    a = b := by
  have nodup : ∀ e : Expectation, e.items.Nodup := by
    intro e
    apply e.ascending.imp
    rintro x y h rfl
    exact String.lt_irrefl x h
  have hperm := (List.perm_ext_iff_of_nodup (nodup a) (nodup b)).mpr hi
  apply ext ho
  apply hperm.eq_of_pairwise ?_ a.ascending b.ascending
  intro x y _ _ hxy hyx
  exact absurd (String.lt_trans hxy hyx) (String.lt_irrefl x)

theorem merge_self (a : Expectation) : a.merge a = a := by
  by_cases ha : a = none
  · rw [ha, merge_none]
  · apply eq_of_mem_items (offset_merge_of_eq ha ha rfl)
    intro x
    rw [items_merge_of_eq ha ha rfl, mem_union, or_self]

/-! ## Several expectations -/

theorem offset_merge (a b : Expectation) : (a.merge b).offset = max a.offset b.offset := by
  by_cases ha : a = none
  · rw [ha, none_merge]
    exact (Nat.zero_max _).symm
  by_cases hb : b = none
  · rw [hb, merge_none]
    exact (Nat.max_zero _).symm
  rcases Nat.lt_trichotomy a.offset b.offset with h | h | h
  · rw [merge_eq_right (Or.inr h), Nat.max_eq_right (Nat.le_of_lt h)]
  · rw [offset_merge_of_eq ha hb h, h, Nat.max_self]
  · rw [merge_eq_left (Or.inr h), Nat.max_eq_left (Nat.le_of_lt h)]

theorem ne_none_of_mem {e : Expectation} {x : String} (h : x ∈ e.items) : e ≠ none := by
  rintro rfl
  exact absurd h List.not_mem_nil

theorem exists_mem_items {e : Expectation} (h : e ≠ none) : ∃ x, x ∈ e.items := by
  apply List.exists_mem_of_ne_nil
  intro hnil
  exact h (isNone_iff.mp (List.isEmpty_iff.mpr hnil))

/-- A merge has the descriptions of those of the two that got furthest. -/
theorem mem_items_merge {x : String} : x ∈ (a.merge b).items ↔
    x ∈ a.items ∧ b.offset ≤ a.offset ∨ x ∈ b.items ∧ a.offset ≤ b.offset := by
  by_cases ha : a = none
  · rw [ha, none_merge]
    simp [none]
  by_cases hb : b = none
  · rw [hb, merge_none]
    simp [none]
  rcases Nat.lt_trichotomy a.offset b.offset with h | h | h
  · rw [merge_eq_right (Or.inr h)]
    simp [Nat.le_of_lt h, Nat.not_le.mpr h]
  · rw [items_merge_of_eq ha hb h, mem_union]
    simp [h]
  · rw [merge_eq_left (Or.inr h)]
    simp [Nat.le_of_lt h, Nat.not_le.mpr h]

/-- The merge of several expectations. -/
def mergeAll (notes : List Expectation) : Expectation := notes.foldr merge none

/-- An expectation joins those among several that got furthest: its offset is the greatest,
and its descriptions are all that were noted there. -/
structure FurthestOf (notes : List Expectation) (e : Expectation) : Prop where
  le : ∀ note ∈ notes, note.offset ≤ e.offset
  mem_items : ∀ x, x ∈ e.items ↔ ∃ note ∈ notes, note.offset = e.offset ∧ x ∈ note.items

namespace FurthestOf

variable {α : Type} {notes notes' : List Expectation} {e e' : Expectation}

theorem nil : FurthestOf [] none where
  le := nofun
  mem_items x := by simp [none]

theorem self (e : Expectation) : FurthestOf [e] e where
  le := by simp
  mem_items x := by simp

theorem append (h : FurthestOf notes e) (h' : FurthestOf notes' e') :
    FurthestOf (notes ++ notes') (e.merge e') where
  le := by
    intro note hnote
    rw [offset_merge]
    rcases List.mem_append.mp hnote with hnote | hnote
    · exact Nat.le_trans (h.le note hnote) (Nat.le_max_left _ _)
    · exact Nat.le_trans (h'.le note hnote) (Nat.le_max_right _ _)
  mem_items x := by
    rw [mem_items_merge, offset_merge, h.mem_items, h'.mem_items]
    constructor
    · rintro (⟨⟨note, hnote, ho, hx⟩, hle⟩ | ⟨⟨note, hnote, ho, hx⟩, hle⟩)
      · exact ⟨note, List.mem_append_left _ hnote, by omega, hx⟩
      · exact ⟨note, List.mem_append_right _ hnote, by omega, hx⟩
    · rintro ⟨note, hnote, ho, hx⟩
      rcases List.mem_append.mp hnote with hnote | hnote
      · have hle := h.le note hnote
        exact Or.inl ⟨⟨note, hnote, by omega, hx⟩, by omega⟩
      · have hle := h'.le note hnote
        exact Or.inr ⟨⟨note, hnote, by omega, hx⟩, by omega⟩

theorem offset_le (h : FurthestOf notes e) (h' : FurthestOf notes e') : e.offset ≤ e'.offset := by
  by_cases he : e = none
  · rw [he]
    exact Nat.zero_le _
  · obtain ⟨x, hx⟩ := exists_mem_items he
    obtain ⟨note, hnote, ho, -⟩ := (h.mem_items x).mp hx
    rw [← ho]
    exact h'.le note hnote

theorem unique (h : FurthestOf notes e) (h' : FurthestOf notes e') : e = e' := by
  have ho := Nat.le_antisymm (h.offset_le h') (h'.offset_le h)
  apply eq_of_mem_items ho
  intro x
  rw [h.mem_items, h'.mem_items, ho]

/-- Each of several expectations can be replaced by those that it joins. -/
theorem flatMap {xs : List α} {f : α → Expectation} {g : α → List Expectation}
    (h : FurthestOf (xs.map f) e) (hg : ∀ x ∈ xs, FurthestOf (g x) (f x)) :
    FurthestOf (xs.flatMap g) e where
  le := by
    intro note hnote
    obtain ⟨x, hx, hnote⟩ := List.mem_flatMap.mp hnote
    exact Nat.le_trans ((hg x hx).le note hnote) (h.le (f x) (List.mem_map_of_mem hx))
  mem_items y := by
    rw [h.mem_items]
    constructor
    · rintro ⟨_, hmem, ho, hy⟩
      obtain ⟨x, hx, rfl⟩ := List.mem_map.mp hmem
      obtain ⟨note, hnote, ho', hy⟩ := ((hg x hx).mem_items y).mp hy
      exact ⟨note, List.mem_flatMap.mpr ⟨x, hx, hnote⟩, ho'.trans ho, hy⟩
    · rintro ⟨note, hnote, ho, hy⟩
      obtain ⟨x, hx, hnote⟩ := List.mem_flatMap.mp hnote
      have hle := (hg x hx).le note hnote
      have hle' := h.le (f x) (List.mem_map_of_mem hx)
      refine ⟨f x, List.mem_map_of_mem hx, by omega, ?_⟩
      exact ((hg x hx).mem_items y).mpr ⟨note, hnote, by omega, hy⟩

end FurthestOf

variable {α : Type} {notes : List Expectation} {e : Expectation}

theorem furthestOf_mergeAll (notes : List Expectation) : FurthestOf notes (mergeAll notes) := by
  induction notes with
  | nil => exact .nil
  | cons note notes ih => exact (FurthestOf.self note).append ih

theorem furthestOf_none (h : ∀ note ∈ notes, note = none) : FurthestOf notes none where
  le := by
    intro note hnote
    exact Nat.le_of_eq (congrArg offset (h note hnote))
  mem_items x := by
    refine iff_of_false List.not_mem_nil ?_
    rintro ⟨note, hnote, -, hx⟩
    exact ne_none_of_mem hx (h note hnote)

/-- Several expectations in front of others can be replaced by those that they join. -/
theorem FurthestOf.flatMap_append {xs : List α} {f : α → Expectation} {g : α → List Expectation}
    (h : FurthestOf (xs.map f ++ notes) e) (hg : ∀ x ∈ xs, FurthestOf (g x) (f x)) :
    FurthestOf (xs.flatMap g ++ notes) e := by
  have hfront := furthestOf_mergeAll (xs.map f)
  have hback := furthestOf_mergeAll notes
  rw [h.unique (hfront.append hback)]
  exact (hfront.flatMap hg).append hback

end Expectation

end LispReader
