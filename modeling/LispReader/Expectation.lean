/-!
# Expectations

While rules try their alternatives, they note how far they got and what would have
been accepted there. An expectation is such a note: an offset with a set of
descriptions. Merging two notes keeps the one that got further, and the union of
both when they got equally far.

The set is a strictly ascending list, so equal sets are equal values, and an
expectation of nothing has offset zero. Both facts are fields of the type.
-/

namespace LispReader

/-- What would have been accepted at the furthest offset that was reached. -/
structure Expectation where
  offset : Nat
  items : List String
  ascending : items.Pairwise (· < ·)
  offset_of_nil : items = [] → offset = 0
  deriving Repr

namespace Expectation

/-- Puts a description into its place, unless it is there already. -/
def insert (x : String) : List String → List String
  | [] => [x]
  | y :: ys => if x < y then x :: y :: ys else if x = y then y :: ys else y :: insert x ys

/-- The union of two sets of descriptions. -/
def union (xs ys : List String) : List String := xs.foldr insert ys

theorem mem_insert {x z : String} {ys : List String} : z ∈ insert x ys ↔ z = x ∨ z ∈ ys := by
  induction ys with
  | nil => simp [insert]
  | cons y ys ih =>
    rw [insert]
    split
    · simp
    · split
      next h => subst h; simp
      next => simp only [List.mem_cons, ih]; exact or_left_comm

theorem insert_ne_nil (x : String) (ys : List String) : insert x ys ≠ [] := by
  intro h
  have hx : x ∈ insert x ys := mem_insert.2 (Or.inl rfl)
  rw [h] at hx
  cases hx

theorem pairwise_insert (x : String) {ys : List String} (h : ys.Pairwise (· < ·)) :
    (insert x ys).Pairwise (· < ·) := by
  induction ys with
  | nil => simp [insert]
  | cons y ys ih =>
    rw [List.pairwise_cons] at h
    rw [insert]
    split
    next hxy =>
      refine List.pairwise_cons.2 ⟨fun z hz => ?_, List.pairwise_cons.2 h⟩
      rcases List.mem_cons.1 hz with rfl | hz
      · exact hxy
      · exact String.lt_trans hxy (h.1 z hz)
    next hxy =>
      split
      next => exact List.pairwise_cons.2 h
      next hne =>
        refine List.pairwise_cons.2 ⟨fun z hz => ?_, ih h.2⟩
        rcases mem_insert.1 hz with rfl | hz
        · exact Std.lt_of_le_of_ne (String.not_lt.1 hxy) (Ne.symm hne)
        · exact h.1 z hz

theorem mem_union {z : String} {xs ys : List String} : z ∈ union xs ys ↔ z ∈ xs ∨ z ∈ ys := by
  induction xs with
  | nil => simp [union]
  | cons x xs ih =>
    rw [union, List.foldr_cons, ← union, mem_insert, ih, List.mem_cons, or_assoc]

theorem pairwise_union (xs : List String) {ys : List String} (h : ys.Pairwise (· < ·)) :
    (union xs ys).Pairwise (· < ·) := by
  induction xs with
  | nil => exact h
  | cons x xs ih => exact pairwise_insert x ih

theorem union_eq_nil {xs ys : List String} (h : union xs ys = []) : ys = [] := by
  cases xs with
  | nil => exact h
  | cons x xs => exact absurd h (insert_ne_nil _ _)

/-- Nothing was expected: no attempt has failed. -/
def none : Expectation := ⟨0, [], List.Pairwise.nil, fun _ => rfl⟩

/-- One thing was expected at an offset. -/
def one (offset : Nat) (what : String) : Expectation :=
  ⟨offset, [what], List.pairwise_singleton _ _, nofun⟩

/-- Whether nothing was expected. -/
def isNone (e : Expectation) : Bool := e.items.isEmpty

/-- Whether a description is among those at the furthest offset. -/
def contains (e : Expectation) (what : String) : Bool := e.items.contains what

/-- Keeps the expectation that got further; of two that got equally far, the union. -/
def merge (a b : Expectation) : Expectation :=
  if hb : b.isNone then a
  else if a.isNone then b
  else if b.offset < a.offset then a
  else if a.offset < b.offset then b
  else
    ⟨a.offset, union a.items b.items, pairwise_union _ b.ascending, fun h =>
      absurd (List.isEmpty_iff.2 (union_eq_nil h)) hb⟩

theorem ext {a b : Expectation} (ho : a.offset = b.offset) (hi : a.items = b.items) : a = b := by
  cases a
  cases b
  cases ho
  cases hi
  rfl

instance : DecidableEq Expectation := fun a b =>
  decidable_of_iff (a.offset = b.offset ∧ a.items = b.items)
    ⟨fun h => ext h.1 h.2, fun h => by rw [h]; exact ⟨rfl, rfl⟩⟩

@[simp] theorem isNone_none : none.isNone = true := rfl

@[simp] theorem isNone_one (offset : Nat) (what : String) : (one offset what).isNone = false := rfl

theorem isNone_iff {e : Expectation} : e.isNone = true ↔ e = none := by
  refine ⟨fun h => ?_, fun h => h ▸ rfl⟩
  have hi : e.items = [] := List.isEmpty_iff.1 h
  exact ext (e.offset_of_nil hi) hi

@[simp] theorem merge_none (e : Expectation) : e.merge none = e := rfl

@[simp] theorem none_merge (e : Expectation) : none.merge e = e := by
  rw [merge]
  split
  next h => exact (isNone_iff.1 h).symm
  next => rfl

end Expectation

end LispReader
