import LispReader.Proofs.Formatting
import LispReader.Proofs.Recognition

/-!
# What is written tells the content

Two forms have the same content when they differ in their spans only, and then they are written
alike. The other way round, what is written tells what it was written for: it spells a form with
the same content, and no text spells two. An atom without characters is the exception. It is
written as nothing at all, so that a list of it looks like an empty list.
-/

namespace LispReader

open Notation

namespace Form

variable {f g : Form} {fs gs : List Form}

theorem equivalence_sameContent : Equivalence fun f g : Form => f.sameContent g = true where
  refl f := (sameContent_iff f f).mpr rfl
  symm h := (sameContent_iff _ _).mpr ((sameContent_iff _ _).mp h).symm
  trans h h' := (sameContent_iff _ _).mpr
    (((sameContent_iff _ _).mp h).trans ((sameContent_iff _ _).mp h'))

/-- Forms that are written alike have the same contents. -/
theorem data_eq_of_writeAll_eq (hfs : Filled (preorders 0 fs)) (hgs : Filled (preorders 0 gs))
    (h : writeAll fs = writeAll gs) : data fs = data gs := by
  have hadmits : ∀ n, (Settings.mk false none).depth.Admits n := fun _ => trivial
  obtain ⟨fs', hfs', hdata⟩ := exists_document_writeAll hfs (hadmits _)
  obtain ⟨gs', hgs', hdata'⟩ := exists_document_writeAll hgs (hadmits _)
  rw [← h] at hgs'
  rw [← hdata, ← hdata', hfs'.unique hgs']

theorem writeAll_singleton_congr (h : f.render = g.render) : writeAll [f] = writeAll [g] := by
  simp only [writeAll, allPieces, pieces, h, List.flatMap_nil]

theorem datum_eq_of_render_eq (hf : Filled (f.preorder 0)) (hg : Filled (g.preorder 0))
    (h : f.render = g.render) : f.datum = g.datum := by
  have hfilled : ∀ {k : Form}, Filled (k.preorder 0) → Filled (preorders 0 [k]) := by
    intro k hk
    rw [preorders, preorders, List.append_nil]
    exact hk
  have hdata := data_eq_of_writeAll_eq (hfilled hf) (hfilled hg) (writeAll_singleton_congr h)
  exact (List.cons.inj hdata).1

/-- Having the same content is the equality that is left when the spans are forgotten. Forms with
the same content are written alike, and forms that are written alike have the same content unless
one of them holds an atom without characters. -/
theorem sameContent_told_by_render :
    (Equivalence fun f g : Form => f.sameContent g = true) ∧
    ∀ f g : Form,
      (f.sameContent g = true ↔ f.datum = g.datum) ∧
      (f.sameContent g = true → f.render = g.render) ∧
      ((∀ p ∈ f.preorder 0, ∀ s, p.2 ≠ .atom [] s) →
        (∀ p ∈ g.preorder 0, ∀ s, p.2 ≠ .atom [] s) →
        f.render = g.render → f.sameContent g = true) := by
  refine ⟨equivalence_sameContent, fun f g => ⟨sameContent_iff f g, ?_, ?_⟩⟩
  · intro h
    exact congrArg Datum.render ((sameContent_iff f g).mp h)
  · intro hf hg h
    exact (sameContent_iff f g).mpr (datum_eq_of_render_eq hf hg h)

/-- A quote form as it is read from an operator. -/
def fromOperator : Form := quoted .quote 0 (.atom ['a'] ⟨1, 2⟩) 2

/-- The quote form as it is read from the list that the operator abbreviates. -/
def fromList : Form := .list [.atom "quote".toList ⟨1, 6⟩, .atom ['a'] ⟨7, 8⟩] ⟨0, 9⟩

/-- An operator and the list that it abbreviates have the same content. -/
theorem sameContent_told_by_render_quoted :
    (∀ p ∈ fromOperator.preorder 0, ∀ s, p.2 ≠ .atom [] s) ∧
    (∀ p ∈ fromList.preorder 0, ∀ s, p.2 ≠ .atom [] s) ∧
    fromOperator.render = fromList.render ∧ fromOperator.sameContent fromList = true := by
  have hoperator : ∀ p ∈ fromOperator.preorder 0, ∀ s, p.2 ≠ .atom [] s := by
    simp [fromOperator, quoted, symbol, preorder, preorders, QuoteOperator.name]
  have hlist : ∀ p ∈ fromList.preorder 0, ∀ s, p.2 ≠ .atom [] s := by
    simp [fromList, preorder, preorders]
  have hrender : fromOperator.render = fromList.render := rfl
  obtain ⟨-, -, htold⟩ := sameContent_told_by_render.2 fromOperator fromList
  exact ⟨hoperator, hlist, hrender, htold hoperator hlist hrender⟩

-- A list of an empty atom is written like an empty list.
example : (list [atom [] ⟨1, 1⟩] ⟨0, 2⟩).render = (list [] ⟨0, 2⟩).render ∧
    (list [atom [] ⟨1, 1⟩] ⟨0, 2⟩).sameContent (list [] ⟨0, 2⟩) = false := by
  decide

end Form

end LispReader
