import LispReader.Proofs.Run.Reading

/-!
# Forms one at a time

Asking for the forms of a source one at a time gives what reading them at once gives,
whatever rules the slots hold: all forms and then the end, or some forms, the very
diagnostic, and the end. Only the last step is asked which of the two it is, so nothing
is delivered late and nothing is taken back. In the notation the forms in front of a
diagnostic are a reading of their own, of the source up to a place that is not behind
the offset of the diagnostic.

Nothing is said of readings that do not come to an end.
-/

namespace LispReader

open Notation

namespace Grammar

/-- In the notation, a stream delivers the forms of a beginning of the source in front of a
diagnostic, and the beginning is accepted by itself. -/
theorem HasNotation.delivers_of_read_error {g : Grammar} (hg : g.HasNotation) {s : Text}
    {d : Diagnostic} (h : g.read s = some (.error d)) :
    ∃ x y fs, s = x ++ y ∧ Text.width x ≤ d.offset ∧ g.read x = some (.ok fs) ∧
      (g.stream s).Delivers (fs.map .ok ++ [.error d]) := by
  obtain ⟨ob, o, hob, rfl⟩ := hg.rejected_of_read h
  obtain ⟨x, y, fs, pos, e, hs, ho, hdocument, hstart, hreads, -, hstep⟩ :=
    (hg.readsNotation s).exists_failed_of_rejected hob
  have hfailed := FormStream.delivers_of_failed hstep
  exact ⟨x, y, fs, hs, ho, hg.read_of_document hdocument,
    FormStream.delivers_of_start hstart (FormStream.delivers_of_reads hreads hfailed)⟩

/-- A stream agrees with reading at once, for all grammars and with all fuel for which the
reading comes to an end. Forms are delivered in order, and nothing behind them. Behind the forms
in front of a diagnostic it is delivered as the last item. In the notation these forms are what
the source up to some place in front of the diagnostic, or at it, is read with. -/
theorem stream_delivers_forms (r : Reading) :
    (∀ fs, r.forms = some (.ok fs) → (FormStream.mk r .fresh).Delivers (fs.map .ok)) ∧
    (∀ d, r.forms = some (.error d) → ∃ fs : List Form,
      (FormStream.mk r .fresh).Delivers (fs.map .ok ++ [.error d])) ∧
    ∀ settings s d, (standard settings).read s = some (.error d) →
      ∃ x y fs, s = x ++ y ∧ Text.width x ≤ d.offset ∧
        (standard settings).read x = some (.ok fs) ∧
        ((standard settings).stream s).Delivers (fs.map .ok ++ [.error d]) := by
  refine ⟨?_, ?_, ?_⟩
  · intro fs h
    exact FormStream.delivers_of_forms h
  · intro d h
    exact FormStream.exists_delivers_of_forms h
  · intro settings s d h
    exact (hasNotation_standard settings).delivers_of_read_error h

/-- An expression that reads the letter `a`, and a list without any text elsewhere. -/
def letterOrNothing : NodeRule :=
  .custom fun v pos =>
    match v.rest pos with
    | 'a' :: _ => .answer (.done (.atom ['a'] ⟨pos, pos + 1⟩) (pos + 1))
    | _ => .answer (.done (.list [] ⟨pos, pos⟩) pos)

/-- A form without text is not delivered. In the notation, a list that is never closed is behind
the forms that are. -/
theorem stream_delivers_forms_letters :
    (∃ g, (standard .fragment).replace "expression" (.node letterOrNothing) = .ok g ∧
      g.read ['a', 'a'] = some (.error ⟨.unexpected [Wanted.endOfInput], ⟨1, 3⟩, 2⟩) ∧
      ∃ fs : List Form, (g.stream ['a', 'a']).Delivers
        (fs.map .ok ++ [.error ⟨.unexpected [Wanted.endOfInput], ⟨1, 3⟩, 2⟩])) ∧
    (∃ fs, (standard .fragment).read ['a', ' ', 'b'] = some (.ok fs) ∧
      ((standard .fragment).stream ['a', ' ', 'b']).Delivers (fs.map .ok)) ∧
    ∃ d x y fs, (standard .fragment).read ['a', ' ', '('] = some (.error d) ∧
      ['a', ' ', '('] = x ++ y ∧ Text.width x ≤ d.offset ∧
      (standard .fragment).read x = some (.ok fs) ∧
      ((standard .fragment).stream ['a', ' ', '(']).Delivers (fs.map .ok ++ [.error d]) := by
  refine ⟨⟨_, rfl, rfl, ?_⟩, ⟨_, rfl, ?_⟩, ?_⟩
  · exact (stream_delivers_forms _).2.1 _ rfl
  · exact (stream_delivers_forms _).1 _ rfl
  · obtain ⟨x, y, fs, h⟩ := (stream_delivers_forms ((standard .fragment).reading [])).2.2
      .fragment ['a', ' ', '('] _ rfl
    exact ⟨_, x, y, fs, rfl, h⟩

end Grammar

end LispReader
