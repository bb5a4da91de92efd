import LispReader.FormStream

/-!
# Steps in a row

A reading goes through its source in steps, whether all forms are asked for at once or
one at a time. Both ways have in common the forms that steps read one after the other,
and the step behind them that reads none. The result of a reading at once is these
forms, or the fault of the last step. A stream delivers these forms, and the fault
behind them. So the two agree for all rules, as far as the reading comes to an end.
-/

namespace LispReader

namespace Reading

/-- Steps read forms one after the other, from one offset to another. Expectations are
passed on from step to step. -/
inductive Reads (r : Reading) : Nat → Expectation → List Form → Nat → Expectation → Prop where
  | nil {pos : Nat} {e : Expectation} : Reads r pos e [] pos e
  | cons {pos next stop : Nat} {e e' e'' : Expectation} {f : Form} {fs : List Form}
      (h : r.step pos e = some (.form f next e')) (hfs : Reads r next e' fs stop e'') :
      Reads r pos e (f :: fs) stop e''

variable {r : Reading} {pos stop rounds : Nat} {e e' : Expectation} {fs forms : List Form}
  {fault : Fault}

/-- Forms that steps read are put in front of those that are read behind them. -/
theorem Reads.formsFrom_eq (h : r.Reads pos e fs stop e') (rounds : Nat) (forms : List Form) :
    r.formsFrom (rounds + fs.length) forms pos e =
      r.formsFrom rounds (fs.reverse ++ forms) stop e' := by
  induction h generalizing forms with
  | nil => rfl
  | @cons _ _ _ _ _ _ f fs hstep _ ih =>
    rw [List.length_cons, ← Nat.add_assoc, formsFrom, hstep]
    dsimp only
    rw [ih, List.reverse_cons, List.append_assoc, List.singleton_append]

/-- A run that has a result reads forms up to a step that reads none. -/
theorem exists_reads_of_formsFrom {result : Except Fault (List Form)}
    (h : r.formsFrom rounds forms pos e = some result) :
    ∃ fs stop e', r.Reads pos e fs stop e' ∧
      (r.step stop e' = some .finished ∧ result = .ok (forms.reverse ++ fs) ∨
        ∃ fault, r.step stop e' = some (.failed fault) ∧ result = .error fault) := by
  induction rounds generalizing forms pos e with
  | zero => exact absurd h nofun
  | succ rounds ih =>
    rw [formsFrom] at h
    cases hstep : r.step pos e with
    | none =>
      rw [hstep] at h
      exact absurd h nofun
    | some step =>
      rw [hstep] at h
      cases step with
      | form f next e₁ =>
        obtain ⟨fs, stop, e', hreads, hend⟩ := ih h
        rw [List.reverse_cons, List.append_assoc, List.singleton_append] at hend
        exact ⟨f :: fs, stop, e', .cons hstep hreads, hend⟩
      | finished =>
        refine ⟨[], pos, e, .nil, Or.inl ⟨hstep, ?_⟩⟩
        rw [List.append_nil]
        exact (Option.some.inj h).symm
      | failed fault =>
        exact ⟨[], pos, e, .nil, Or.inr ⟨fault, hstep, (Option.some.inj h).symm⟩⟩

/-- A reading that has a result fails at its start, or reads forms up to a step that
reads none. -/
theorem forms_cases {result : Except Diagnostic (List Form)} (h : r.forms = some result) :
    (∃ fault, r.start = some (.error fault) ∧
      result = .error (fault.locate r.source.text)) ∨
    ∃ pos fs stop e, r.start = some (.ok pos) ∧ r.Reads pos Expectation.none fs stop e ∧
      (r.step stop e = some .finished ∧ result = .ok fs ∨
        ∃ fault, r.step stop e = some (.failed fault) ∧
          result = .error (fault.locate r.source.text)) := by
  rw [Reading.forms] at h
  cases hstart : r.start with
  | none =>
    rw [hstart] at h
    exact absurd h nofun
  | some first =>
    rw [hstart] at h
    cases first with
    | error fault => exact Or.inl ⟨fault, rfl, (Option.some.inj h).symm⟩
    | ok pos =>
      obtain ⟨found, hfound, rfl⟩ := Option.map_eq_some_iff.mp h
      obtain ⟨fs, stop, e, hreads, hend⟩ := exists_reads_of_formsFrom hfound
      refine Or.inr ⟨pos, fs, stop, e, rfl, hreads, ?_⟩
      rcases hend with ⟨hstep, rfl⟩ | ⟨fault, hstep, rfl⟩
      · exact Or.inl ⟨hstep, rfl⟩
      · exact Or.inr ⟨fault, hstep, rfl⟩

/-- Where the fuel lasts for one round more than there are forms, the last step tells
the result. -/
theorem Reads.forms_eq (h : r.Reads pos Expectation.none fs stop e)
    (hstart : r.start = some (.ok pos)) (hfuel : fs.length < r.fuel) :
    ∃ rounds, r.forms = (r.formsFrom (rounds + 1) fs.reverse stop e).map r.locate := by
  obtain ⟨rounds, hrounds⟩ : ∃ rounds, r.fuel = rounds + 1 + fs.length :=
    ⟨r.fuel - fs.length - 1, by omega⟩
  refine ⟨rounds, ?_⟩
  rw [Reading.forms, hstart]
  dsimp only
  rw [hrounds, h.formsFrom_eq, List.append_nil]

theorem Reads.forms_of_finished (h : r.Reads pos Expectation.none fs stop e)
    (hstart : r.start = some (.ok pos)) (hfuel : fs.length < r.fuel)
    (hstep : r.step stop e = some .finished) : r.forms = some (.ok fs) := by
  obtain ⟨rounds, hforms⟩ := h.forms_eq hstart hfuel
  rw [hforms, formsFrom, hstep, List.reverse_reverse]
  rfl

theorem Reads.forms_of_failed (h : r.Reads pos Expectation.none fs stop e)
    (hstart : r.start = some (.ok pos)) (hfuel : fs.length < r.fuel)
    (hstep : r.step stop e = some (.failed fault)) :
    r.forms = some (.error (fault.locate r.source.text)) := by
  obtain ⟨rounds, hforms⟩ := h.forms_eq hstart hfuel
  rw [hforms, formsFrom, hstep]
  rfl

end Reading

/-! ## Streams -/

namespace FormStream

/-- A stream delivers these items and ends: asked for any number of items, it gives
as many of them, and tells that it ended if there are not so many. -/
def Delivers (s : FormStream) (items : List (Except Diagnostic Form)) : Prop :=
  ∀ n, s.take n = some (items.take n, decide (items.length < n))

variable {s s' : FormStream} {item : Except Diagnostic Form}
  {items : List (Except Diagnostic Form)}

theorem delivers_nil (h : s.next = some (none, s')) : s.Delivers [] := by
  intro n
  cases n with
  | zero => rfl
  | succ n =>
    rw [take, h]
    rfl

theorem delivers_cons (h : s.next = some (some item, s')) (hs : s'.Delivers items) :
    s.Delivers (item :: items) := by
  intro n
  cases n with
  | zero => rfl
  | succ n =>
    rw [take, h]
    dsimp only
    rw [hs n]
    simp

/-- What a stream delivers is told by its next item and what is behind it. -/
theorem Delivers.of_next_eq (hs : s'.Delivers items) (h : s.next = s'.next) :
    s.Delivers items := by
  intro n
  cases n with
  | zero => rfl
  | succ n =>
    have htake := hs (n + 1)
    rwa [take, ← h, ← take] at htake

variable {r : Reading} {pos stop : Nat} {e e' : Expectation} {fs : List Form} {fault : Fault}

theorem delivers_of_finished (h : r.step pos e = some .finished) :
    (FormStream.mk r (.next pos e)).Delivers [] := by
  have hnext : (FormStream.mk r (.next pos e)).next = some (none, ⟨r, .ended⟩) := by
    simp only [next, nextAt, h]
  exact delivers_nil hnext

theorem delivers_of_failed (h : r.step pos e = some (.failed fault)) :
    (FormStream.mk r (.next pos e)).Delivers [.error (fault.locate r.source.text)] := by
  have hnext : (FormStream.mk r (.next pos e)).next =
      some ((FormStream.mk r (.next pos e)).fail fault) := by
    simp only [next, nextAt, h]
  exact delivers_cons hnext (delivers_nil rfl)

/-- Forms that steps read are delivered in front of what is delivered behind them. -/
theorem delivers_of_reads (h : r.Reads pos e fs stop e')
    (hs : (FormStream.mk r (.next stop e')).Delivers items) :
    (FormStream.mk r (.next pos e)).Delivers (fs.map .ok ++ items) := by
  induction h with
  | nil => exact hs
  | @cons pos next _ e e₁ _ f fs hstep _ ih =>
    have hnext : (FormStream.mk r (.next pos e)).next =
        some (some (.ok f), ⟨r, .next next e₁⟩) := by
      simp only [FormStream.next, nextAt, hstep]
    exact delivers_cons hnext (ih hs)

/-- Nothing was expected in front of the first form. -/
theorem next_fresh (h : r.start = some (.ok pos)) :
    (FormStream.mk r .fresh).next = (FormStream.mk r (.next pos Expectation.none)).next := by
  simp only [next, h, nextAt, fail]

theorem delivers_of_start (h : r.start = some (.ok pos))
    (hs : (FormStream.mk r (.next pos Expectation.none)).Delivers items) :
    (FormStream.mk r .fresh).Delivers items :=
  hs.of_next_eq (next_fresh h)

theorem delivers_of_start_error (h : r.start = some (.error fault)) :
    (FormStream.mk r .fresh).Delivers [.error (fault.locate r.source.text)] := by
  have hnext : (FormStream.mk r .fresh).next = some ((FormStream.mk r .fresh).fail fault) := by
    simp only [next, h]
  exact delivers_cons hnext (delivers_nil rfl)

/-- The first item is told by the first step. -/
theorem take_one {step : Step} (hstart : r.start = some (.ok pos))
    (hstep : r.step pos Expectation.none = some step) :
    (FormStream.mk r .fresh).take 1 = some (match step with
      | .form f _ _ => ([.ok f], false)
      | .finished => ([], true)
      | .failed fault => ([.error (fault.locate r.source.text)], false)) := by
  cases step <;>
    simp only [take, next, nextAt, fail, hstart, hstep, Option.map_some]

/-- A diagnostic in place of the first form is that of the reading. -/
theorem forms_of_take_one {d : Diagnostic} {ended : Bool} (hfuel : 0 < r.fuel)
    (h : (FormStream.mk r .fresh).take 1 = some ([.error d], ended)) :
    r.forms = some (.error d) := by
  match hstart : r.start with
  | none => simp [take, next, hstart] at h
  | some (.error fault) =>
    simp [take, next, fail, hstart] at h
    simp [Reading.forms, hstart, h.1]
  | some (.ok pos) =>
    match hstep : r.step pos Expectation.none with
    | none => simp [take, next, nextAt, hstart, hstep] at h
    | some (.form f next e) => simp [take_one hstart hstep] at h
    | some .finished => simp [take_one hstart hstep] at h
    | some (.failed fault) =>
      simp [take_one hstart hstep] at h
      rw [Reading.Reads.nil.forms_of_failed hstart hfuel hstep, h.1]

/-- A stream delivers the forms that are read at once. -/
theorem delivers_of_forms (h : r.forms = some (.ok fs)) :
    (FormStream.mk r .fresh).Delivers (fs.map .ok) := by
  rcases Reading.forms_cases h with ⟨fault, -, herror⟩ | ⟨pos, gs, stop, e, hstart, hreads, hend⟩
  · exact absurd herror nofun
  rcases hend with ⟨hstep, hfs⟩ | ⟨fault, -, herror⟩
  · obtain rfl := Except.ok.inj hfs
    have hitems := delivers_of_start hstart (delivers_of_reads hreads (delivers_of_finished hstep))
    rwa [List.append_nil] at hitems
  · exact absurd herror nofun

/-- Where there is a diagnostic for what is read at once, a stream delivers some forms and
then the diagnostic. -/
theorem exists_delivers_of_forms {d : Diagnostic} (h : r.forms = some (.error d)) :
    ∃ fs : List Form, (FormStream.mk r .fresh).Delivers (fs.map .ok ++ [.error d]) := by
  rcases Reading.forms_cases h with ⟨fault, hstart, hd⟩ | ⟨pos, fs, stop, e, hstart, hreads, hend⟩
  · obtain rfl := Except.error.inj hd
    exact ⟨[], delivers_of_start_error hstart⟩
  rcases hend with ⟨-, hok⟩ | ⟨fault, hstep, hd⟩
  · exact absurd hok nofun
  · obtain rfl := Except.error.inj hd
    exact ⟨fs, delivers_of_start hstart (delivers_of_reads hreads (delivers_of_failed hstep))⟩

end FormStream

end LispReader
