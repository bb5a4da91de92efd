import LispReader.Proofs.Run.Reading

/-!
# A single form

Asking for one expression over the whole source agrees with reading the source, where no
interpreter line is allowed. The expression is there exactly if it is all that is read. A
source that fails in its first form fails in the same way, only that the end of the source
was not asked for in place of a form. Behind the first form and its trivia the end is all
that is asked for, whatever else is there.
-/

namespace LispReader

open Notation

/-- The cause where the end of the source would not have been accepted. -/
def Cause.withoutEnd : Cause → Cause
  | unexpected wanted => unexpected (wanted.erase Wanted.endOfInput)
  | cause => cause

namespace Reading

variable {r : Reading} {k v u : Text} {f : Form}

/-! ## A form over the whole source -/

/-- A form and the trivia around it are the whole source, or something else is behind them. -/
theorem ReadsNotation.formBy_of_spells (hr : r.ReadsNotation) {k' : Text}
    (hs : r.source.text = k ++ (v ++ (k' ++ u))) (hk : Trivia k (v ++ (k' ++ u)))
    (hf : Spells (Text.width k) v f (k' ++ u)) (hd : r.depth.Admits f.depth)
    (hk' : Trivia k' u) (hu : ¬ StartsTrivia u) :
    r.formBy Grammar.expression =
      if u = [] then some (.ok f)
      else some (.error ⟨.unexpected [Wanted.endOfInput],
        Text.width k + Text.width v + Text.width k'⟩) := by
  have hs₀ : r.source.suffix? 0 = some (k ++ (v ++ (k' ++ u))) := hs ▸ r.source.suffix?_zero
  have hs₁ := Source.suffix?_add hs₀
  have hs₂ := Source.suffix?_add (Source.suffix?_add hs₁)
  rw [Nat.zero_add] at hs₁ hs₂
  have hfuel := hr.fuel_of_suffix? hs₁
  obtain ⟨k₁, u₁, e, hw, hk₁, hu₁, he, hrun⟩ :=
    hr.grammar.runNode_expression_of_spells hf hs₁ hd (show _ ≤ r.fuel by omega)
  obtain ⟨rfl, rfl⟩ := hk'.unique hk₁ hu hu₁ hw
  have hfront := hr.skipOptional_trivia hs₀ hk (hf.not_startsTrivia _)
  have hbehind := hr.skipOptional_trivia hs₂ (k := []) .nil hu
  rw [Nat.zero_add] at hfront
  rw [Text.width_nil, Nat.add_zero] at hbehind
  simp only [formBy, node, hfront, hrun, hbehind]
  have hwidth := Source.width_of_suffix? hs₂
  by_cases hnil : u = []
  · subst hnil
    rw [if_pos rfl, if_pos (by simpa using hwidth.symm)]
  · have hpos := Text.width_pos hnil
    have hbelow : e.Below (Text.width k + Text.width v + Text.width k') := Or.inr (by omega)
    rw [if_neg hnil, if_neg (by omega), notEnded,
      Expectation.merge_eq_right (b := Expectation.one _ Wanted.endOfInput) hbelow]
    rfl

/-- Where no form begins, one was expected. -/
theorem ReadsNotation.formBy_of_barren (hr : r.ReadsNotation) (hs : r.source.text = k ++ u)
    (hk : Trivia k u) (hu : Barren u) :
    r.formBy Grammar.expression =
      some (.error ⟨(Obstacle.missing .source).cause.withoutEnd, Text.width k⟩) := by
  have hs₀ : r.source.suffix? 0 = some (k ++ u) := hs ▸ r.source.suffix?_zero
  have hs₁ := Source.suffix?_add hs₀
  have hfront := hr.skipOptional_trivia hs₀ hk hu.not_startsTrivia
  rw [Nat.zero_add] at hs₁ hfront
  have hfuel := hr.fuel_of_suffix? hs₁
  obtain ⟨n, hn⟩ : ∃ n, r.fuel = n + 2 := ⟨r.fuel - 2, by omega⟩
  have hrun : r.node Grammar.expression r.depth (Text.width k) =
      some (.reject (wantedForm (Text.width k))) := by
    simpa only [node, hn] using hr.grammar.runNode_expression_of_barren hs₁ hu
  simp only [formBy, hfront, hrun]
  rfl

theorem ReadsNotation.formBy_of_blocked (hr : r.ReadsNotation) {ob : Obstacle} {o : Nat}
    (hs : r.source.text = k ++ u) (hk : Trivia k u)
    (hu : Blocked r.depth (Text.width k) u ob o) :
    r.formBy Grammar.expression = some (.error ⟨ob.cause, o⟩) := by
  have hs₀ : r.source.suffix? 0 = some (k ++ u) := hs ▸ r.source.suffix?_zero
  have hs₁ := Source.suffix?_add hs₀
  have hfront := hr.skipOptional_trivia hs₀ hk hu.not_startsTrivia
  rw [Nat.zero_add] at hs₁ hfront
  have hfuel := hr.fuel_of_suffix? hs₁
  have hrun := hr.grammar.runNode_expression_of_blocked hu hs₁ (show _ ≤ r.fuel by omega)
  simp only [formBy, node, hfront, hrun]
  rcases ob.reply_cases o with ⟨e, he, -, hfault, -⟩ | habort
  · simp only [he, hfault]
  · simp only [habort]

end Reading

namespace Notation

variable {d : Depth} {pos o : Nat} {t : Text} {ob : Obstacle}

/-- The end of the source is not asked for inside a form. -/
theorem Blocked.withoutEnd_cause (h : Blocked d pos t ob o) : ob.cause.withoutEnd = ob.cause := by
  induction h with
  | unterminated _ => rfl
  | badEscape _ _ => rfl
  | tooDeep _ _ _ => rfl
  | item _ _ _ _ ih => exact ih
  | unclosed _ _ _ _ _ => rfl
  | operand _ _ _ _ ih => exact ih
  | noOperand _ _ _ _ => rfl

/-- What a source begins with, behind trivia: no form, a form and trivia behind it, or a form
that is blocked. -/
theorem begins_cases (d : Depth) (s : Text) :
    (∃ k t, s = k ++ t ∧ Trivia k t ∧ Barren t) ∨
    (∃ k v k' u f, s = k ++ (v ++ (k' ++ u)) ∧ Trivia k (v ++ (k' ++ u)) ∧
      Spells (Text.width k) v f (k' ++ u) ∧ d.Admits f.depth ∧ Trivia k' u ∧ ¬ StartsTrivia u) ∨
    ∃ k t ob o, s = k ++ t ∧ Trivia k t ∧ Blocked d (Text.width k) t ob o := by
  obtain ⟨k, t, rfl, hk, ht⟩ := exists_trivia s
  rcases starts_cases t with hs | ho | hb
  · exact absurd hs ht
  · rcases settled_of_opens t d (Text.width k) ho with ⟨v, f, w, rfl, hf, hd⟩ | ⟨ob, o, hb⟩
    · obtain ⟨k', u, rfl, hk', hu⟩ := exists_trivia w
      exact Or.inr (Or.inl ⟨k, v, k', u, f, rfl, hk, hf, hd, hk', hu⟩)
    · exact Or.inr (Or.inr ⟨k, t, ob, o, rfl, hk, hb⟩)
  · exact Or.inl ⟨k, t, rfl, hk, hb⟩

end Notation

namespace Grammar

variable {d : Depth} {k k' t s u v : Text} {f : Form} {ob : Obstacle} {o : Nat}

/-! ## The first item of a stream -/

theorem start_of_trivia (hk : Trivia k t) (ht : ¬ StartsTrivia t) :
    ((standard ⟨false, d⟩).reading (k ++ t)).start = some (.ok (Text.width k)) := by
  have hr := (hasNotation_standard ⟨false, d⟩).readsNotation (k ++ t)
  have hline : InterpreterLine false [] (k ++ t) := .absent nofun
  simpa using hr.start_of_interpreterLine rfl hline hk ht

theorem suffix?_of_trivia (k t : Text) :
    (Source.ofText (k ++ t)).suffix? (Text.width k) = some t :=
  Source.suffix?_eq_some_iff.mpr ⟨k, rfl, rfl⟩

theorem take_one_of_barren (hk : Trivia k t) (ht : Barren t) :
    ((standard ⟨false, d⟩).stream (k ++ t)).take 1 =
      some (if t = [] then ([], true)
        else ([.error (Fault.locate ⟨(Obstacle.missing .source).cause, Text.width k⟩ (k ++ t))],
          false)) := by
  have hr := (hasNotation_standard ⟨false, d⟩).readsNotation (k ++ t)
  have hstart := start_of_trivia (d := d) hk ht.not_startsTrivia
  have hrest := suffix?_of_trivia k t
  by_cases hnil : t = []
  · subst hnil
    exact FormStream.take_one hstart (hr.step_of_end hrest)
  · rw [if_neg hnil]
    exact FormStream.take_one hstart (hr.step_of_barren hrest ht hnil (Expectation.below_none _))

theorem take_one_of_spells (hk : Trivia k (v ++ u)) (hf : Spells (Text.width k) v f u)
    (hd : d.Admits f.depth) :
    ((standard ⟨false, d⟩).stream (k ++ (v ++ u))).take 1 = some ([.ok f], false) := by
  have hr := (hasNotation_standard ⟨false, d⟩).readsNotation (k ++ (v ++ u))
  have hstart := start_of_trivia (d := d) hk (hf.not_startsTrivia u)
  obtain ⟨_, _, _, -, -, -, -, hstep⟩ :=
    hr.step_of_spells hf (suffix?_of_trivia k _) hd (Expectation.below_none _)
  exact FormStream.take_one hstart hstep

theorem take_one_of_blocked (hk : Trivia k t) (ht : Blocked d (Text.width k) t ob o) :
    ((standard ⟨false, d⟩).stream (k ++ t)).take 1 =
      some ([.error (Fault.locate ⟨ob.cause, o⟩ (k ++ t))], false) := by
  have hr := (hasNotation_standard ⟨false, d⟩).readsNotation (k ++ t)
  have hstart := start_of_trivia (d := d) hk ht.not_startsTrivia
  exact FormStream.take_one hstart
    (hr.step_of_blocked (suffix?_of_trivia k t) ht (Expectation.below_none _))

/-! ## An expression -/

variable {a : Bool}

theorem readSlot_expression_eq (settings : Settings) (s : Text) :
    (standard settings).readSlot "expression" s =
      (((standard settings).reading s).formBy expression).map fun result =>
        (result.mapError (Fault.locate · s)).mapError .source := by
  rw [readSlot, show (standard settings).nodeHandle "expression" = .ok expression from rfl]
  simp only [Reading.slot, Option.map_map]
  rfl

theorem readSlot_of_barren (hk : Trivia k t) (ht : Barren t) :
    (standard ⟨a, d⟩).readSlot "expression" (k ++ t) =
      some (.error (.source (Fault.locate
        ⟨(Obstacle.missing .source).cause.withoutEnd, Text.width k⟩ (k ++ t)))) := by
  have hr := (hasNotation_standard ⟨a, d⟩).readsNotation (k ++ t)
  rw [readSlot_expression_eq, hr.formBy_of_barren rfl hk ht]
  rfl

theorem readSlot_of_spells (hk : Trivia k (v ++ (k' ++ u)))
    (hf : Spells (Text.width k) v f (k' ++ u)) (hd : d.Admits f.depth)
    (hk' : Trivia k' u) (hu : ¬ StartsTrivia u) :
    (standard ⟨a, d⟩).readSlot "expression" (k ++ (v ++ (k' ++ u))) =
      if u = [] then some (.ok f)
      else some (.error (.source (Fault.locate
        ⟨.unexpected [Wanted.endOfInput], Text.width k + Text.width v + Text.width k'⟩
        (k ++ (v ++ (k' ++ u)))))) := by
  have hr := (hasNotation_standard ⟨a, d⟩).readsNotation (k ++ (v ++ (k' ++ u)))
  rw [readSlot_expression_eq, hr.formBy_of_spells rfl hk hf hd hk' hu]
  split <;> rfl

theorem readSlot_of_blocked (hk : Trivia k t) (ht : Blocked d (Text.width k) t ob o) :
    (standard ⟨a, d⟩).readSlot "expression" (k ++ t) =
      some (.error (.source (Fault.locate ⟨ob.cause, o⟩ (k ++ t)))) := by
  have hr := (hasNotation_standard ⟨a, d⟩).readsNotation (k ++ t)
  rw [readSlot_expression_eq, hr.formBy_of_blocked rfl hk ht]
  rfl

/-- A document of one form is that form. -/
theorem readSlot_of_document (h : Document ⟨false, d⟩ s [f]) :
    (standard ⟨a, d⟩).readSlot "expression" s = some (.ok f) := by
  obtain ⟨line, v, rfl, hline, hfs, hdepth⟩ := h
  obtain rfl := hline.eq_nil
  cases hfs with
  | cons hk hf hend =>
    cases hend with
    | nil hk' =>
      rw [Text.width_nil, Nat.zero_add] at hf
      simpa using readSlot_of_spells (a := a) hk hf (Depth.admits_max.mp hdepth).1 hk' nofun

/-- A form with trivia around it is a document. -/
theorem document_of_spells (hk : Trivia k (v ++ k')) (hf : Spells (Text.width k) v f k')
    (hd : d.Admits f.depth) (hk' : Trivia k' []) : Document ⟨false, d⟩ (k ++ (v ++ k')) [f] := by
  rw [← List.append_nil k'] at hk hf
  rw [← Nat.zero_add (Text.width k)] at hf
  have hdepth : d.Admits (Form.depths [f]) := Depth.admits_max.mpr ⟨hd, d.admits_zero⟩
  exact ⟨[], _, rfl, .absent nofun, .cons hk hf (.nil hk'), hdepth⟩

/-! ## An expression and a reading -/

theorem readSlot_eq_ok_iff :
    (standard ⟨a, d⟩).readSlot "expression" s = some (.ok f) ↔
      (standard ⟨false, d⟩).read s = some (.ok [f]) := by
  constructor
  · intro h
    rcases begins_cases d s with ⟨k, t, rfl, hk, ht⟩ |
      ⟨k, v, k', u, g, rfl, hk, hf, hd, hk', hu⟩ | ⟨k, t, ob, o, rfl, hk, ht⟩
    · exact absurd (h.symm.trans (readSlot_of_barren hk ht)) nofun
    · rw [readSlot_of_spells hk hf hd hk' hu] at h
      split at h
      next hnil =>
        obtain rfl := Except.ok.inj (Option.some.inj h)
        rw [hnil, List.append_nil] at hk hf ⊢
        rw [hnil] at hk'
        exact (hasNotation_standard ⟨false, d⟩).read_of_document (document_of_spells hk hf hd hk')
      next => exact absurd h nofun
    · exact absurd (h.symm.trans (readSlot_of_blocked hk ht)) nofun
  · intro h
    exact readSlot_of_document ((hasNotation_standard ⟨false, d⟩).document_of_read h)

theorem readSlot_of_take_one_error {e : Diagnostic} {ended : Bool}
    (h : ((standard ⟨false, d⟩).stream s).take 1 = some ([.error e], ended)) :
    (standard ⟨a, d⟩).readSlot "expression" s =
      some (.error (.source ⟨e.cause.withoutEnd, e.position, e.offset⟩)) := by
  rcases begins_cases d s with ⟨k, t, rfl, hk, ht⟩ |
    ⟨k, v, k', u, g, rfl, hk, hf, hd, hk', hu⟩ | ⟨k, t, ob, o, rfl, hk, ht⟩
  · rw [take_one_of_barren hk ht] at h
    split at h
    next => exact absurd h nofun
    next =>
      obtain ⟨⟨rfl, -⟩, -⟩ := by simpa using h
      exact readSlot_of_barren hk ht
  · rw [take_one_of_spells hk hf hd] at h
    exact absurd h nofun
  · rw [take_one_of_blocked hk ht] at h
    obtain ⟨rfl, -⟩ := by simpa using h
    simpa only [Fault.locate, ht.withoutEnd_cause] using readSlot_of_blocked hk ht

theorem readSlot_of_take_one_ok {ended : Bool}
    (h : ((standard ⟨false, d⟩).stream s).take 1 = some ([.ok f], ended)) :
    ∃ x k u, s = x ++ (k ++ u) ∧ Text.width x = f.span.stop ∧ Trivia k u ∧ ¬ StartsTrivia u ∧
      (standard ⟨a, d⟩).readSlot "expression" s =
        if u = [] then some (.ok f)
        else some (.error (.source (Fault.locate
          ⟨.unexpected [Wanted.endOfInput], Text.width (x ++ k)⟩ s))) := by
  rcases begins_cases d s with ⟨k, t, rfl, hk, ht⟩ |
    ⟨k, v, k', u, g, rfl, hk, hf, hd, hk', hu⟩ | ⟨k, t, ob, o, rfl, hk, ht⟩
  · rw [take_one_of_barren hk ht] at h
    split at h <;> exact absurd h nofun
  · rw [take_one_of_spells hk hf hd] at h
    obtain ⟨rfl, -⟩ : g = f ∧ ended = false := by simpa [eq_comm] using h
    refine ⟨k ++ v, k', u, by simp, ?_, hk', hu, ?_⟩
    · rw [hf.span_eq, Text.width_append]
    · simpa [Nat.add_assoc] using readSlot_of_spells hk hf hd hk' hu
  · rw [take_one_of_blocked hk ht] at h
    exact absurd h nofun

/-- An expression over the whole source agrees with reading the source without an interpreter
line. It is accepted with a form exactly if the source is read as that form alone. Where the
first form fails, so does the expression, for the same cause and at the same place, but for the
end of the source. Where more than trivia is behind the first form, only the end is asked for,
behind the trivia. -/
theorem readSlot_expression (allowed : Bool) (depth : Depth) (s : Text) :
    (∀ f, (standard ⟨allowed, depth⟩).readSlot "expression" s = some (.ok f) ↔
      (standard ⟨false, depth⟩).read s = some (.ok [f])) ∧
    (∀ e ended, ((standard ⟨false, depth⟩).stream s).take 1 = some ([.error e], ended) →
      (standard ⟨false, depth⟩).read s = some (.error e) ∧
      (standard ⟨allowed, depth⟩).readSlot "expression" s =
        some (.error (.source ⟨e.cause.withoutEnd, e.position, e.offset⟩))) ∧
    ∀ f ended, ((standard ⟨false, depth⟩).stream s).take 1 = some ([.ok f], ended) →
      ∃ x k u, s = x ++ (k ++ u) ∧ Text.width x = f.span.stop ∧ Trivia k u ∧ ¬ StartsTrivia u ∧
        (standard ⟨allowed, depth⟩).readSlot "expression" s =
          if u = [] then some (.ok f)
          else some (.error (.source (Fault.locate
            ⟨.unexpected [Wanted.endOfInput], Text.width (x ++ k)⟩ s))) := by
  refine ⟨?_, ?_, ?_⟩
  · intro f
    exact readSlot_eq_ok_iff
  · intro e ended h
    have hfuel := ((hasNotation_standard ⟨false, depth⟩).readsNotation s).fuel
    exact ⟨FormStream.forms_of_take_one (by omega) h, readSlot_of_take_one_error h⟩
  · intro f ended h
    exact readSlot_of_take_one_ok h

/-- A bracket that closes nothing, in place of the first form and behind it. -/
theorem readSlot_expression_bracket :
    (∀ f, (standard ⟨true, some 1⟩).readSlot "expression" [';'] = some (.ok f) ↔
      (standard ⟨false, some 1⟩).read [';'] = some (.ok [f])) ∧
    (standard ⟨true, some 1⟩).readSlot "expression" [' ', ')'] =
      some (.error (.source ⟨.unexpected [Wanted.atom, Wanted.openingParen, Wanted.quote,
        Wanted.stringLiteral], ⟨1, 2⟩, 1⟩)) ∧
    ∃ x k u, ['a', ' ', ')'] = x ++ (k ++ u) ∧ Text.width x = 1 ∧ Trivia k u ∧
      ¬ StartsTrivia u ∧
      (standard ⟨true, some 1⟩).readSlot "expression" ['a', ' ', ')'] =
        if u = [] then some (.ok (.atom ['a'] ⟨0, 1⟩))
        else some (.error (.source (Fault.locate
          ⟨.unexpected [Wanted.endOfInput], Text.width (x ++ k)⟩ ['a', ' ', ')']))) := by
  refine ⟨?_, ?_, ?_⟩
  · exact (readSlot_expression true (some 1) [';']).1
  · exact ((readSlot_expression true (some 1) [' ', ')']).2.1 _ false rfl).2
  · exact (readSlot_expression true (some 1) ['a', ' ', ')']).2.2 _ false rfl

end Grammar

end LispReader
