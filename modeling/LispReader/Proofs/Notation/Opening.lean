import LispReader.Grammar.Basic
import LispReader.Proofs.Offset
import LispReader.Proofs.Notation.Token

/-!
# How forms begin

The first characters of a text tell which rule can read a form there: no two rules
of the notation ever compete. A text that begins neither with trivia nor with a
form is barren; it is the end, a closing parenthesis, or an escape in front of a
character that needs none.
-/

namespace LispReader

namespace Notation

open Alphabet

/-! ## Reserved characters -/

theorem isReserved_of_isBlank {c : Char} (h : Text.isBlank c = true) : isReserved c = true := by
  simp [isReserved, h]

/-- The first characters of the quote operators. -/
def quoteMarks : List Char := ['\x27', '\x60', ',']

theorem isReserved_of_mem_quoteMarks {c : Char} (h : c ∈ quoteMarks) : isReserved c = true := by
  simp only [quoteMarks, List.mem_cons, List.not_mem_nil, or_false] at h
  rcases h with rfl | rfl | rfl <;> decide

theorem not_isBlank_of_mem_quoteMarks {c : Char} (h : c ∈ quoteMarks) :
    Text.isBlank c = false := by
  simp only [quoteMarks, List.mem_cons, List.not_mem_nil, or_false] at h
  rcases h with rfl | rfl | rfl <;> decide

/-- A reserved character is blank, begins a quote operator, or is one of five marks. -/
theorem reserved_cases {c : Char} (h : isReserved c = true) :
    Text.isBlank c = true ∨ c ∈ quoteMarks ∨ c = openParen ∨ c = closeParen ∨ c = quotation ∨
      c = escape ∨ c = semicolon := by
  simp only [isReserved, Bool.or_eq_true, decide_eq_true_eq, List.mem_cons, List.not_mem_nil,
    or_false] at h
  simp only [quoteMarks, List.mem_cons, List.not_mem_nil, or_false]
  grind

/-- An atom goes on with a character that is not reserved, or with an escape. -/
theorem not_startsConstituent_of_reserved {c : Char} (hr : isReserved c = true)
    (hc : c ≠ escape) (t : Text) : ¬ StartsConstituent isReserved (c :: t) := by
  intro h
  cases h with
  | plain _ hr' => exact absurd (hr'.symm.trans hr) (by decide)
  | escaped _ => exact hc rfl

/-! ## Quote operators -/

theorem sign_eq_cons (op : QuoteOperator) : ∃ c u, op.sign = c :: u ∧ c ∈ quoteMarks := by
  cases op with
  | quote => exact ⟨_, _, rfl, by decide⟩
  | quasiquote => exact ⟨_, _, rfl, by decide⟩
  | unquote => exact ⟨_, _, rfl, by decide⟩
  | unquoteSplicing => exact ⟨_, _, rfl, by decide⟩

theorem width_sign_pos (op : QuoteOperator) : 0 < Text.width op.sign := by
  apply Text.width_pos
  obtain ⟨c, u, hs, -⟩ := sign_eq_cons op
  rw [hs]
  exact nofun

/-- An operator in front of a text is the one that is recognized there. -/
theorem ofText?_sign_append {op : QuoteOperator} {t : Text}
    (h : op = .unquote → t.head? ≠ some '@') : QuoteOperator.ofText? (op.sign ++ t) = some op := by
  cases op with
  | quote => rfl
  | quasiquote => rfl
  | unquoteSplicing => rfl
  | unquote =>
    cases t with
    | nil => rfl
    | cons c t =>
      have hc : c ≠ '@' := by
        rintro rfl
        exact h rfl rfl
      simp [QuoteOperator.sign, QuoteOperator.ofText?, hc]

theorem ofText?_eq_none {t : Text} (h : ∀ c u, t = c :: u → c ∉ quoteMarks) :
    QuoteOperator.ofText? t = none := by
  cases ho : QuoteOperator.ofText? t with
  | none => rfl
  | some op =>
    obtain ⟨u, rfl⟩ := QuoteOperator.sign_isPrefix_of_ofText? ho
    obtain ⟨c, v, hs, hc⟩ := sign_eq_cons op
    exact absurd hc (h c (v ++ u) (by rw [hs, List.cons_append]))

/-- Where the first character of an operator stands, there is an operator. -/
theorem exists_operator {c : Char} (hc : c ∈ quoteMarks) (t : Text) :
    ∃ op u, c :: t = QuoteOperator.sign op ++ u ∧ (op = .unquote → u.head? ≠ some '@') := by
  simp only [quoteMarks, List.mem_cons, List.not_mem_nil, or_false] at hc
  rcases hc with rfl | rfl | rfl
  · exact ⟨.quote, t, rfl, nofun⟩
  · exact ⟨.quasiquote, t, rfl, nofun⟩
  · by_cases ht : t.head? = some '@'
    · obtain ⟨u, rfl⟩ := List.head?_eq_some_iff.mp ht
      exact ⟨.unquoteSplicing, u, rfl, nofun⟩
    · exact ⟨.unquote, t, rfl, fun _ => ht⟩

/-! ## Kinds of forms -/

/-- The rules of the notation that make forms. -/
inductive Kind where
  | list
  | atom
  | string
  | quote
  deriving DecidableEq

namespace Kind

/-- The slot that holds the rule. -/
def slot : Kind → NodeHandle
  | list => Grammar.list
  | atom => Grammar.atom
  | string => Grammar.string
  | quote => Grammar.quote

/-- What the rule says it expects where it does not apply. -/
def wanted : Kind → String
  | list => Wanted.openingParen
  | atom => Wanted.atom
  | string => Wanted.stringLiteral
  | quote => Wanted.quote

/-- The texts that the rule can begin to read. -/
inductive Opens : Kind → Text → Prop where
  | list {t : Text} : Opens list (openParen :: t)
  | atom {t : Text} (h : StartsConstituent isReserved t) : Opens atom t
  | string {t : Text} : Opens string (quotation :: t)
  | quote {c : Char} {t : Text} (hc : c ∈ quoteMarks) : Opens quote (c :: t)

theorem Opens.sign (op : QuoteOperator) (t : Text) :
    Opens .quote (op.sign ++ t) := by
  obtain ⟨c, u, hs, hc⟩ := sign_eq_cons op
  rw [hs]
  exact .quote hc

theorem slot_injective {kind kind' : Kind} (h : kind.slot = kind'.slot) : kind = kind' := by
  cases kind <;> cases kind' <;> first | rfl | exact absurd h (by decide)

/-- A rule other than that for atoms is known by one reserved character. -/
theorem Opens.reserved {kind : Kind} {c : Char} {t : Text} (h : kind.Opens (c :: t))
    (hk : kind ≠ .atom) : isReserved c = true ∧ c ≠ escape := by
  cases h with
  | list => exact ⟨by decide, by decide⟩
  | atom _ => exact absurd rfl hk
  | string => exact ⟨by decide, by decide⟩
  | quote hc =>
    refine ⟨isReserved_of_mem_quoteMarks hc, ?_⟩
    rintro rfl
    exact absurd hc (by decide)

theorem Opens.ne_nil {kind : Kind} {t : Text} (h : kind.Opens t) : t ≠ [] := by
  rintro rfl
  cases h with
  | atom h => cases h

theorem Opens.not_startsTrivia {kind : Kind} {t : Text} (h : kind.Opens t) :
    ¬ StartsTrivia t := by
  intro ht
  cases ht with
  | @blank c t hc =>
    by_cases hk : kind = .atom
    · subst hk
      cases h with
      | atom h =>
        cases h with
        | plain _ hr => exact absurd (hr.symm.trans (isReserved_of_isBlank hc)) (by decide)
        | escaped _ => exact absurd hc (by decide)
    · cases h with
      | list => exact absurd hc (by decide)
      | atom _ => exact hk rfl
      | string => exact absurd hc (by decide)
      | quote hq => exact absurd ((not_isBlank_of_mem_quoteMarks hq).symm.trans hc) (by decide)
  | comment =>
    cases h with
    | atom h =>
      cases h with
      | plain _ hr => exact absurd hr (by decide)
    | quote hq => exact absurd hq (by decide)

/-- No text can be begun by two rules. -/
theorem Opens.unique {kind kind' : Kind} {t : Text} (h : kind.Opens t) (h' : kind'.Opens t) :
    kind = kind' := by
  have key : ∀ {k k' : Kind}, k.Opens t → k'.Opens t → k = .atom → k' = .atom := by
    rintro k k' hk hk' rfl
    by_cases ha : k' = .atom
    · exact ha
    · cases t with
      | nil => exact absurd rfl hk.ne_nil
      | cons c t =>
        obtain ⟨hr, hc⟩ := hk'.reserved ha
        cases hk with
        | atom hs => exact absurd hs (not_startsConstituent_of_reserved hr hc t)
  cases h with
  | atom hs => exact (key (.atom hs) h' rfl).symm
  | list =>
    cases h' with
    | list => rfl
    | atom hs => exact key (.atom hs) .list rfl
    | quote hc => exact absurd hc (by decide)
  | string =>
    cases h' with
    | string => rfl
    | atom hs => exact key (.atom hs) .string rfl
    | quote hc => exact absurd hc (by decide)
  | quote hc =>
    cases h' with
    | quote _ => rfl
    | list => exact absurd hc (by decide)
    | string => exact absurd hc (by decide)
    | atom hs => exact key (.atom hs) (.quote hc) rfl

end Kind

/-! ## Barren texts -/

/-- The texts that begin neither with trivia nor with a form. -/
inductive Barren : Text → Prop where
  | nil : Barren []
  | close {t : Text} : Barren (closeParen :: t)
  | escape : Barren [escape]
  | escapePlain {c : Char} {t : Text} (hc : isReserved c = false) : Barren (escape :: c :: t)

/-- A text begins with trivia, with a form of some kind, or is barren. -/
theorem starts_cases (t : Text) :
    StartsTrivia t ∨ (∃ kind : Kind, kind.Opens t) ∨ Barren t := by
  cases t with
  | nil => exact Or.inr (Or.inr .nil)
  | cons c t =>
    by_cases hr : isReserved c = true
    · rcases reserved_cases hr with hb | hq | rfl | rfl | rfl | rfl | rfl
      · exact Or.inl (.blank hb)
      · exact Or.inr (Or.inl ⟨.quote, .quote hq⟩)
      · exact Or.inr (Or.inl ⟨.list, .list⟩)
      · exact Or.inr (Or.inr .close)
      · exact Or.inr (Or.inl ⟨.string, .string⟩)
      · cases t with
        | nil => exact Or.inr (Or.inr .escape)
        | cons e t =>
          cases he : isReserved e with
          | true => exact Or.inr (Or.inl ⟨.atom, .atom (.escaped he)⟩)
          | false => exact Or.inr (Or.inr (.escapePlain he))
      · exact Or.inl .comment
    · rw [Bool.not_eq_true] at hr
      have hc : c ≠ escape := by
        rintro rfl
        exact absurd hr (by decide)
      exact Or.inr (Or.inl ⟨.atom, .atom (.plain hc hr)⟩)

theorem Barren.not_startsTrivia {t : Text} (h : Barren t) : ¬ StartsTrivia t := by
  intro ht
  cases h with
  | nil => cases ht
  | close =>
    cases ht with
    | blank hc => exact absurd hc (by decide)
  | escape =>
    cases ht with
    | blank hc => exact absurd hc (by decide)
  | escapePlain _ =>
    cases ht with
    | blank hc => exact absurd hc (by decide)

theorem Barren.not_opens {t : Text} (h : Barren t) (kind : Kind) : ¬ kind.Opens t := by
  intro ho
  cases h with
  | nil => exact ho.ne_nil rfl
  | close =>
    cases ho with
    | atom hs => exact not_startsConstituent_of_reserved (by decide) (by decide) _ hs
    | quote hc => exact absurd hc (by decide)
  | escape =>
    cases ho with
    | atom hs =>
      cases hs with
      | plain hc _ => exact hc rfl
    | quote hc => exact absurd hc (by decide)
  | escapePlain hr =>
    cases ho with
    | atom hs =>
      cases hs with
      | plain hc _ => exact hc rfl
      | escaped hr' => exact absurd (hr.symm.trans hr') (by decide)
    | quote hc => exact absurd hc (by decide)

theorem Barren.not_startsConstituent {t : Text} (h : Barren t) :
    ¬ StartsConstituent isReserved t :=
  fun hs => h.not_opens .atom (.atom hs)

end Notation

end LispReader
