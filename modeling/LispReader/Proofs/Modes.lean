import LispReader.Command
import LispReader.Proofs.Formatting
import LispReader.Proofs.SelfDelimiting

/-!
# Two ways to show forms

The command reads everything before it shows anything, or shows each form as it is read.
An input that is accepted is shown with the same lines and the same count in both ways, and
so are outlines. Only the first way keeps a first form apart that begins like an
interpreter line: it puts a space in front, and what it shows can be read again. The other
way leaves the space out, and what it shows then begins with an interpreter line.
-/

namespace LispReader

open Alphabet Notation

namespace Command

/-! ## The line with the number of forms -/

theorem newline_notMem_decimal (n : Nat) : '\n' ∉ (toString n).toList := by
  rw [Nat.toString_eq_ofList_toDigits, String.toList_ofList]
  exact Text.newline_notMem_toDigits (by decide) (by decide) n

theorem countLine_eq (n : Nat) :
    countLine n =
      semicolon :: ("; count_toplevel = ".toList ++ (toString n).toList ++ ['\n']) := by
  have hline : countLine n = (";; count_toplevel = " ++ toString n ++ "\n").toList := rfl
  rw [hline, String.toList_append, String.toList_append]
  rfl

/-- The number of forms is shown as a comment. -/
theorem trivia_countLine (n : Nat) : Trivia (countLine n) [] := by
  rw [countLine_eq]
  refine .comment ?_ .nil
  rw [List.mem_append, not_or]
  exact ⟨by decide, newline_notMem_decimal n⟩

theorem not_prefix_append_countLine {t : Text} (h : ¬ shebang <+: t) (n : Nat) :
    ¬ shebang <+: t ++ countLine n := by
  rw [countLine_eq]
  intro hp
  rcases shebang_prefix_append hp with hp | ⟨-, hp⟩ | ⟨-, u, hu⟩
  · exact h hp
  · exact absurd (List.cons_prefix_cons.mp hp).1 (by decide)
  · exact absurd (List.cons.inj hu).1 (by decide)

/-- Forms that were read are read again as they are written, with a count behind them. -/
theorem exists_read_writeAll_countLine {settings : Settings} {s : Text} {fs : List Form}
    (h : (Grammar.standard settings).read s = some (.ok fs)) (n : Nat) :
    ∃ gs, (Grammar.standard settings).read (Form.writeAll fs ++ countLine n) = some (.ok gs) ∧
      Form.sameContents fs gs = true := by
  have hg := Grammar.hasNotation_standard settings
  have hdocument := hg.document_of_read h
  obtain ⟨-, -, -, -, -, hdepth⟩ := id hdocument
  have hline := not_prefix_append_countLine (Form.not_shebang_prefix_writeAll fs) n
  obtain ⟨gs, hgs, hdata⟩ :=
    Form.exists_document_writeAll_append hdocument.filled hdepth (trivia_countLine n) hline
  exact ⟨gs, hg.read_of_document hgs, (Form.sameContents_iff fs gs).mpr hdata.symm⟩

/-! ## Forms that are shown as they are read -/

section Show

variable {r : Reading} {q : Request} {pos stop : Nat} {e e' : Expectation} {fs : List Form}

/-- Forms that steps read are shown one below the other. -/
theorem showAll_of_reads (q : Request) (h : r.Reads pos e fs stop e') (rounds count : Nat)
    (shown : List Text) :
    showAll q (rounds + fs.length) ⟨r, .next pos e⟩ count shown =
      showAll q rounds ⟨r, .next stop e'⟩ (count + fs.length)
        ((fs.map (q.view r.source)).reverse ++ shown) := by
  induction h generalizing count shown with
  | nil => rfl
  | @cons pos next _ e e₁ _ f fs hstep _ ih =>
    have hnext : (FormStream.mk r (.next pos e)).next =
        some (some (.ok f), ⟨r, .next next e₁⟩) := by
      simp only [FormStream.next, FormStream.nextAt, hstep]
    rw [List.length_cons, ← Nat.add_assoc, showAll, hnext]
    simp only [ih]
    simp [Nat.add_assoc, Nat.add_comm 1]

/-- Behind the last form its number is shown. -/
theorem showAll_of_finished (q : Request) (h : r.step pos e = some .finished)
    (rounds count : Nat) (shown : List Text) :
    showAll q (rounds + 1) ⟨r, .next pos e⟩ count shown =
      some ⟨0, shown.reverse.flatten ++ countLine count, []⟩ := by
  simp only [showAll, FormStream.next, FormStream.nextAt, h]

/-- A run over a whole source shows all forms and how many they are. -/
theorem showAll_of_start (q : Request) (hstart : r.start = some (.ok pos))
    (h : r.Reads pos Expectation.none fs stop e) (hstep : r.step stop e = some .finished)
    {rounds : Nat} (hrounds : fs.length < rounds) :
    showAll q rounds ⟨r, .fresh⟩ 0 [] =
      some ⟨0, fs.flatMap (q.view r.source) ++ countLine fs.length, []⟩ := by
  obtain ⟨n, rfl⟩ : ∃ n, rounds = n + 1 + fs.length := ⟨rounds - fs.length - 1, by omega⟩
  have hfresh : showAll q (n + 1 + fs.length) ⟨r, .fresh⟩ 0 [] =
      showAll q (n + 1 + fs.length) ⟨r, .next pos Expectation.none⟩ 0 [] := by
    rw [Nat.add_right_comm, showAll, showAll, FormStream.next_fresh hstart]
  rw [hfresh, showAll_of_reads q h, showAll_of_finished q hstep]
  simp [List.flatMap_def]

end Show

/-! ## Accepted inputs -/

variable {q : Request} {input : ByteStream} {t : Text} {fs : List Form}

/-- Everything is shown behind a reading of everything. -/
theorem run_eager (hdecode : Utf8.decode input = .ok t)
    (hread : (Grammar.standard .standard).read t = some (.ok fs))
    (hlazy : q.isLazy = false) (hsettings : q.settings = .standard) :
    q.run (.ok input) =
      some ⟨0, (if q.print then Form.writeAll fs else []) ++
        (if q.outline then Form.outlines fs (.ofText t) else []) ++ countLine fs.length, []⟩ := by
  simp [Request.run, runEager, Grammar.load, hlazy, hsettings, hdecode, hread]

/-- Each form is shown by itself, in the order of the forms. -/
theorem run_lazy (hdecode : Utf8.decode input = .ok t)
    (hread : (Grammar.standard q.settings).read t = some (.ok fs)) (hlazy : q.isLazy = true) :
    q.run (.ok input) =
      some ⟨0, fs.flatMap (q.view (.ofText t)) ++ countLine fs.length, []⟩ := by
  have hg := Grammar.hasNotation_standard q.settings
  have hr := hg.readsNotation t
  have hs : t = t ++ [] := (List.append_nil t).symm
  obtain ⟨pos, e, -, hstart, hreads, hfuel⟩ :=
    hr.exists_reads hs (front_nil_iff.mpr (hg.document_of_read hread)) nofun
  have hend := hr.step_of_end (e := e) (Source.suffix?_eq_some_iff.mpr ⟨t, hs, rfl⟩)
  have hrun : q.run (.ok input) =
      showAll q ((Grammar.standard q.settings).reading t).fuel
        ((Grammar.standard q.settings).stream t) 0 [] := by
    simp only [Request.run, runLazy, hlazy, hdecode]
    rfl
  exact hrun.trans (showAll_of_start q hstart hreads hend hfuel)

/-- An accepted input is shown alike in both ways, but for a space in front of a first form that
begins like an interpreter line. With the space, what is shown can be read again. Outlines are
the same. -/
theorem run_of_read (path : String) (input : ByteStream) (text : Text) (fs : List Form)
    (hdecode : Utf8.decode input = .ok text)
    (hread : (Grammar.standard .standard).read text = some (.ok fs)) :
    ∃ eager shown outlined : Text,
      Request.run { print := true, path := path } (.ok input) = some ⟨0, eager, []⟩ ∧
      Request.run { isLazy := true, print := true, path := path } (.ok input) =
        some ⟨0, shown, []⟩ ∧
      eager = (if Form.startsLikeShebang fs then ' ' :: shown else shown) ∧
      (∃ gs, (Grammar.standard .standard).read eager = some (.ok gs) ∧
        Form.sameContents fs gs = true) ∧
      Request.run { outline := true, path := path } (.ok input) = some ⟨0, outlined, []⟩ ∧
      Request.run { isLazy := true, outline := true, path := path } (.ok input) =
        some ⟨0, outlined, []⟩ := by
  refine ⟨Form.writeAll fs ++ countLine fs.length, Form.lines fs ++ countLine fs.length,
    Form.outlines fs (.ofText text) ++ countLine fs.length, ?_, ?_, ?_, ?_, ?_, ?_⟩
  · simpa using run_eager (q := { print := true, path := path }) hdecode hread rfl rfl
  · have hview : Request.view { isLazy := true, print := true, path := path } (.ofText text) =
        fun f => f.render ++ ['\n'] := by
      funext f
      simp [Request.view]
    simpa [hview, Form.lines] using
      run_lazy (q := { isLazy := true, print := true, path := path }) hdecode hread rfl
  · rw [Form.writeAll_eq]
    split <;> rfl
  · exact exists_read_writeAll_countLine hread fs.length
  · simpa using run_eager (q := { outline := true, path := path }) hdecode hread rfl rfl
  · exact run_lazy (q := { isLazy := true, outline := true, path := path }) hdecode hread rfl

/-- A string literal that comes in two chunks. -/
theorem run_of_read_string :
    ∃ eager shown outlined : Text,
      Request.run { print := true, path := "-" } (.ok ⟨[[0x22, 0xce], [0xbb, 0x22]], none⟩) =
        some ⟨0, eager, []⟩ ∧
      Request.run { isLazy := true, print := true, path := "-" }
        (.ok ⟨[[0x22, 0xce], [0xbb, 0x22]], none⟩) = some ⟨0, shown, []⟩ ∧
      eager = (if Form.startsLikeShebang [.string ['λ'] ⟨0, 4⟩] then ' ' :: shown else shown) ∧
      (∃ gs, (Grammar.standard .standard).read eager = some (.ok gs) ∧
        Form.sameContents [.string ['λ'] ⟨0, 4⟩] gs = true) ∧
      Request.run { outline := true, path := "-" } (.ok ⟨[[0x22, 0xce], [0xbb, 0x22]], none⟩) =
        some ⟨0, outlined, []⟩ ∧
      Request.run { isLazy := true, outline := true, path := "-" }
        (.ok ⟨[[0x22, 0xce], [0xbb, 0x22]], none⟩) = some ⟨0, outlined, []⟩ :=
  run_of_read "-" ⟨[[0x22, 0xce], [0xbb, 0x22]], none⟩ ['\x22', 'λ', '\x22'] _ rfl rfl

/-- A first atom that begins like an interpreter line is shown in two ways. It is lost when what
was shown without the space is read again. -/
theorem run_interpreter_atom :
    Utf8.decode ⟨[[0x20, 0x23, 0x21, 0x61]], none⟩ = .ok [' ', '#', '!', 'a'] ∧
    (Grammar.standard .standard).read [' ', '#', '!', 'a'] =
      some (.ok [.atom ['#', '!', 'a'] ⟨1, 4⟩]) ∧
    Request.run { print := true } (.ok ⟨[[0x20, 0x23, 0x21, 0x61]], none⟩) ≠
      Request.run { isLazy := true, print := true } (.ok ⟨[[0x20, 0x23, 0x21, 0x61]], none⟩) ∧
    ∃ shown : Text,
      Request.run { isLazy := true, print := true } (.ok ⟨[[0x20, 0x23, 0x21, 0x61]], none⟩) =
        some ⟨0, shown, []⟩ ∧
      (Grammar.standard .standard).read shown = some (.ok []) := by
  have heager : Request.run { print := true } (.ok ⟨[[0x20, 0x23, 0x21, 0x61]], none⟩) =
      some ⟨0, [' ', '#', '!', 'a', '\n'] ++ countLine 1, []⟩ :=
    run_eager (q := { print := true }) (t := [' ', '#', '!', 'a']) rfl rfl rfl rfl
  have hlazy : Request.run { isLazy := true, print := true }
      (.ok ⟨[[0x20, 0x23, 0x21, 0x61]], none⟩) =
      some ⟨0, ['#', '!', 'a', '\n'] ++ countLine 1, []⟩ :=
    run_lazy (q := { isLazy := true, print := true }) (t := [' ', '#', '!', 'a']) rfl rfl rfl
  refine ⟨rfl, rfl, ?_, _, hlazy, ?_⟩
  · rw [heager, hlazy]
    simp
  · -- The line of the atom is the interpreter line, and the count is a comment.
    exact (Grammar.hasNotation_standard .standard).read_of_document
      ⟨['#', '!', 'a', '\n'], countLine 1, rfl, .line (t := ['a']) rfl (by decide),
        .nil (trivia_countLine 1), Depth.admits_zero _⟩

end Command

end LispReader
