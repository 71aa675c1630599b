/-
# The dialects agree on their common core

A program of the common core keeps the rules of its dialect, and is read in either dialect as
statements that do the same.  So a run of it comes to the outcome of the program that is meant, in
whichever dialect it is written.

* `CoreStatement.validityFailure?_text` : a program of the common core is valid.
* `CoreStatement.run_text` : a run of it comes to the outcome of the program that is meant.
-/
import Playground.Proofs.CommonCore.Scanning
import Playground.Proofs.GoValidity
import Playground.Proofs.OutputLimit
import Playground.Proofs.PythonValidity

namespace Playground

/-! ## Valid programs of the common core -/

namespace CoreStatement

/-- No statement assigns only spaces. -/
theorem not_assignsSpaces_line {st : CoreStatement} (h : Valid st) :
    ¬ AssignsSpaces (st.line .python) := by
  cases h with
  | @assignment name value hname hblank hnewline hopener =>
    have hline : (assignment name value).line .python = name ++ [' '] ++ '=' :: ' ' :: value := by
      rw [line, List.append_assoc, List.append_assoc]
      rfl
    have hvalue : Text.isBlank (' ' :: value) = false := hblank
    rw [hline]
    exact not_assignsSpaces hname rfl hvalue
  | print hnewline hclose hstar hrepeat => exact not_assignsSpaces_concat _ (by decide)
  | repetition hne hnewline hquote hclose hstar hcount =>
    exact not_assignsSpaces_concat _ (by decide)

/-- A statement that prints is written as a call. -/
theorem infix_text_of_prints (d : Dialect) (closed : Bool) {statements : List CoreStatement}
    {st : CoreStatement} (hmem : st ∈ statements) (hprints : st.prints = true) :
    d.opener <:+: text d closed statements ∧ ')' ∈ text d closed statements := by
  have hline : st.line d <:+: text d closed statements :=
    Text.infix_joined closed (List.mem_append_right _ (List.mem_map_of_mem hmem))
  have hcall : d.opener <:+: st.line d ∧ ')' ∈ st.line d := by
    cases st with
    | assignment name value => exact absurd hprints Bool.false_ne_true
    | print argument =>
      rw [line, List.append_assoc]
      exact ⟨(List.prefix_append _ _).isInfix, by simp⟩
    | repetition t count =>
      rw [line, List.append_assoc]
      exact ⟨(List.prefix_append _ _).isInfix, by simp⟩
  exact ⟨hcall.1.trans hline, hline.subset hcall.2⟩

/-- A Python program closes a call, and no line assigns only spaces. -/
theorem validityFailure?_text_python (closed : Bool) {statements : List CoreStatement}
    (hne : statements ≠ []) (h : ∀ st ∈ statements, Valid st)
    (hclose : ')' ∈ text .python closed statements) :
    validityFailure? .python (text .python closed statements) = none := by
  obtain ⟨read, hlines, hvalid, -⟩ := exists_lines .python closed hne h
  refine validityFailure?_python_eq_none hclose ?_
  rw [hlines]
  intro l hl
  obtain ⟨st, hst, rfl⟩ := List.mem_map.1 hl
  exact not_assignsSpaces_line (hvalid st hst)

/-- A Go program declares its package and imports what it may need. -/
theorem validityFailure?_text_go (closed : Bool) {statements : List CoreStatement}
    (hopener : Dialect.go.opener <:+: text .go closed statements) :
    validityFailure? .go (text .go closed statements) = none := by
  have hheader : ∀ l ∈ header .go, l <:+: text .go closed statements :=
    fun l hl => Text.infix_joined closed (List.mem_append_left _ hl)
  have hpackage := hheader "package main".toList (by decide)
  have hfmt := hheader "import \"fmt\"".toList (by decide)
  have hstrings := hheader "import \"strings\"".toList (by decide)
  have himport : "import".toList <:+: "import \"fmt\"".toList := by decide
  exact validityFailure?_go_eq_none hpackage (himport.trans hfmt) hopener (Or.inl hstrings)

/-- **A program of the common core is valid**, if it prints at all. -/
theorem validityFailure?_text (d : Dialect) (closed : Bool) {statements : List CoreStatement}
    (h : ∀ st ∈ statements, Valid st) (hprints : ∃ st ∈ statements, st.prints = true) :
    validityFailure? d (text d closed statements) = none := by
  obtain ⟨st, hmem, hst⟩ := hprints
  obtain ⟨hopener, hclose⟩ := infix_text_of_prints d closed hmem hst
  cases d with
  | python => exact validityFailure?_text_python closed (List.ne_nil_of_mem hmem) h hclose
  | go => exact validityFailure?_text_go closed hopener

/-! ## Running a program of the common core -/

/-- The program that statements of the common core mean, apart from any dialect. -/
def program (statements : List CoreStatement) : Program := ⟨.python, statements.map meant⟩

theorem startsName_of_mem_assignments {statements : List CoreStatement}
    (h : ∀ st ∈ statements, Valid st) :
    ∀ a ∈ (program statements).assignments, AssignmentLine.startsName a.name = true := by
  intro a ha
  obtain ⟨s, hs, hassignment⟩ := List.mem_filterMap.1 ha
  obtain ⟨st, hst, rfl⟩ := List.mem_map.1 hs
  have hvalid := h st hst
  cases hvalid with
  | assignment hname hblank hnewline hopener =>
    obtain rfl := Option.some.inj hassignment
    exact hname.starts
  | print hnewline hclose hstar hrepeat => exact absurd hassignment (Option.some_ne_none a).symm
  | repetition hne hnewline hquote hclose hstar hcount =>
    exact absurd hassignment (Option.some_ne_none a).symm

/-- **A run of a program of the common core** comes to the outcome of the program that is meant,
in whichever dialect it is written. -/
theorem run_text (settings : Settings) (d : Dialect) (closed : Bool)
    {statements : List CoreStatement} (h : ∀ st ∈ statements, Valid st)
    (hprints : ∃ st ∈ statements, st.prints = true) :
    run settings d (text d closed statements)
      = outcome settings ((program statements).evaluate settings.outputLimit) := by
  have hne : statements ≠ [] := by
    obtain ⟨st, hmem, -⟩ := hprints
    exact List.ne_nil_of_mem hmem
  unfold run
  rw [validityFailure?_text d closed h hprints]
  exact outcome_congr settings (alike_ofText d closed hne h) (startsName_of_mem_assignments h)

/-- What a run comes to that gets as far as an evaluation: no rule is broken then. -/
inductive OutcomeOf (settings : Settings) :
    Except Fault Transcript → Except Unformed (Except Failure Text) → Prop
  /-- The output is the outcome. -/
  | output {t : Transcript} {s : Text} (h : t.output? = .ok (some s)) :
      OutcomeOf settings (.ok t) (.ok (.ok s))
  /-- The message for no output is the outcome. -/
  | silent {t : Transcript} (h : t.output? = .ok none) :
      OutcomeOf settings (.ok t) (.ok (.ok settings.silentMessage))
  /-- The output cannot be formed. -/
  | unformed {t : Transcript} {reason : Unformed} (h : t.output? = .error reason) :
      OutcomeOf settings (.ok t) (.error reason)
  /-- A print has a fault. -/
  | fault (f : Fault) : OutcomeOf settings (.error f) (.ok (.error (.fault f.message)))

theorem outcomeOf_outcome (settings : Settings) (evaluation : Except Fault Transcript) :
    OutcomeOf settings evaluation (outcome settings evaluation) := by
  cases evaluation with
  | error f => exact .fault f
  | ok t =>
    show OutcomeOf settings (.ok t)
      (t.output?.map fun output => .ok (output.getD settings.silentMessage))
    rcases houtput : t.output? with reason | _ | s
    · exact .unformed houtput
    · exact .silent houtput
    · exact .output houtput

/-- **The dialects agree on their common core**: statements that both can write, at least one of
which prints, have the same outcome in either, with or without a newline at the end of the text.  It
is that of the program that is meant: its output, the message for none or the fault of a print.  There
is one as long as a text can be as large as the limit. -/
theorem run_python_eq_go (settings : Settings) (closed closed' : Bool)
    {statements : List CoreStatement} (h : ∀ st ∈ statements, Valid st)
    (hprints : ∃ st ∈ statements, st.prints = true) :
    run settings .python (text .python closed statements)
      = run settings .go (text .go closed' statements)
    ∧ OutcomeOf settings ((program statements).evaluate settings.outputLimit)
      (run settings .python (text .python closed statements))
    ∧ (settings.outputLimit.toNat ≤ Text.largestSize →
      ∃ result, run settings .python (text .python closed statements) = .ok result) := by
  have hpython := run_text settings .python closed h hprints
  have hgo := run_text settings .go closed' h hprints
  refine ⟨hpython.trans hgo.symm, ?_, fun hlimit => exists_run_eq_ok hlimit .python _⟩
  rw [hpython]
  exact outcomeOf_outcome settings _

/-- A value that begins as the other dialect assigns, and a repeated text that opens a
parenthesis. -/
theorem run_python_eq_go_greeting :
    let statements := [assignment "x".toList ":= 'a' ".toList, print " x ".toList,
      repetition "a (b".toList "02".toList]
    let python := run {} .python (text .python false statements)
    (∀ st ∈ statements, Valid st) ∧ (∃ st ∈ statements, st.prints = true)
      ∧ python = run {} .go (text .go true statements)
      ∧ OutcomeOf {} ((program statements).evaluate ({} : Settings).outputLimit) python
      ∧ ({} : Settings).outputLimit.toNat ≤ Text.largestSize ∧ (∃ result, python = .ok result)
      ∧ python = .ok (.ok "x\na (ba (b\n".toList) := by
  intro statements python
  have hvalid : ∀ st ∈ statements, Valid st := by
    refine List.forall_mem_cons.2 ⟨?_, List.forall_mem_cons.2 ⟨?_, List.forall_mem_singleton.2 ?_⟩⟩
    · exact .assignment ⟨by decide, List.all_eq_true.1 (by decide)⟩ (by decide) (by decide)
        (by rintro ⟨⟩ <;> decide)
    · exact .print (by decide) (by decide) (by decide) (by decide)
    · exact .repetition (by decide) (by decide) (by decide) (by decide) (by decide) (by decide)
  have hprints : ∃ st ∈ statements, st.prints = true :=
    ⟨print " x ".toList, List.mem_cons_of_mem _ List.mem_cons_self, rfl⟩
  have hlimit : ({} : Settings).outputLimit.toNat ≤ Text.largestSize := by decide
  obtain ⟨hsame, houtcome, hresult⟩ := run_python_eq_go {} false true hvalid hprints
  exact ⟨hvalid, hprints, hsame, houtcome, hlimit, hresult hlimit, by decide +kernel⟩

end CoreStatement

end Playground
