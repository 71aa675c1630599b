/-
# A program is its lines

Some rules of a dialect are checked on the text of a program as a whole and not on its lines: whether
it is blank, and whether it holds one of a few words.  No such word holds a line end, so that it is a
part of the text just if it is a part of a line, and a carriage return in front of a newline is a
space.  So texts of the same lines are the same program, and how their lines end does not matter.

* `SameProgram.of_lines` : texts of the same lines are read, checked, run and shown alike.
* `Text.lines_withReturns` : carriage returns in front of all newlines change no line.
* `Text.lines_concat_newline` : nor does a newline at the end of the last line.
* `sameProgram_lineEnds` : the line ends of a program do not matter.
-/
import Playground.Pane
import Playground.Proofs.Text.LineEnds

namespace Playground

/-! ## What depends on the lines -/

namespace Text

/-- A word stands on a line: it holds something and no line end. -/
def StandsOnLine (key : Text) : Prop := key ≠ [] ∧ '\n' ∉ key ∧ '\r' ∉ key

instance (key : Text) : Decidable key.StandsOnLine := inferInstanceAs (Decidable (_ ∧ _ ∧ _))

variable {s t : Text}

theorem includes_congr (h : s.lines = t.lines) (key : Text) (hkey : key.StandsOnLine) :
    s.includes key = t.includes key := by
  obtain ⟨hne, hnewline, hreturn⟩ := hkey
  rw [Bool.eq_iff_iff, includes_iff, includes_iff, infix_iff_exists_line hne hnewline hreturn,
    infix_iff_exists_line hne hnewline hreturn, h]

theorem contains_congr (h : s.lines = t.lines) {c : Char} (hc : Text.StandsOnLine [c]) :
    s.contains c = t.contains c := by
  obtain ⟨hne, hnewline, hreturn⟩ := hc
  rw [Bool.eq_iff_iff, List.contains_iff_mem, List.contains_iff_mem, ← List.singleton_infix_iff,
    ← List.singleton_infix_iff, infix_iff_exists_line hne hnewline hreturn,
    infix_iff_exists_line hne hnewline hreturn, h]

theorem isBlank_congr (h : s.lines = t.lines) : s.isBlank = t.isBlank := by
  rw [Bool.eq_iff_iff, isBlank_iff_forall_line, isBlank_iff_forall_line, h]

theorem countedLines_congr (h : s.lines = t.lines) : s.countedLines = t.countedLines := by
  unfold countedLines
  rw [h]

end Text

section SameLines

variable {s t : Text} (h : s.lines = t.lines)

include h

theorem Token.ofText_congr (d : Dialect) : ofText d s = ofText d t := by
  unfold ofText
  rw [Text.countedLines_congr h, h]

theorem Program.ofText_congr (d : Dialect) : ofText d s = ofText d t := by
  unfold ofText
  rw [Token.ofText_congr h]

theorem danglingAssignment?_congr : danglingAssignment? s = danglingAssignment? t := by
  unfold danglingAssignment?
  rw [Text.countedLines_congr h, h]

theorem pythonFailure?_congr : pythonFailure? s = pythonFailure? t := by
  unfold pythonFailure?
  rw [Text.includes_congr h "print(".toList (by decide), Text.contains_congr h (by decide),
    danglingAssignment?_congr h]

theorem importsStrings_congr : importsStrings s = importsStrings t := by
  unfold importsStrings
  rw [Text.includes_congr h _ (by decide), h]

theorem goFailure?_congr : goFailure? s = goFailure? t := by
  unfold goFailure?
  rw [Text.includes_congr h "package main".toList (by decide),
    Text.includes_congr h "import".toList (by decide),
    Text.includes_congr h "fmt.Println(".toList (by decide),
    Text.includes_congr h "strings.Repeat".toList (by decide), importsStrings_congr h]

/-- The first rule that a program breaks is a matter of its lines. -/
theorem validityFailure?_congr (d : Dialect) : validityFailure? d s = validityFailure? d t := by
  unfold validityFailure?
  rw [Text.isBlank_congr h, pythonFailure?_congr h, goFailure?_congr h]

/-- So is the outcome of a run. -/
theorem run_congr (settings : Settings) (d : Dialect) : run settings d s = run settings d t := by
  unfold run
  rw [validityFailure?_congr h, Program.ofText_congr h]

/-- The button refuses a program by its lines. -/
theorem Pane.refusal?_congr (d : Dialect) : refusal? d s = refusal? d t := by
  unfold refusal?
  rw [Text.isBlank_congr h, Text.includes_congr h "print(".toList (by decide),
    Text.includes_congr h "package main".toList (by decide)]

theorem Pane.ofPress_congr (settings : Settings) (d : Dialect) :
    ofPress settings d s = ofPress settings d t := by
  unfold ofPress Report.ofRun
  rw [refusal?_congr h, run_congr h]

end SameLines

/-- Two texts are the same program: they are read, checked, run and shown alike. -/
structure SameProgram (s t : Text) : Prop where
  /-- The same lines under the same numbers. -/
  countedLines : s.countedLines = t.countedLines
  /-- The same tokens in the same places. -/
  tokens : ∀ d, Token.ofText d s = Token.ofText d t
  /-- The same statements in the same places. -/
  program : ∀ d, Program.ofText d s = Program.ofText d t
  /-- The same transcript or the same fault, valid or not. -/
  evaluated : ∀ d limit, (Program.ofText d s).evaluate limit = (Program.ofText d t).evaluate limit
  /-- The same broken rule, with the same line if it names one. -/
  validity : ∀ d, validityFailure? d s = validityFailure? d t
  /-- The same outcome. -/
  outcome : ∀ settings d, run settings d s = run settings d t
  /-- The same pane after the button was pressed. -/
  pane : ∀ settings d, Pane.ofPress settings d s = Pane.ofPress settings d t

/-- **Texts of the same lines** are the same program. -/
theorem SameProgram.of_lines {s t : Text} (h : s.lines = t.lines) : SameProgram s t where
  countedLines := Text.countedLines_congr h
  tokens := Token.ofText_congr h
  program := Program.ofText_congr h
  evaluated := fun d limit => by rw [Program.ofText_congr h d]
  validity := validityFailure?_congr h
  outcome := run_congr h
  pane := Pane.ofPress_congr h

/-! ## Line ends -/

namespace Text

/-- The text with a carriage return in front of every newline. -/
def withReturns (s : Text) : Text := s.flatMap fun c => if c = '\n' then ['\r', '\n'] else [c]

theorem withReturns_of_not_mem {s : Text} (h : '\n' ∉ s) : s.withReturns = s := by
  induction s with
  | nil => rfl
  | cons c s ih =>
    rw [List.mem_cons, not_or] at h
    unfold withReturns at ih ⊢
    rw [List.flatMap_cons, if_neg (Ne.symm h.1), ih h.2, List.singleton_append]

theorem withReturns_append_newline {line : Text} (h : '\n' ∉ line) (s : Text) :
    withReturns (line ++ '\n' :: s) = (line ++ ['\r']) ++ '\n' :: s.withReturns := by
  have hline := withReturns_of_not_mem h
  unfold withReturns at hline ⊢
  rw [List.flatMap_append, hline, List.flatMap_cons, if_pos rfl, List.append_assoc]
  rfl

/-- **Carriage returns in front of all newlines** change no line, if none was there before. -/
theorem lines_withReturns {s : Text} (h : ¬ ['\r', '\n'] <:+: s) :
    lines s.withReturns = lines s := by
  induction s using inductionOnLines with
  | single s hs => rw [withReturns_of_not_mem hs]
  | more line s hline ih =>
    have hrest : ¬ ['\r', '\n'] <:+: s := by
      intro hpart
      exact h (hpart.trans ⟨line ++ ['\n'], [], by simp⟩)
    have hreturn : line.getLast? ≠ some '\r' := by
      intro hlast
      obtain ⟨front, rfl⟩ := List.getLast?_eq_some_iff.1 hlast
      exact h ⟨front, s, by simp⟩
    have hline' : '\n' ∉ line ++ ['\r'] := by simp [hline]
    rw [withReturns_append_newline hline, lines_append_newline hline', ih hrest,
      withoutReturn_concat_return, lines_append_newline hline, withoutReturn_eq_self hreturn]

/-- **A newline at the end of the last line** changes no line, if the line is not closed and a
carriage return does not become a part of its end. -/
theorem lines_concat_newline {s : Text} (hne : s ≠ []) (hnewline : s.getLast? ≠ some '\n')
    (hreturn : s.getLast? ≠ some '\r') : lines (s ++ ['\n']) = lines s := by
  induction s using inductionOnLines with
  | single s hs =>
    rw [lines_append_newline hs, lines_of_not_mem hs, if_neg hne, withoutReturn_eq_self hreturn]
    rfl
  | more line s hline ih =>
    have hlast : ∀ c, s.getLast? = some c → (line ++ '\n' :: s).getLast? = some c := by
      intro c hc
      obtain ⟨front, rfl⟩ := List.getLast?_eq_some_iff.1 hc
      exact List.getLast?_eq_some_iff.2 ⟨line ++ '\n' :: front, by simp⟩
    -- Behind the newline something is left, since the text does not end with it.
    have hrest : s ≠ [] := by
      rintro rfl
      exact hnewline (List.getLast?_concat)
    rw [List.append_assoc, List.cons_append, lines_append_newline hline,
      lines_append_newline hline,
      ih hrest (fun hc => hnewline (hlast _ hc)) (fun hc => hreturn (hlast _ hc))]

end Text

/-- **Line ends do not matter.**  A program in which no carriage return stands in front of a newline
is the same with one in front of every newline, and a program whose last line is not closed, and
does not end with a carriage return, is the same with a newline at its end: it has the same lines,
tokens and statements, breaks the same rule, comes to the same outcome and is shown alike. -/
theorem sameProgram_lineEnds (s : Text) :
    (¬ ['\r', '\n'] <:+: s → SameProgram s s.withReturns)
    ∧ (s ≠ [] → s.getLast? ≠ some '\n' → s.getLast? ≠ some '\r' → SameProgram s (s ++ ['\n'])) := by
  refine ⟨fun h => ?_, fun hne hnewline hreturn => ?_⟩
  · exact SameProgram.of_lines (Text.lines_withReturns h).symm
  · exact SameProgram.of_lines (Text.lines_concat_newline hne hnewline hreturn).symm

/-- A program with a bare carriage return, an empty line and a last line that assigns nothing but
spaces, on which its failure depends: it is refused for this line however its lines end. -/
theorem sameProgram_danglingReturn :
    let s := "print(\r1)\n\nx = \t".toList
    let t := "print(\r1)\r\n\r\nx = \t".toList
    validityFailure? .python t = some (.emptyAssignment "x = \t".toList)
      ∧ ¬ ['\r', '\n'] <:+: s ∧ SameProgram s t
      ∧ s.getLast? ≠ some '\n' ∧ s.getLast? ≠ some '\r' ∧ SameProgram s (s ++ ['\n']) := by
  intro s t
  have hs : ¬ ['\r', '\n'] <:+: s := by decide
  have hne : s ≠ [] := by decide
  have hnewline : s.getLast? ≠ some '\n' := by decide
  have hreturn : s.getLast? ≠ some '\r' := by decide
  obtain ⟨hreturns, hclosed⟩ := sameProgram_lineEnds s
  exact ⟨by decide, hs, hreturns hs, hnewline, hreturn, hclosed hne hnewline hreturn⟩

end Playground
