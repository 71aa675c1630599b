/-
# The common core of the dialects

Some statements can be written in either dialect: an assignment, a print of a single operand and a
print of a text that is repeated.  Each is one line, which the dialects write differently, and it
stands for one statement of a program, up to the place where it stands.

* `CoreStatement.text` : a list of such statements, written in a dialect.
* `CoreStatement.exists_lines` : the lines of that text are the statements again, where a value may
  have lost a carriage return behind it.
-/
import Playground.Proofs.Reading

namespace Playground

/-! ## Statements of the common core -/

/-- A statement that either dialect can write. -/
inductive CoreStatement
  /-- Assigns a value to a name. -/
  | assignment (name value : Text)
  /-- Prints a single operand. -/
  | print (argument : Text)
  /-- Prints a text as often as the digits of a count say. -/
  | repetition (text count : Text)
  deriving DecidableEq

namespace CoreStatement

/-- The argument of a print that repeats a text. -/
def repeated (text count : Text) : Dialect → Text
  | .python => '"' :: text ++ "\" * ".toList ++ count
  | .go => "strings.Repeat(\"".toList ++ text ++ "\", ".toList ++ count ++ [')']

theorem repeated_python (text count : Text) :
    repeated text count .python = '"' :: text ++ "\" * ".toList ++ count := rfl

theorem repeated_go (text count : Text) : repeated text count .go
    = "strings.Repeat(\"".toList ++ text ++ "\", ".toList ++ count ++ [')'] := rfl

/-- The line that a statement is written on. -/
def line (d : Dialect) : CoreStatement → Text
  | assignment name value => name ++ ' ' :: d.operator ++ ' ' :: value
  | print argument => d.opener ++ argument ++ [')']
  | repetition text count => d.opener ++ repeated text count d ++ [')']

/-- The lines that a program begins with, before its statements. -/
def header : Dialect → List Text
  | .python => []
  | .go => ["package main".toList, "import \"fmt\"".toList, "import \"strings\"".toList]

/-- A program of statements, with or without a newline behind the last one. -/
def text (d : Dialect) (closed : Bool) (statements : List CoreStatement) : Text :=
  Text.joined closed (header d ++ statements.map (line d))

/-- Whether a statement prints. -/
def prints : CoreStatement → Bool
  | assignment _ _ => false
  | print _ => true
  | repetition _ _ => true

/-- The statement of a program that is meant, at no place. -/
def meant : CoreStatement → Statement
  | assignment name value =>
    .assignment ⟨name, Span.ofPlace 0 0, Assigned.ofText value.trim, Span.ofPlace 0 0⟩
  | print argument => .print ⟨.operand (Operand.ofText argument.trim), Span.ofPlace 0 0⟩
  | repetition text count => .print ⟨.repetition ⟨text, count⟩, Span.ofPlace 0 0⟩

/-- Whether the texts of a statement can be written in either dialect without being taken for
something else. -/
inductive Valid : CoreStatement → Prop
  /-- A value is not blank, and no print call opens in it. -/
  | assignment {name value : Text} (hname : AssignmentLine.IsName name)
      (hblank : value.isBlank = false) (hnewline : '\n' ∉ value)
      (hopener : ∀ d : Dialect, ¬ d.opener <:+: value) : Valid (assignment name value)
  /-- An operand closes no print call and repeats nothing. -/
  | print {argument : Text} (hnewline : '\n' ∉ argument) (hclose : ')' ∉ argument)
      (hstar : '*' ∉ argument) (hrepeat : ¬ Argument.repeatName <:+: argument) :
      Valid (print argument)
  /-- A repeated text ends no quotes and no print call, and a count has digits only. -/
  | repetition {text count : Text} (hne : text ≠ []) (hnewline : '\n' ∉ text) (hquote : '"' ∉ text)
      (hclose : ')' ∉ text) (hstar : '*' ∉ text) (hcount : Text.isDigits count = true) :
      Valid (repetition text count)

/-! ## The lines of a program -/

/-- The statement as it is read if a newline follows its line. -/
def ended : CoreStatement → CoreStatement
  | assignment name value => assignment name (Text.withoutReturn value)
  | statement => statement

/-- Losing a carriage return leaves a statement valid. -/
theorem Valid.ended {st : CoreStatement} (h : Valid st) : Valid st.ended := by
  cases h with
  | @assignment name value hname hblank hnewline hopener =>
    have hstart := Text.withoutReturn_prefix value
    refine .assignment hname ?_ ?_ ?_
    · rw [Text.isBlank_withoutReturn, hblank]
    · exact fun hmem => hnewline (hstart.subset hmem)
    · exact fun d hpart => hopener d (hpart.trans hstart.isInfix)
  | print hnewline hclose hstar hrepeat => exact .print hnewline hclose hstar hrepeat
  | repetition hne hnewline hquote hclose hstar hcount =>
    exact .repetition hne hnewline hquote hclose hstar hcount

theorem meant_ended (st : CoreStatement) : st.ended.meant = st.meant := by
  cases st with
  | assignment name value =>
    show Statement.assignment ⟨name, _, Assigned.ofText (Text.withoutReturn value).trim, _⟩ = _
    rw [Text.trim_withoutReturn]
    rfl
  | print argument => rfl
  | repetition text count => rfl

/-- The line of a statement loses a carriage return just if its value does. -/
theorem withoutReturn_line (d : Dialect) {st : CoreStatement} (h : Valid st) :
    Text.withoutReturn (st.line d) = st.ended.line d := by
  cases h with
  | @assignment name value hname hblank hnewline hopener =>
    have hsplit : ∀ v : Text, (CoreStatement.assignment name v).line d
        = (name ++ ' ' :: d.operator ++ [' ']) ++ v := fun v => by
      unfold line
      simp only [List.append_assoc, List.singleton_append]
    rw [hsplit, Text.withoutReturn_append (Text.ne_nil_of_isBlank hblank)]
    exact (hsplit _).symm
  | print hnewline hclose hstar hrepeat => exact Text.withoutReturn_concat (by decide)
  | repetition hne hnewline hquote hclose hstar hcount =>
    exact Text.withoutReturn_concat (by decide)

theorem newline_not_mem_opener (d : Dialect) : '\n' ∉ d.opener := by
  cases d <;> decide

/-- A statement takes up one line. -/
theorem newline_not_mem_line (d : Dialect) {st : CoreStatement} (h : Valid st) :
    '\n' ∉ st.line d := by
  have hopener := newline_not_mem_opener d
  cases h with
  | assignment hname hblank hnewline hopener =>
    have hname := hname.not_mem (c := '\n') (by decide)
    have hoperator : '\n' ∉ d.operator := by cases d <;> decide
    unfold line
    simp [hname, hoperator, hnewline]
  | print hnewline hclose hstar hrepeat =>
    unfold line
    simp [hopener, hnewline]
  | repetition hne hnewline hquote hclose hstar hcount =>
    have hcount := Text.not_mem_of_isDigits (c := '\n') hcount (by decide)
    unfold line repeated
    cases d <;> simp [hopener, hnewline, hcount]

theorem line_ne_nil (d : Dialect) (st : CoreStatement) : st.line d ≠ [] := by
  cases st <;> simp [line]

/-- The lines of a list of statements are the statements again, each as it was written or without
a carriage return behind its value. -/
theorem exists_lines_map (d : Dialect) (closed : Bool) {statements : List CoreStatement}
    (h : ∀ st ∈ statements, Valid st) :
    ∃ read : List CoreStatement,
      Text.lines (Text.joined closed (statements.map (line d))) = read.map (line d)
        ∧ (∀ st ∈ read, Valid st) ∧ read.map meant = statements.map meant := by
  induction statements with
  | nil => exact ⟨[], rfl, h, rfl⟩
  | cons st rest ih =>
    rw [List.forall_mem_cons] at h
    -- The first line is read by itself unless no newline follows it, and the others are read as
    -- they would be without it.
    obtain ⟨read, hlines, hvalid, hmeant⟩ := ih h.2
    have hnewline := newline_not_mem_line d h.1
    have hended : Text.withoutReturn (st.line d) = st.ended.line d := withoutReturn_line d h.1
    have hread : (st.ended :: read).map meant = (st :: rest).map meant := by
      rw [List.map_cons, List.map_cons, meant_ended, hmeant]
    have hvalid' : ∀ s ∈ st.ended :: read, Valid s := List.forall_mem_cons.2 ⟨h.1.ended, hvalid⟩
    by_cases hrest : rest = []
    · rw [hrest] at hlines hread ⊢
      cases closed with
      | true =>
        refine ⟨st.ended :: read, ?_, hvalid', hread⟩
        show Text.lines (st.line d ++ '\n' :: []) = _
        rw [Text.lines_append_newline hnewline, hended, List.map_cons, ← hlines]
        rfl
      | false =>
        -- Without a newline behind it the last line stays as it is.
        refine ⟨[st], ?_, fun s hs => List.mem_singleton.1 hs ▸ h.1, rfl⟩
        show Text.lines (st.line d) = _
        rw [Text.lines_of_not_mem hnewline, if_neg (line_ne_nil d st)]
        rfl
    · refine ⟨st.ended :: read, ?_, hvalid', hread⟩
      have hmap : rest.map (line d) ≠ [] := fun heq => hrest (List.map_eq_nil_iff.1 heq)
      rw [List.map_cons, Text.joined_cons closed _ hmap, Text.lines_append_newline hnewline, hended,
        hlines]
      rfl

/-- What a program begins with stays in front of its lines. -/
theorem lines_header (d : Dialect) (closed : Bool) {lines : List Text} (h : lines ≠ []) :
    Text.lines (Text.joined closed (header d ++ lines))
      = header d ++ Text.lines (Text.joined closed lines) := by
  have hheader : ∀ line ∈ header d, '\n' ∉ line ∧ Text.withoutReturn line = line := by
    cases d <;> decide
  exact Text.lines_joined_append closed hheader h

/-- **The lines of a program** are its header and its statements again, each as it was written or
without a carriage return behind its value. -/
theorem exists_lines (d : Dialect) (closed : Bool) {statements : List CoreStatement}
    (hne : statements ≠ []) (h : ∀ st ∈ statements, Valid st) :
    ∃ read : List CoreStatement,
      Text.lines (text d closed statements) = header d ++ read.map (line d)
      ∧ (∀ st ∈ read, Valid st) ∧ read.map meant = statements.map meant := by
  obtain ⟨read, hlines, hvalid, hmeant⟩ := exists_lines_map d closed h
  have hmap : statements.map (line d) ≠ [] := fun heq => hne (List.map_eq_nil_iff.1 heq)
  refine ⟨read, ?_, hvalid, hmeant⟩
  unfold text
  rw [lines_header d closed hmap, hlines]

end CoreStatement

end Playground
