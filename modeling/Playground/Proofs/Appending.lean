/-
# Programs one behind the other

A text that is empty or ends with a newline may have another text put behind it.  Then each of the
two is read as if it stood alone, but that the second one stands further down: the numbers of its
lines grow by the number of lines in front of it, and nothing else changes.

* `Text.countedLines_append` : the lines of both texts with their numbers.
* `Token.ofText_append` : the tokens of both texts.
* `Program.ofText_append` : the statements of both texts.
* `Program.ofText_append_exact` : both, with every token and statement in its place.
-/
import Playground.Proofs.Reading

namespace Playground

/-! ## Further down -/

/-- The span `count` lines further down. -/
def Span.below (count : Nat) (span : Span) : Span where
  startLine := span.startLine + UInt32.ofNat count
  startColumn := span.startColumn
  endLine := span.endLine + UInt32.ofNat count
  endColumn := span.endColumn

/-- The token `count` lines further down. -/
def Token.below (count : Nat) (token : Token) : Token := ⟨token.construct, token.span.below count⟩

/-- The assignment `count` lines further down. -/
def Assignment.below (count : Nat) (a : Assignment) : Assignment where
  name := a.name
  nameSpan := a.nameSpan.below count
  assigned := a.assigned
  span := a.span.below count

namespace Statement

/-- The statement `count` lines further down. -/
def below (count : Nat) : Statement → Statement
  | assignment a => assignment (a.below count)
  | print p => print ⟨p.argument, p.span.below count⟩

/-- The places of a statement and of its parts. -/
def spans : Statement → List Span
  | assignment a => [a.nameSpan, a.span]
  | print p => [p.span]

end Statement

/-- A span stays among the line numbers if it is moved down: neither of them wraps around. -/
structure Span.Fits (count : Nat) (span : Span) : Prop where
  /-- The line that the span starts on. -/
  start : (span.below count).startLine.toNat = span.startLine.toNat + count
  /-- The line that the span ends on. -/
  stop : (span.below count).endLine.toNat = span.endLine.toNat + count

/-- A span on a line fits further down if the number of the line does. -/
theorem Span.fits_of_line {count : Nat} {span : Span} {number : UInt32}
    (h : number.toNat + count < UInt32.size) (hstart : span.startLine = number)
    (hstop : span.endLine = number) : span.Fits count := by
  have hcount : (UInt32.ofNat count).toNat = count := UInt32.toNat_ofNat_of_lt' (by omega)
  have hsum : (number + UInt32.ofNat count).toNat = number.toNat + count := by
    rw [UInt32.toNat_add, hcount]
    exact Nat.mod_eq_of_lt h
  constructor
  · show (span.startLine + UInt32.ofNat count).toNat = _
    rw [hstart, hsum]
  · show (span.endLine + UInt32.ofNat count).toNat = _
    rw [hstop, hsum]

/-! ## Lines -/

/-- Lines under higher numbers. -/
theorem Text.map_zipIdx_add (lines : List Text) (first count : Nat) :
    ((lines.zipIdx (first + count)).map fun numbered => (UInt32.ofNat numbered.2, numbered.1))
      = ((lines.zipIdx first).map fun numbered => (UInt32.ofNat numbered.2, numbered.1)).map
          fun numbered => (numbered.1 + UInt32.ofNat count, numbered.2) := by
  induction lines generalizing first with
  | nil => rfl
  | cons line rest ih =>
    rw [List.zipIdx_cons, List.zipIdx_cons, List.map_cons, List.map_cons, List.map_cons,
      Nat.add_right_comm, ih, UInt32.ofNat_add]

/-- **The lines of both texts.**  Those of the second one have higher numbers. -/
theorem Text.countedLines_append {s : Text} (h : s = [] ∨ s.getLast? = some '\n') (t : Text) :
    (s ++ t).countedLines = s.countedLines
      ++ t.countedLines.map fun numbered => (numbered.1 + UInt32.ofNat s.lines.length, numbered.2) := by
  unfold countedLines
  rw [lines_append h, List.zipIdx_append, List.map_append, map_zipIdx_add]

/-! ## Tokens -/

namespace Token

theorem ofCalls_below (d : Dialect) (number : UInt32) (count before : Nat) (calls : List Call) :
    ofCalls d (number + UInt32.ofNat count) before calls
      = (ofCalls d number before calls).map (below count) := by
  induction calls generalizing before with
  | nil => rfl
  | cons call calls ih =>
    rw [ofCalls_cons, ofCalls_cons, List.map_cons, ih]
    rfl

/-- The tokens of a line under a higher number stand further down. -/
theorem ofLine_below (d : Dialect) (number : UInt32) (count : Nat) (line : Text) :
    ofLine d (number + UInt32.ofNat count) line = (ofLine d number line).map (below count) := by
  unfold ofLine ofAssignment?
  rw [List.map_append, ofCalls_below]
  cases AssignmentLine.read? d line <;> rfl

/-- The mark behind the last line stands further down if more lines stand in front. -/
theorem atEnd_below (count more : Nat) : (atEnd count).below more = atEnd (more + count) := by
  have hline : UInt32.ofNat (more + count + 1) = UInt32.ofNat (count + 1) + UInt32.ofNat more := by
    rw [← UInt32.ofNat_add, Nat.add_right_comm, Nat.add_comm]
    congr 1
    omega
  unfold atEnd
  rw [hline]
  rfl

/-- **The tokens of both texts.**  The mark at the end of the first one is dropped. -/
theorem ofText_append (d : Dialect) {s : Text} (h : s = [] ∨ s.getLast? = some '\n') (t : Text) :
    ofText d (s ++ t) = (ofText d s).dropLast ++ (ofText d t).map (below s.lines.length) := by
  rw [dropLast_ofText]
  unfold ofText
  rw [Text.countedLines_append h, Text.lines_append h, List.flatMap_append, List.map_append,
    List.flatMap_map, List.map_flatMap, List.length_append, List.map_singleton, atEnd_below,
    List.append_assoc]
  simp only [ofLine_below]

/-- The tokens of a text fit behind another one if there are numbers for all lines. -/
theorem fits_of_mem_ofText {d : Dialect} {t : Text} {count : Nat} {token : Token}
    (hcount : count + t.lines.length + 1 < UInt32.size) (h : token ∈ ofText d t) :
    token.span.Fits count := by
  unfold ofText at h
  rcases List.mem_append.1 h with hlines | hend
  · obtain ⟨⟨number, line⟩, hline, hmem⟩ := List.mem_flatMap.1 hlines
    obtain ⟨hstart, hstop⟩ := line_of_mem_ofLine hmem
    have hnumber := Text.toNat_le_of_mem_countedLines (by omega) hline
    have hfits : number.toNat + count < UInt32.size := by omega
    exact Span.fits_of_line hfits hstart hstop
  · obtain rfl := List.mem_singleton.1 hend
    have hnumber : (UInt32.ofNat (t.lines.length + 1)).toNat = t.lines.length + 1 :=
      UInt32.toNat_ofNat_of_lt' (by omega)
    refine Span.fits_of_line ?_ rfl rfl
    show (UInt32.ofNat (t.lines.length + 1)).toNat + count < UInt32.size
    omega

end Token

/-! ## Statements -/

namespace Statement

/-- The statement of a token that stands further down stands there as well. -/
theorem ofToken?_below (d : Dialect) (count : Nat) (token : Token) :
    ofToken? d (token.below count) = (ofToken? d token).map (below count) := by
  unfold ofToken? Token.below
  cases token.construct <;> rfl

/-- The statements of a line under a higher number stand further down. -/
theorem ofLine_below (d : Dialect) (number : UInt32) (count : Nat) (line : Text) :
    ofLine d (number + UInt32.ofNat count) line = (ofLine d number line).map (below count) := by
  unfold ofLine
  rw [Token.ofLine_below, List.filterMap_map, List.map_filterMap]
  congr 1
  funext token
  exact ofToken?_below d count token

/-- The places of a statement and of its parts are on the line of its token. -/
theorem line_of_mem_spans {d : Dialect} {token : Token} {s : Statement} {span : Span}
    (h : ofToken? d token = some s) (hspan : span ∈ s.spans)
    (hline : token.span.endLine = token.span.startLine) :
    span.startLine = token.span.startLine ∧ span.endLine = token.span.startLine := by
  unfold ofToken? at h
  split at h
  · obtain rfl := Option.some.inj h
    rcases List.mem_cons.1 hspan with rfl | hmem
    · exact ⟨rfl, rfl⟩
    · obtain rfl := List.mem_singleton.1 hmem
      exact ⟨rfl, hline⟩
  · obtain rfl := Option.some.inj h
    obtain rfl := List.mem_singleton.1 hspan
    exact ⟨rfl, hline⟩
  · exact nomatch h

end Statement

/-! ## Programs -/

namespace Program

/-- **The statements of both texts.** -/
theorem ofText_append (d : Dialect) {s : Text} (h : s = [] ∨ s.getLast? = some '\n') (t : Text) :
    ofText d (s ++ t) = ⟨d, (ofText d s).statements
      ++ (ofText d t).statements.map (Statement.below s.lines.length)⟩ := by
  have hstatements : (ofText d (s ++ t)).statements = (ofText d s).statements
      ++ (ofText d t).statements.map (Statement.below s.lines.length) := by
    rw [statements_ofText, statements_ofText, statements_ofText, Text.countedLines_append h,
      List.flatMap_append, List.flatMap_map, List.map_flatMap]
    simp only [Statement.ofLine_below]
  rw [← hstatements]
  rfl

/-- The statements of a text fit behind another one if there are numbers for all lines. -/
theorem fits_of_mem_statements {d : Dialect} {t : Text} {count : Nat} {st : Statement} {span : Span}
    (hcount : count + t.lines.length + 1 < UInt32.size) (h : st ∈ (ofText d t).statements)
    (hspan : span ∈ st.spans) : span.Fits count := by
  rw [statements_ofText, List.mem_flatMap] at h
  obtain ⟨⟨number, line⟩, hline, hst⟩ := h
  obtain ⟨token, htoken, hofToken⟩ := List.mem_filterMap.1 hst
  obtain ⟨hstart, hstop⟩ := Token.line_of_mem_ofLine htoken
  have hnumber := Text.toNat_le_of_mem_countedLines (by omega) hline
  obtain ⟨hspanStart, hspanStop⟩ :=
    Statement.line_of_mem_spans hofToken hspan (hstop.trans hstart.symm)
  have hfits : number.toNat + count < UInt32.size := by omega
  exact Span.fits_of_line hfits (hspanStart.trans hstart) (hspanStop.trans hstart)

/-- **Programs one behind the other.**  Behind a text that is empty or ends with a newline another
text is read as if it stood alone, but further down.  The tokens are those of the first text
without the mark at its end, which is the last of them, and then those of the second one with the
mark.  The statements are those of the first text and then those of the second one, and in any text
every token but the last stands for one statement, in the same order.  No number of a line wraps
around, as long as there are numbers for all lines and the mark. -/
theorem ofText_append_exact (d : Dialect) {s t : Text} (h : s = [] ∨ s.getLast? = some '\n')
    (hcount : (s ++ t).lines.length + 1 < UInt32.size) :
    ((Token.ofText d s).getLast? = some (Token.atEnd s.lines.length)
      ∧ Token.ofText d (s ++ t)
        = (Token.ofText d s).dropLast ++ (Token.ofText d t).map (Token.below s.lines.length))
    ∧ ofText d (s ++ t) = ⟨d, (ofText d s).statements
        ++ (ofText d t).statements.map (Statement.below s.lines.length)⟩
    ∧ (∀ u, (Token.ofText d u).dropLast.map (Statement.ofToken? d)
        = (ofText d u).statements.map some)
    ∧ (∀ token ∈ Token.ofText d t, token.span.Fits s.lines.length)
    ∧ ∀ st ∈ (ofText d t).statements, ∀ span ∈ st.spans, span.Fits s.lines.length := by
  have hsum : s.lines.length + t.lines.length + 1 < UInt32.size := by
    rwa [Text.lines_append h, List.length_append] at hcount
  refine ⟨⟨?_, Token.ofText_append d h t⟩, ofText_append d h t, map_ofToken? d, ?_, ?_⟩
  · unfold Token.ofText
    rw [List.getLast?_concat]
  · exact fun token htoken => Token.fits_of_mem_ofText hsum htoken
  · exact fun st hst span hspan => fits_of_mem_statements hsum hst hspan

/-- A text with an empty line and a carriage return before its last newline, and behind it one that
begins with a newline and has two tokens on its last line. -/
theorem ofText_append_seam :
    let s := "x = 'a'\n\nprint(x)\r\n".toList
    let t := "\ny = print(1)".toList
    (Token.ofText .python (s ++ t)).map Token.span
      = [Span.ofColumns 1 1 7, Span.ofColumns 3 1 8, Span.ofColumns 5 1 12, Span.ofColumns 5 5 12,
        Span.ofPlace 6 1]
    ∧ (s = [] ∨ s.getLast? = some '\n') ∧ (Text.lines (s ++ t)).length + 1 < UInt32.size
    ∧ Token.ofText .python (s ++ t)
      = (Token.ofText .python s).dropLast ++ (Token.ofText .python t).map (Token.below 3)
    ∧ ofText .python (s ++ t) = ⟨.python, (ofText .python s).statements
        ++ (ofText .python t).statements.map (Statement.below 3)⟩ := by
  intro s t
  have hclosed : s = [] ∨ s.getLast? = some '\n' := Or.inr (by decide)
  have hcount : (Text.lines (s ++ t)).length + 1 < UInt32.size := by decide
  obtain ⟨⟨-, htokens⟩, hprogram, -⟩ := ofText_append_exact .python hclosed hcount
  exact ⟨by decide +kernel, hclosed, hcount, htokens, hprogram⟩

end Program

end Playground
