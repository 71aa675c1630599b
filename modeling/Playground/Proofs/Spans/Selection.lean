/-
# What spans select

A span is read against the text of a program: its lines and columns, counted from 1, select a part of
one line.  The span of a print call selects it from its opener to its closing parenthesis, the span of
an assignment selects what stands from its name to the end of its line, and the span of the name
selects the name.  Spans are computed in 32-bit words, which is exact as long as the numbers of lines
and columns fit.

* `Span.select?_ofPart` : the span of a part of a line selects that part.
* `Token.part_of_mem_calls` : the place of a call is that of the part of the line where it stands.
* `Token.selects_of_mem` : the span of a token selects what the token stands for.
* `Assignment.nameStands_of_mem` : the span of a name selects the name.
-/
import Playground.Proofs.Reading

namespace Playground

/-! ## Selecting -/

namespace Text

/-- The line under a number, counted from 1. -/
def line? (s : Text) (number : Nat) : Option Text :=
  if number = 0 then none else s.lines[number - 1]?

/-- The part of a line from one column to another one, counted from 1. -/
def columns? (line : Text) (first last : Nat) : Option Text :=
  if 0 < first ∧ first ≤ last ∧ last ≤ line.length then some ((line.take last).drop (first - 1))
  else none

/-- The columns behind `before` and in front of `after` are those of the part between them. -/
theorem columns?_append {t : Text} (before after : Text) (h : t ≠ []) :
    columns? (before ++ t ++ after) (before.length + 1) (before.length + t.length) = some t := by
  have hpos := List.length_pos_iff.2 h
  have hbounds : 0 < before.length + 1 ∧ before.length + 1 ≤ before.length + t.length
      ∧ before.length + t.length ≤ (before ++ t ++ after).length := by
    rw [List.length_append, List.length_append]
    omega
  unfold columns?
  rw [if_pos hbounds, List.take_left' (List.length_append), Nat.add_sub_cancel,
    List.drop_left' rfl]

/-- The line under its number, if there are numbers for all lines. -/
theorem line?_of_mem_countedLines {s line : Text} {number : UInt32}
    (hcount : s.lines.length + 1 < UInt32.size) (h : (number, line) ∈ s.countedLines) :
    s.line? number.toNat = some line := by
  obtain ⟨before, after, hlines, rfl⟩ := mem_countedLines_iff.1 h
  have hlength := congrArg List.length hlines
  rw [List.length_append, List.length_cons] at hlength
  rw [UInt32.toNat_ofNat_of_lt' (by omega)]
  unfold line?
  rw [if_neg (Nat.succ_ne_zero _), Nat.add_sub_cancel, hlines,
    List.getElem?_append_right (Nat.le_refl _), Nat.sub_self, List.getElem?_cons_zero]

end Text

namespace Span

/-- The text that a span selects, if it is a part of one line. -/
def select? (span : Span) (s : Text) : Option Text :=
  if span.startLine = span.endLine then
    (s.line? span.startLine.toNat).bind fun line =>
      line.columns? span.startColumn.toNat span.endColumn.toNat
  else none

/-- The span of `t` on a line, where it stands behind `before`. -/
def ofPart (number : UInt32) (before t : Text) : Span :=
  ofColumns number (columnAfter before.length) (UInt32.ofNat (before.length + t.length))

variable {number : UInt32} {before t : Text}

theorem toNat_startColumn_ofPart (h : before.length + 1 < UInt32.size) :
    (ofPart number before t).startColumn.toNat = before.length + 1 :=
  UInt32.toNat_ofNat_of_lt' h

theorem toNat_endColumn_ofPart (h : before.length + t.length < UInt32.size) :
    (ofPart number before t).endColumn.toNat = before.length + t.length :=
  UInt32.toNat_ofNat_of_lt' h

/-- **The span of a part of a line** selects that part. -/
theorem select?_ofPart {s line after : Text} (hline : s.line? number.toNat = some line)
    (hlong : line.length + 1 < UInt32.size) (hpart : line = before ++ t ++ after) (ht : t ≠ []) :
    (ofPart number before t).select? s = some t := by
  have hlength := congrArg List.length hpart
  rw [List.length_append, List.length_append] at hlength
  have hstart : (ofPart number before t).startColumn.toNat = before.length + 1 :=
    toNat_startColumn_ofPart (by omega)
  have hend : (ofPart number before t).endColumn.toNat = before.length + t.length :=
    toNat_endColumn_ofPart (by omega)
  have hstartLine : (ofPart number before t).startLine = number := rfl
  have hendLine : (ofPart number before t).endLine = number := rfl
  unfold select?
  rw [hstart, hend, hstartLine, hendLine, if_pos rfl, hline, Option.bind_some, hpart,
    Text.columns?_append before after ht]

end Span

/-! ## Tokens as parts of their lines -/

/-- A call from its opener to its closing parenthesis. -/
def Call.spelled (d : Dialect) (argument : Text) : Text := d.opener ++ argument ++ [')']

theorem Call.toText_eq (d : Dialect) (call : Call) :
    call.toText d = call.gap ++ Call.spelled d call.argument := by
  unfold Call.toText Call.spelled
  rw [List.append_assoc, List.append_assoc, List.append_assoc]

theorem Call.spelled_ne_nil (d : Dialect) (argument : Text) : Call.spelled d argument ≠ [] := by
  unfold Call.spelled
  simp

/-- An assignment from its name to the end of its line. -/
def AssignmentLine.spelled (d : Dialect) (a : AssignmentLine) : Text :=
  a.name ++ a.gap ++ d.operator ++ a.value

theorem AssignmentLine.toText_eq (d : Dialect) (a : AssignmentLine) :
    a.toText d = a.indent ++ a.spelled d := by
  unfold toText spelled
  simp only [List.append_assoc]

theorem AssignmentLine.spelled_ne_nil {d : Dialect} (a : AssignmentLine) (h : a.value ≠ []) :
    a.spelled d ≠ [] := by
  unfold spelled
  exact List.append_ne_nil_of_right_ne_nil _ h

namespace Token

/-- The place of an assignment is that of its spelling behind its indent. -/
theorem ofAssignment?_eq_some {d : Dialect} {number : UInt32} {line : Text} {token : Token}
    (h : ofAssignment? d number line = some token) :
    ∃ a, AssignmentLine.IsSplit d line a
      ∧ token = ⟨.assignment a.name a.value, Span.ofPart number a.indent (a.spelled d)⟩ := by
  obtain ⟨a, hread, rfl⟩ := Option.map_eq_some_iff.1 h
  have hsplit := AssignmentLine.read?_eq_some_iff.1 hread
  have hlength := congrArg List.length hsplit.whole
  rw [a.toText_eq, List.length_append] at hlength
  refine ⟨a, hsplit, ?_⟩
  unfold Span.ofPart
  rw [hlength]

/-- The first of some calls stands behind its gap. -/
theorem ofCalls_cons_eq (d : Dialect) (number : UInt32) (before : Text) (call : Call)
    (calls : List Call) :
    ofCalls d number before.length (call :: calls)
      = ⟨.printCall call.argument,
          Span.ofPart number (before ++ call.gap) (Call.spelled d call.argument)⟩
        :: ofCalls d number (before ++ call.toText d).length calls := by
  rw [ofCalls_cons, List.length_append]
  congr 2
  unfold Span.ofPart Call.spelled Span.columnAfter
  simp only [List.length_append, List.length_singleton, Nat.add_assoc]

/-- The place of a call among others is that of its spelling, behind everything in front of it. -/
theorem part_of_mem_ofCalls {d : Dialect} {number : UInt32} {before : Text} {calls : List Call}
    {token : Token} (h : token ∈ ofCalls d number before.length calls) :
    ∃ front argument after, calls.flatMap (Call.toText d) = front ++ Call.spelled d argument ++ after
      ∧ token = ⟨.printCall argument, Span.ofPart number (before ++ front) (Call.spelled d argument)⟩
      := by
  induction calls generalizing before with
  | nil => exact absurd h List.not_mem_nil
  | cons call calls ih =>
    rw [ofCalls_cons_eq] at h
    rcases List.mem_cons.1 h with rfl | hmem
    · refine ⟨call.gap, call.argument, calls.flatMap (Call.toText d), ?_, rfl⟩
      rw [List.flatMap_cons, call.toText_eq]
    · obtain ⟨front, argument, after, hcalls, htoken⟩ := ih hmem
      refine ⟨call.toText d ++ front, argument, after, ?_, ?_⟩
      · rw [List.flatMap_cons, hcalls]
        simp only [List.append_assoc]
      · rw [htoken, List.append_assoc]

/-- The place of a call of a line is that of its spelling. -/
theorem part_of_mem_calls {d : Dialect} {number : UInt32} {line : Text} {token : Token}
    (h : token ∈ ofCalls d number 0 (CallSplit.ofLine d line).calls) :
    ∃ before argument after, line = before ++ Call.spelled d argument ++ after
      ∧ token = ⟨.printCall argument, Span.ofPart number before (Call.spelled d argument)⟩ := by
  obtain ⟨front, argument, after, hcalls, htoken⟩ := @part_of_mem_ofCalls d number [] _ _ h
  have hline := CallSplit.toText_ofLine d line
  unfold CallSplit.toText at hline
  rw [hcalls, List.append_assoc] at hline
  exact ⟨front, argument, after ++ (CallSplit.ofLine d line).tail, hline.symm, htoken⟩

/-- A token selects in `s` what it stands for. -/
inductive Selects (d : Dialect) (s : Text) (token : Token) : Prop
  /-- An assignment selects its name, spaces, the operator and its value, up to the end of its
  line. -/
  | assignment {name gap value : Text} (construct : token.construct = .assignment name value)
      (blank : gap.isBlank = true)
      (selected : token.span.select? s = some (name ++ gap ++ d.operator ++ value))
      (ends : (s.line? token.span.startLine.toNat).map List.length
        = some token.span.endColumn.toNat)
  /-- A print call selects its opener, its argument and its closing parenthesis. -/
  | printCall {argument : Text} (construct : token.construct = .printCall argument)
      (selected : token.span.select? s = some (d.opener ++ argument ++ [')']))

/-- A token of a line selects on it what it stands for. -/
theorem selects_of_mem_ofLine {d : Dialect} {s line : Text} {number : UInt32} {token : Token}
    (hline : s.line? number.toNat = some line) (hlong : line.length + 1 < UInt32.size)
    (h : token ∈ ofLine d number line) : Selects d s token := by
  unfold ofLine at h
  rcases List.mem_append.1 h with hassignment | hcall
  · obtain ⟨a, hsplit, rfl⟩ := ofAssignment?_eq_some (Option.mem_toList.1 hassignment)
    have hpart : line = a.indent ++ a.spelled d ++ [] := by
      rw [List.append_nil, ← a.toText_eq, hsplit.whole]
    have hlength := congrArg List.length hpart
    rw [List.append_nil, List.length_append] at hlength
    refine .assignment rfl hsplit.gap
      (Span.select?_ofPart hline hlong hpart (a.spelled_ne_nil hsplit.value)) ?_
    show (s.line? number.toNat).map List.length = _
    rw [hline, Option.map_some, hlength, Span.toNat_endColumn_ofPart (by omega)]
  · obtain ⟨before, argument, after, hpart, rfl⟩ := part_of_mem_calls hcall
    exact .printCall rfl
      (Span.select?_ofPart hline hlong hpart (Call.spelled_ne_nil d argument))

/-- **The span of a token** selects what the token stands for. -/
theorem selects_of_mem {d : Dialect} {s : Text} (hcount : s.lines.length + 1 < UInt32.size)
    (hlong : ∀ line ∈ s.lines, line.length + 1 < UInt32.size) {token : Token}
    (h : token ∈ (ofText d s).dropLast) : Selects d s token := by
  rw [dropLast_ofText, List.mem_flatMap] at h
  obtain ⟨⟨number, line⟩, hnumbered, htoken⟩ := h
  have hline := Text.line?_of_mem_countedLines hcount hnumbered
  exact selects_of_mem_ofLine hline (hlong line (Text.mem_lines_of_mem_countedLines hnumbered))
    htoken

end Token

/-! ## Names of assignments -/

/-- The span of the name of an assignment selects the name in `s`, and the sum and the difference by
which its last column is found are those of natural numbers. -/
structure Assignment.NameStands (s : Text) (a : Assignment) : Prop where
  /-- The span selects the name. -/
  selected : a.nameSpan.select? s = some a.name
  /-- The sum does not wrap around. -/
  sum : (a.span.startColumn + UInt32.ofNat a.name.length).toNat
    = a.span.startColumn.toNat + a.name.length
  /-- The difference does not wrap around. -/
  difference : a.nameSpan.endColumn.toNat + 1 = a.span.startColumn.toNat + a.name.length

/-- The place of a name is computed from the place of its assignment. -/
theorem Assignment.nameSpan_ofParts (number : UInt32) (before t name value : Text) :
    (Assignment.ofParts name value (Span.ofPart number before t)).nameSpan
      = Span.ofPart number before name := by
  have hlast : UInt32.ofNat (before.length + 1) + UInt32.ofNat name.length - 1
      = UInt32.ofNat (before.length + name.length) := by
    rw [← UInt32.ofNat_add, Nat.add_right_comm, UInt32.ofNat_add]
    exact UInt32.add_sub_cancel _ 1
  show Span.ofColumns number (UInt32.ofNat (before.length + 1))
    (UInt32.ofNat (before.length + 1) + UInt32.ofNat name.length - 1) = _
  rw [hlast]
  rfl

/-- An assignment on a line, and the line as it is written. -/
theorem Statement.assignment_of_mem_ofLine {d : Dialect} {number : UInt32} {line : Text}
    {a : Assignment} (h : Statement.assignment a ∈ Statement.ofLine d number line) :
    ∃ l, AssignmentLine.IsSplit d line l
      ∧ a = Assignment.ofParts l.name l.value (Span.ofPart number l.indent (l.spelled d)) := by
  obtain ⟨token, htoken, hofToken⟩ := List.mem_filterMap.1 h
  unfold Token.ofLine at htoken
  rcases List.mem_append.1 htoken with hassignment | hcall
  · obtain ⟨l, hsplit, rfl⟩ := Token.ofAssignment?_eq_some (Option.mem_toList.1 hassignment)
    exact ⟨l, hsplit, (Statement.assignment.inj (Option.some.inj hofToken)).symm⟩
  · obtain ⟨before, argument, after, -, rfl⟩ := Token.part_of_mem_calls hcall
    exact nomatch Option.some.inj hofToken

/-- The span of the name of an assignment selects it on its line. -/
theorem Assignment.nameStands_of_mem_ofLine {d : Dialect} {s line : Text} {number : UInt32}
    {a : Assignment} (hline : s.line? number.toNat = some line)
    (hlong : line.length + 1 < UInt32.size)
    (h : Statement.assignment a ∈ Statement.ofLine d number line) : a.NameStands s := by
  obtain ⟨l, hsplit, rfl⟩ := Statement.assignment_of_mem_ofLine h
  have hpart : line = l.indent ++ l.name ++ (l.gap ++ d.operator ++ l.value) := by
    rw [← hsplit.whole]
    unfold AssignmentLine.toText
    simp only [List.append_assoc]
  have hlength := congrArg List.length hpart
  rw [List.length_append, List.length_append] at hlength
  have hstart : (Span.ofPart number l.indent (l.spelled d)).startColumn.toNat
      = l.indent.length + 1 := Span.toNat_startColumn_ofPart (by omega)
  have hname : (UInt32.ofNat l.name.length).toNat = l.name.length :=
    UInt32.toNat_ofNat_of_lt' (by omega)
  have hvalue := List.length_pos_iff.2 hsplit.value
  rw [List.length_append] at hlength
  constructor
  · rw [nameSpan_ofParts]
    exact Span.select?_ofPart hline hlong hpart hsplit.name.ne_nil
  · show ((Span.ofPart number l.indent (l.spelled d)).startColumn
        + UInt32.ofNat l.name.length).toNat
      = (Span.ofPart number l.indent (l.spelled d)).startColumn.toNat + l.name.length
    have hsum : l.indent.length + 1 + l.name.length < UInt32.size := by omega
    rw [UInt32.toNat_add, hstart, hname]
    exact Nat.mod_eq_of_lt hsum
  · rw [nameSpan_ofParts, Span.toNat_endColumn_ofPart (by omega)]
    show _ = (Span.ofPart number l.indent (l.spelled d)).startColumn.toNat + l.name.length
    omega

/-- **The span of a name** selects the name. -/
theorem Assignment.nameStands_of_mem {d : Dialect} {s : Text}
    (hcount : s.lines.length + 1 < UInt32.size)
    (hlong : ∀ line ∈ s.lines, line.length + 1 < UInt32.size) {a : Assignment}
    (h : a ∈ (Program.ofText d s).assignments) : a.NameStands s := by
  obtain ⟨st, hst, ha⟩ := List.mem_filterMap.1 h
  rw [Program.statements_ofText, List.mem_flatMap] at hst
  obtain ⟨⟨number, line⟩, hnumbered, hst⟩ := hst
  have hline := Text.line?_of_mem_countedLines hcount hnumbered
  cases st with
  | print p => exact nomatch ha
  | assignment b =>
    obtain rfl : b = a := Option.some.inj ha
    exact nameStands_of_mem_ofLine hline
      (hlong line (Text.mem_lines_of_mem_countedLines hnumbered)) hst

end Playground
