/-
# Reading programs

A program is read line by line: the calls of a line are recognised by the grammar.  What is written in
the plain form is read as it is written.

* `Token.mem_ofText_iff` : the tokens of a text stand on its lines.
* `Token.dropLast_ofText` : the tokens of a text line by line, without the mark at its end.
* `Program.statements_ofText` : the statements of a program line by line.
* `Program.map_ofToken?` : every token but the last stands for one statement.
* `Program.map_argument_prints` : the prints of a program are its print calls.
* `Program.exists_call_of_mem_prints`, `Program.exists_line_of_mem_assignments` : the prints of a
  program are the calls on its lines, and its assignments those of its lines.
* `Statement.ofLine_call`, `Statement.ofLine_assignment` : a line that is a single call or an
  assignment without calls.
* `Operand.ofText_inQuotes`, `Assigned.ofText_inQuotes` : a text between quotes stands for itself.
-/
import Playground.Evaluation.Count
import Playground.Program.OfTokens
import Playground.Proofs.AssignmentGrammar
import Playground.Proofs.CallGrammar
import Playground.Proofs.Number.Numerals

namespace Playground

/-! ## The statements of a program, line by line -/

/-- The statements that stand on a line. -/
def Statement.ofLine (d : Dialect) (number : UInt32) (line : Text) : List Statement :=
  (Token.ofLine d number line).filterMap (Statement.ofToken? d)

/-- The first of some calls, and those behind it. -/
theorem Token.ofCalls_cons (d : Dialect) (number : UInt32) (before : Nat) (call : Call)
    (calls : List Call) :
    Token.ofCalls d number before (call :: calls)
      = ⟨.printCall call.argument, Span.ofColumns number
            (Span.columnAfter (before + call.gap.length))
            (Span.columnAfter
              (before + call.gap.length + d.opener.length + call.argument.length))⟩
        :: Token.ofCalls d number (before + (call.toText d).length) calls := by
  have hlength : before + (call.toText d).length
      = before + call.gap.length + d.opener.length + call.argument.length + 1 := by
    unfold Call.toText
    rw [List.length_append, List.length_append, List.length_append, List.length_singleton]
    omega
  rw [hlength]
  rfl

theorem Token.construct_of_mem_ofCalls {d : Dialect} {number : UInt32} {before : Nat}
    {calls : List Call} {token : Token} (h : token ∈ Token.ofCalls d number before calls) :
    ∃ call ∈ calls, token.construct = .printCall call.argument := by
  induction calls generalizing before with
  | nil => exact absurd h List.not_mem_nil
  | cons call calls ih =>
    rcases List.mem_cons.1 h with rfl | hmem
    · exact ⟨call, List.mem_cons_self, rfl⟩
    · obtain ⟨c, hc, hconstruct⟩ := ih hmem
      exact ⟨c, List.mem_cons_of_mem call hc, hconstruct⟩

/-- A token of a line is the assignment of the line or one of its calls. -/
theorem Token.construct_of_mem_ofLine {d : Dialect} {number : UInt32} {line : Text} {token : Token}
    (h : token ∈ Token.ofLine d number line) :
    (∃ a, AssignmentLine.read? d line = some a ∧ token.construct = .assignment a.name a.value)
      ∨ ∃ call ∈ (CallSplit.ofLine d line).calls, token.construct = .printCall call.argument := by
  unfold Token.ofLine at h
  rcases List.mem_append.1 h with hassignment | hcall
  · obtain ⟨a, ha, rfl⟩ := Option.map_eq_some_iff.1 (Option.mem_toList.1 hassignment)
    exact Or.inl ⟨a, ha, rfl⟩
  · exact Or.inr (Token.construct_of_mem_ofCalls hcall)

theorem Token.line_of_mem_ofCalls {d : Dialect} {number : UInt32} {before : Nat}
    {calls : List Call} {token : Token} (h : token ∈ Token.ofCalls d number before calls) :
    token.span.startLine = number ∧ token.span.endLine = number := by
  induction calls generalizing before with
  | nil => exact absurd h List.not_mem_nil
  | cons call calls ih =>
    rcases List.mem_cons.1 h with rfl | hmem
    · exact ⟨rfl, rfl⟩
    · exact ih hmem

/-- A token of a line starts and ends on it. -/
theorem Token.line_of_mem_ofLine {d : Dialect} {number : UInt32} {line : Text} {token : Token}
    (h : token ∈ Token.ofLine d number line) :
    token.span.startLine = number ∧ token.span.endLine = number := by
  unfold Token.ofLine at h
  rcases List.mem_append.1 h with hassignment | hcall
  · obtain ⟨a, -, rfl⟩ := Option.map_eq_some_iff.1 (Option.mem_toList.1 hassignment)
    exact ⟨rfl, rfl⟩
  · exact Token.line_of_mem_ofCalls hcall

/-- Every token of a line stands for a statement. -/
theorem Token.ofToken?_ne_none {d : Dialect} {number : UInt32} {line : Text} {token : Token}
    (h : token ∈ Token.ofLine d number line) : Statement.ofToken? d token ≠ none := by
  unfold Statement.ofToken?
  rcases Token.construct_of_mem_ofLine h with ⟨a, -, ha⟩ | ⟨call, -, hcall⟩
  · rw [ha]
    exact Option.some_ne_none _
  · rw [hcall]
    exact Option.some_ne_none _

/-- In front of the mark at the end of a text stand the tokens of its lines. -/
theorem Token.dropLast_ofText (d : Dialect) (s : Text) :
    (Token.ofText d s).dropLast
      = s.countedLines.flatMap fun numbered => Token.ofLine d numbered.1 numbered.2 := by
  unfold Token.ofText
  rw [List.dropLast_concat]

theorem Statement.ofTokens_append {d : Dialect} {tokens : List Token}
    (h : ∀ token ∈ tokens, Statement.ofToken? d token ≠ none) (rest : List Token) :
    Statement.ofTokens d (tokens ++ rest)
      = tokens.filterMap (Statement.ofToken? d) ++ Statement.ofTokens d rest := by
  induction tokens with
  | nil => rfl
  | cons token tokens ih =>
    rw [List.forall_mem_cons] at h
    obtain ⟨s, hs⟩ := Option.ne_none_iff_exists'.1 h.1
    rw [List.cons_append, Statement.ofTokens, hs, List.filterMap_cons, hs]
    dsimp only
    rw [ih h.2, List.cons_append]

/-- **The statements of a program** are those of its lines, one line after the other. -/
theorem Program.statements_ofText (d : Dialect) (s : Text) :
    (Program.ofText d s).statements
      = s.countedLines.flatMap fun numbered => Statement.ofLine d numbered.1 numbered.2 := by
  unfold Program.ofText Program.ofTokens Token.ofText
  dsimp only
  rw [Statement.ofTokens_append]
  · rw [List.filterMap_flatMap]
    exact List.append_nil _
  · intro token htoken
    obtain ⟨numbered, -, hmem⟩ := List.mem_flatMap.1 htoken
    exact Token.ofToken?_ne_none hmem

/-- **Every token but the last** stands for one statement, in the same order. -/
theorem Program.map_ofToken? (d : Dialect) (s : Text) :
    (Token.ofText d s).dropLast.map (Statement.ofToken? d)
      = (Program.ofText d s).statements.map some := by
  rw [Token.dropLast_ofText, Program.statements_ofText, List.map_flatMap, List.map_flatMap]
  congr 1
  funext numbered
  have htokens := fun token => @Token.ofToken?_ne_none d numbered.1 numbered.2 token
  unfold Statement.ofLine
  generalize Token.ofLine d numbered.1 numbered.2 = tokens at htokens
  induction tokens with
  | nil => rfl
  | cons token tokens ih =>
    obtain ⟨s, hs⟩ := Option.ne_none_iff_exists'.1 (htokens token List.mem_cons_self)
    have hrest := ih fun t ht => htokens t (List.mem_cons_of_mem token ht)
    rw [List.map_cons, hs, List.filterMap_cons, hs, List.map_cons, hrest]

/-- The prints of a line are its print calls, with their arguments as they are read. -/
theorem Statement.map_argument_ofLine (d : Dialect) (number : UInt32) (line : Text) :
    ((Statement.ofLine d number line).filterMap Statement.print?).map Print.argument
      = ((Token.ofLine d number line).filterMap Token.argument?).map (Argument.ofText d) := by
  unfold Statement.ofLine
  induction Token.ofLine d number line with
  | nil => rfl
  | cons token tokens ih =>
    obtain ⟨construct, span⟩ := token
    cases construct with
    | assignment name value => exact ih
    | printCall argument => exact congrArg (Argument.ofText d argument :: ·) ih
    | endOfText => exact ih

/-- The prints of a program are its print calls, with their arguments as they are read. -/
theorem Program.map_argument_prints (d : Dialect) (s : Text) :
    (Program.ofText d s).prints.map Print.argument
      = ((Token.ofText d s).filterMap Token.argument?).map (Argument.ofText d) := by
  unfold Program.prints Token.ofText
  rw [Program.statements_ofText, List.filterMap_flatMap, List.map_flatMap, List.filterMap_append,
    List.filterMap_flatMap, List.map_append, List.map_flatMap]
  refine Eq.trans ?_ (List.append_nil _).symm
  congr 1
  funext numbered
  exact Statement.map_argument_ofLine d numbered.1 numbered.2

/-- Every print of a program is a call on one of its lines. -/
theorem Program.exists_call_of_mem_prints {d : Dialect} {s : Text} {p : Print}
    (h : p ∈ (Program.ofText d s).prints) :
    ∃ line ∈ s.lines, ∃ call ∈ (CallSplit.ofLine d line).calls,
      p.argument = Argument.ofText d call.argument := by
  have hargument := List.mem_map_of_mem (f := Print.argument) h
  rw [Program.map_argument_prints, Token.filterMap_argument?_ofText] at hargument
  obtain ⟨argument, hmem, heq⟩ := List.mem_map.1 hargument
  obtain ⟨line, hline, hmem⟩ := List.mem_flatMap.1 hmem
  obtain ⟨call, hcall, rfl⟩ := List.mem_map.1 hmem
  exact ⟨line, hline, call, hcall, heq.symm⟩

/-- Every assignment of a program is the assignment on one of its lines. -/
theorem Program.exists_line_of_mem_assignments {d : Dialect} {s : Text} {a : Assignment}
    (h : a ∈ (Program.ofText d s).assignments) :
    ∃ line ∈ s.lines, ∃ l, AssignmentLine.IsSplit d line l ∧ a.name = l.name
      ∧ a.assigned = Assigned.ofText l.value.trim := by
  obtain ⟨st, hst, ha⟩ := List.mem_filterMap.1 h
  rw [Program.statements_ofText, List.mem_flatMap] at hst
  obtain ⟨⟨number, line⟩, hline, hst⟩ := hst
  obtain ⟨token, htoken, hofToken⟩ := List.mem_filterMap.1 hst
  refine ⟨line, Text.mem_lines_of_mem_countedLines hline, ?_⟩
  unfold Statement.ofToken? at hofToken
  rcases Token.construct_of_mem_ofLine htoken with ⟨l, hread, hl⟩ | ⟨call, -, hcall⟩
  · rw [hl] at hofToken
    obtain rfl := Option.some.inj hofToken
    obtain rfl := Option.some.inj ha
    exact ⟨l, AssignmentLine.read?_eq_some_iff.1 hread, rfl, rfl⟩
  · rw [hcall] at hofToken
    obtain rfl := Option.some.inj hofToken
    exact nomatch ha

/-! ## Lines with a single statement -/

/-- A line in which no call opens has no calls. -/
theorem CallSplit.ofLine_of_not_infix {d : Dialect} {line : Text} (h : ¬ d.opener <:+: line) :
    CallSplit.ofLine d line = ⟨[], line⟩ := by
  refine (CallSplit.isSplit_iff.1 (CallSplit.isSplit_nil_iff.2 ⟨rfl, ?_⟩)).symm
  rw [Call.next?_eq_none_iff]
  intro before after hline
  exact absurd ⟨before, after, hline.symm⟩ h

/-- A line on which no call closes has no calls. -/
theorem CallSplit.ofLine_of_not_mem (d : Dialect) {line : Text} (h : ')' ∉ line) :
    CallSplit.ofLine d line = ⟨[], line⟩ := by
  refine (CallSplit.isSplit_iff.1 (CallSplit.isSplit_nil_iff.2 ⟨rfl, ?_⟩)).symm
  rw [Call.next?_eq_none_iff]
  rintro before after rfl hmem
  exact h (List.mem_append_right _ hmem)

/-- A line that is a call has no other one. -/
theorem CallSplit.ofLine_call {d : Dialect} {argument : Text} (h : Call.Closes d argument []) :
    CallSplit.ofLine d (d.opener ++ argument ++ [')']) = ⟨[⟨[], argument⟩], []⟩ := by
  have hnext : Call.next? d (d.opener ++ argument ++ [')']) = some (⟨[], argument⟩, []) := by
    rw [Call.next?_eq_some_iff]
    refine ⟨?_, ?_, h⟩
    · unfold Call.toText
      rw [List.nil_append, List.append_nil]
    · rw [List.infix_nil]
      exact d.opener_ne_nil
  have hnil : Call.next? d [] = none := by cases d <;> rfl
  exact (CallSplit.isSplit_iff.1 (CallSplit.isSplit_cons_iff.2
    ⟨[], hnext, CallSplit.isSplit_nil_iff.2 ⟨rfl, hnil⟩⟩)).symm

/-- The statement on the line of a print. -/
theorem Statement.ofLine_call {d : Dialect} {argument : Text} (h : Call.Closes d argument [])
    (number : UInt32) : ∃ span, Statement.ofLine d number (d.opener ++ argument ++ [')'])
      = [.print ⟨Argument.ofText d argument, span⟩] := by
  have hassignment : Token.ofAssignment? d number (d.opener ++ argument ++ [')']) = none := by
    unfold Token.ofAssignment?
    rw [List.append_assoc, AssignmentLine.read?_opener]
    rfl
  unfold Statement.ofLine Token.ofLine
  rw [hassignment, CallSplit.ofLine_call h]
  exact ⟨_, rfl⟩

/-- The statement on the line of an assignment on which no call stands. -/
theorem Statement.ofLine_assignment {d : Dialect} {name value line : Text}
    (hname : AssignmentLine.IsName name) (hline : line = name ++ ' ' :: d.operator ++ ' ' :: value)
    (hcalls : CallSplit.ofLine d line = ⟨[], line⟩) (number : UInt32) :
    ∃ a, Statement.ofLine d number line = [.assignment a] ∧ a.name = name
      ∧ a.assigned = Assigned.ofText value.trim := by
  unfold Statement.ofLine Token.ofLine Token.ofAssignment?
  rw [hcalls, hline, AssignmentLine.read?_line d hname]
  refine ⟨_, rfl, rfl, ?_⟩
  show Assigned.ofText (Text.trim (' ' :: value)) = Assigned.ofText value.trim
  rw [Text.trim_cons_of_isSpace value (by decide)]

/-! ## Operands -/

/-- A text between quotes. -/
def Text.inQuotes (s : Text) : Text := '"' :: s ++ ['"']

theorem Text.trim_inQuotes (s : Text) : s.inQuotes.trim = s.inQuotes := by
  refine trim_eq_self ?_ ?_
  · rintro c ⟨⟩
    decide
  · intro c hc
    unfold inQuotes at hc
    rw [List.getLast?_concat] at hc
    obtain rfl := Option.some.inj hc
    decide

theorem Text.dropEnds_inQuotes (s : Text) : s.inQuotes.dropEnds = s := by
  show List.dropLast (s ++ ['"']) = s
  rw [List.dropLast_concat]

theorem Text.unquoted_inQuotes (s : Text) : s.inQuotes.unquoted = s := by
  have hlast : List.getLast? (List.tail s.inQuotes) = some '"' := by
    show List.getLast? (s ++ ['"']) = _
    rw [List.getLast?_concat]
  unfold unquoted
  rw [hlast]
  exact dropEnds_inQuotes s

/-- Text that does not begin with a quote is not between quotes. -/
theorem Text.unquoted_eq_self {s : Text} (h : ∀ c ∈ s.head?, isQuote c = false) :
    s.unquoted = s := by
  unfold unquoted
  split
  · next first last hfirst hlast =>
    rw [h first hfirst, Bool.false_and, if_neg Bool.false_ne_true]
  · rfl

/-- **A text between quotes** stands for itself. -/
theorem Operand.ofText_inQuotes (s : Text) : Operand.ofText s.inQuotes = ⟨s.inQuotes, s⟩ := by
  unfold Operand.ofText
  rw [Text.trim_inQuotes, Text.unquoted_inQuotes]

/-- A name has no quotes and no spaces around it. -/
theorem Operand.ofText_name {name : Text} (h : AssignmentLine.IsName name) :
    Operand.ofText name = ⟨name, name⟩ := by
  have hunquoted : name.unquoted = name := by
    refine Text.unquoted_eq_self fun c hc => ?_
    have hbounds := AssignmentLine.toNat_of_isNameChar (h.chars c (List.mem_of_head? hc))
    unfold Text.isQuote
    rw [Bool.or_eq_false_iff, decide_eq_false_iff_not, decide_eq_false_iff_not]
    refine ⟨?_, ?_⟩
    · rintro rfl
      exact absurd hbounds.1 (by decide)
    · rintro rfl
      exact absurd hbounds.1 (by decide)
  unfold Operand.ofText
  rw [h.trim_eq, hunquoted]

/-- **A text between quotes** is assigned as it is. -/
theorem Assigned.ofText_inQuotes (s : Text) : Assigned.ofText s.inQuotes = .value (.text s) := by
  have hquote : s.inQuotes.head?.any Text.isQuote = true := rfl
  unfold Assigned.ofText
  rw [hquote, if_pos rfl, Text.dropEnds_inQuotes]

/-- In Python an argument without a star is an operand. -/
theorem Argument.ofText_python {argument : Text} (hstar : '*' ∉ argument) :
    Argument.ofText .python argument = .operand (Operand.ofText argument.trim) := by
  have hcut : Text.cut? ['*'] argument.trim = none :=
    Text.cut?_char_eq_none_iff.2 fun hmem => hstar ((Text.trim_infix argument).subset hmem)
  show Argument.ofPython argument.trim = _
  unfold Argument.ofPython
  rw [hcut]

/-- The name of the function that repeats a text is looked for in the whole argument. -/
theorem Argument.includes_repeatName_iff {argument : Text} :
    Text.includes argument.trim Argument.repeatName = true
      ↔ Argument.repeatName <:+: argument := by
  have hhead : ∀ c ∈ Argument.repeatName.head?, Text.isSpace c = false := by
    rintro c ⟨⟩
    decide
  have hlast : ∀ c ∈ Argument.repeatName.getLast?, Text.isSpace c = false := by
    rintro c ⟨⟩
    decide
  rw [Text.includes_iff, Text.infix_trim_iff hhead hlast]

/-- In Go an argument that repeats nothing is an operand. -/
theorem Argument.ofText_go {argument : Text} (hrepeat : ¬ Argument.repeatName <:+: argument) :
    Argument.ofText .go argument = .operand (Operand.ofText argument.trim) := by
  have hincludes := mt Argument.includes_repeatName_iff.1 hrepeat
  show Argument.ofGo argument.trim = _
  unfold Argument.ofGo
  rw [if_neg hincludes]

/-- In Go an argument that repeats a text is searched for the repetition. -/
theorem Argument.ofText_go_of_infix {argument : Text}
    (hrepeat : Argument.repeatName <:+: argument) :
    Argument.ofText .go argument = match Repetition.find? argument.trim with
      | some call => .repetition call
      | none => .unmatched argument.trim := by
  have hincludes := Argument.includes_repeatName_iff.2 hrepeat
  show Argument.ofGo argument.trim = _
  unfold Argument.ofGo
  exact if_pos hincludes

/-- In Python a text between quotes with a star behind it is the text operand of a product. -/
theorem Argument.ofText_product {text count : Text} (hstar : '*' ∉ text) (hne : count ≠ [])
    (hcount : ∀ c ∈ count, Text.isSpace c = false) :
    Argument.ofText .python (text.inQuotes ++ " * ".toList ++ count)
      = .product ⟨text.inQuotes, text⟩ (Operand.ofText count) := by
  have hsplit : text.inQuotes ++ " * ".toList ++ count
      = (text.inQuotes ++ [' ']) ++ '*' :: ' ' :: count := by
    rw [List.append_assoc, List.append_assoc]
    rfl
  have hbefore : '*' ∉ text.inQuotes ++ [' '] := by simp [Text.inQuotes, hstar]
  have hcut := Text.cut?_char_eq_some_iff.2 ⟨hsplit, hbefore⟩
  have htrim : Text.trim (text.inQuotes ++ " * ".toList ++ count)
      = text.inQuotes ++ " * ".toList ++ count := by
    refine Text.trim_eq_self ?_ ?_
    · rintro c ⟨⟩
      decide
    · intro c hc
      rw [List.getLast?_append_of_ne_nil _ hne] at hc
      exact hcount c (List.mem_of_getLast? hc)
  have htext : Operand.ofText (text.inQuotes ++ [' ']) = ⟨text.inQuotes, text⟩ := by
    unfold Operand.ofText
    rw [Text.trim_concat_of_isSpace _ (by decide), Text.trim_inQuotes, Text.unquoted_inQuotes]
  have hoperand : Operand.ofText (' ' :: count) = Operand.ofText count := by
    unfold Operand.ofText
    rw [Text.trim_cons_of_isSpace count (by decide)]
  show Argument.ofPython (Text.trim (text.inQuotes ++ " * ".toList ++ count)) = _
  unfold Argument.ofPython
  rw [htrim, hcut]
  dsimp only
  rw [htext, hoperand]

end Playground
