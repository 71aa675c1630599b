/-
# Ways to write a count

The count of a repetition is written in place or in a variable, and there as a number or as a text.
Each of these is read in its own way: as the number that a text begins with, as the numeral of an
assignment, as the numeral that a text holds when it is printed, and in Go as the digits of a call.
All of them come to the same number, and so the programs come to the same outcome.

* `Program.outcome_of_single` : the outcome of a program with a single print that repeats a text.
* `Program.run_product`, `Program.run_named` : a count in place and a count in a variable.
* `Program.run_repeatCounts_exact` : all ways to write a count agree.
-/
import Playground.Proofs.AlikeStatements
import Playground.Proofs.Number.SignedDigits
import Playground.Proofs.PythonValidity
import Playground.Proofs.Repetitions
import Playground.Proofs.Variables

namespace Playground

/-- What a program comes to whose only print repeats `text` as often as the number `x` says: the count
may be refused, the line may exceed the limit, or else the line is the output, if that can be formed. -/
def repeatingOutcome (settings : Settings) (text : Text) (x : Binary64) :
    Except Unformed (Except Failure Text) :=
  match x.count with
  | .error fault => .ok (.error (.ofFault fault))
  | .ok n =>
    match spend settings.outputLimit 0 (.copies text n) with
    | .error fault => .ok (.error (.ofFault fault))
    | .ok _ => (Text.formed (text.copies n ++ ['\n'])).map .ok

/-! ## Programs with a single print -/

/-- **The outcome of a program with a single print** that repeats a text. -/
theorem Program.outcome_of_single (settings : Settings) {p : Program} {q : Print} {text : Text}
    {x : Binary64} (hprints : p.prints = [q])
    (hresolve : q.argument.resolve p.bindings = x.count.map (.copies text)) :
    outcome settings (p.evaluate settings.outputLimit) = repeatingOutcome settings text x := by
  have hresolved : q.argument.resolve (Bindings.ofAssignments p.assignments)
      = x.count.map (.copies text) := hresolve
  rw [outcome_evaluate, hprints, printouts_cons, hresolved]
  unfold repeatingOutcome
  rcases x.count with fault | n
  · rfl
  · -- The count is taken, and the line is charged as the first one.
    dsimp only [Except.map, Except.bind]
    rcases spend settings.outputLimit 0 (.copies text n) with fault | total
    · rfl
    · show Except.map _ (Printout.output? [.copies text n]) = Except.map _ (Text.formed _)
      rw [Printout.output?_singleton rfl]
      cases Text.formed (text.copies n ++ ['\n']) <;> rfl

/-! ## Repetitions in Python -/

namespace Program

/-- The line of a print that repeats `text` by a product. -/
def productLine (text count : Text) : Text :=
  Dialect.python.opener ++ (text.inQuotes ++ " * ".toList ++ count) ++ [')']

/-- The line of an assignment. -/
def assignmentLine (name value : Text) : Text := name ++ " = ".toList ++ value

/-- A line that stays what it is when it is joined to others, and that assigns something if it is an
assignment. -/
structure IsPlainLine (line : Text) : Prop where
  /-- The line is not empty. -/
  nonempty : line ≠ []
  /-- It is a single line. -/
  newline : '\n' ∉ line
  /-- It does not end in a carriage return. -/
  withoutReturn : Text.withoutReturn line = line
  /-- It does not assign spaces alone. -/
  assigns : ¬ AssignsSpaces line

variable {text count name value : Text}

/-- What may stand in a text that is repeated: it closes no quotes and no print call, and no star
stands in it. -/
structure IsRepeatable (text : Text) : Prop where
  /-- The text is not empty. -/
  nonempty : text ≠ []
  /-- It is a single line. -/
  newline : '\n' ∉ text
  /-- No quote ends the text early. -/
  quote : '"' ∉ text
  /-- No parenthesis closes in it. -/
  close : ')' ∉ text
  /-- No star stands in it. -/
  star : '*' ∉ text

/-- What may stand as a count or as a value: something without spaces and closing parentheses. -/
structure IsWord (s : Text) : Prop where
  /-- The word is not empty. -/
  nonempty : s ≠ []
  /-- It holds no spaces. -/
  isSpace : ∀ c ∈ s, Text.isSpace c = false
  /-- No parenthesis closes in it. -/
  close : ')' ∉ s

theorem isWord_name (h : AssignmentLine.IsName name) : IsWord name :=
  ⟨h.ne_nil, fun c hc => AssignmentLine.isSpace_of_isNameChar (h.chars c hc),
    h.not_mem (by decide)⟩

theorem IsWord.newline (h : IsWord value) : '\n' ∉ value := fun hmem =>
  absurd (h.isSpace _ hmem) (by decide)

theorem isPlainLine_product (ht : IsRepeatable text) (hcount : IsWord count) :
    IsPlainLine (productLine text count) := by
  have hreturn : Text.withoutReturn (productLine text count) = productLine text count :=
    Text.withoutReturn_concat (by decide)
  have hassigns : ¬ AssignsSpaces (productLine text count) :=
    not_assignsSpaces_concat _ (by decide)
  refine ⟨?_, ?_, hreturn, hassigns⟩
  · unfold productLine
    simp
  · have hopener : '\n' ∉ Dialect.python.opener := by decide
    unfold productLine
    simp [hopener, Text.inQuotes, ht.newline, hcount.newline]

theorem isPlainLine_assignment (hname : AssignmentLine.IsName name) (hvalue : IsWord value) :
    IsPlainLine (assignmentLine name value) := by
  have hline : assignmentLine name value = name ++ [' '] ++ '=' :: (' ' :: value) := by
    unfold assignmentLine
    rw [List.append_assoc, List.append_assoc]
    rfl
  have hblank : Text.isBlank (' ' :: value) = false := by
    obtain ⟨c, s, rfl⟩ := List.exists_cons_of_ne_nil hvalue.nonempty
    show (Text.isSpace ' ' && (Text.isSpace c && _)) = false
    rw [hvalue.isSpace c List.mem_cons_self]
    rfl
  refine ⟨List.append_ne_nil_of_right_ne_nil _ hvalue.nonempty, ?_, ?_, ?_⟩
  · unfold assignmentLine
    simp [hname.not_mem (c := '\n') (by decide), hvalue.newline]
  · refine Text.withoutReturn_eq_self fun hlast => ?_
    unfold assignmentLine at hlast
    rw [List.getLast?_append_of_ne_nil _ hvalue.nonempty] at hlast
    exact absurd (hvalue.isSpace _ (List.mem_of_getLast? hlast)) (by decide)
  · rw [hline]
    exact not_assignsSpaces hname rfl hblank

/-- Plain lines that are joined are the lines again. -/
theorem lines_joined (closed : Bool) {lines : List Text} (h : ∀ line ∈ lines, IsPlainLine line) :
    Text.lines (Text.joined closed lines) = lines :=
  Text.lines_joined closed fun line hline =>
    ⟨(h line hline).nonempty, (h line hline).newline, (h line hline).withoutReturn⟩

/-- Plain lines of which one prints are a valid program. -/
theorem validityFailure?_joined (closed : Bool) {lines : List Text}
    (h : ∀ line ∈ lines, IsPlainLine line) (hprints : productLine text count ∈ lines) :
    validityFailure? .python (Text.joined closed lines) = none := by
  have hclose : ')' ∈ productLine text count :=
    List.mem_append_right _ List.mem_cons_self
  refine validityFailure?_python_eq_none ((Text.infix_joined closed hprints).subset hclose) ?_
  rw [lines_joined closed h]
  exact fun line hline => (h line hline).assigns

/-- The statements of plain lines. -/
theorem statements_joined (closed : Bool) {lines : List Text}
    (h : ∀ line ∈ lines, IsPlainLine line) :
    (ofText .python (Text.joined closed lines)).statements
      = (lines.zipIdx 1).flatMap fun numbered =>
        Statement.ofLine .python (UInt32.ofNat numbered.2) numbered.1 := by
  rw [statements_ofText, Text.countedLines, List.flatMap_map, lines_joined closed h]

/-- The statement of a product. -/
theorem ofLine_product (ht : IsRepeatable text) (hcount : IsWord count) (number : UInt32) :
    ∃ span, Statement.ofLine .python number (productLine text count)
      = [.print ⟨.product ⟨text.inQuotes, text⟩ (Operand.ofText count), span⟩] := by
  have hcloses : Call.Closes .python (text.inQuotes ++ " * ".toList ++ count) [] := by
    show ')' ∉ text.inQuotes ++ " * ".toList ++ count
    simp [Text.inQuotes, ht.close, hcount.close]
  obtain ⟨span, hline⟩ := Statement.ofLine_call hcloses number
  rw [Argument.ofText_product ht.star hcount.nonempty hcount.isSpace] at hline
  exact ⟨span, hline⟩

/-- The statement of an assignment. -/
theorem ofLine_assignment (hname : AssignmentLine.IsName name) (hvalue : IsWord value)
    (number : UInt32) :
    ∃ a, Statement.ofLine .python number (assignmentLine name value) = [.assignment a]
      ∧ a.name = name ∧ a.assigned = Assigned.ofText value := by
  have hclose : ')' ∉ assignmentLine name value := by
    unfold assignmentLine
    simp [hname.not_mem (c := ')') (by decide), hvalue.close]
  have hline : assignmentLine name value
      = name ++ ' ' :: Dialect.python.operator ++ ' ' :: value := by
    unfold assignmentLine
    rw [List.append_assoc, List.append_assoc]
    rfl
  obtain ⟨a, ha, hnamed, hread⟩ := Statement.ofLine_assignment hname hline
    (CallSplit.ofLine_of_not_mem .python hclose) number
  rw [Text.trim_of_no_space hvalue.isSpace] at hread
  exact ⟨a, ha, hnamed, hread⟩

/-- Behind assignments, a product is the only print.  It copies its text, since a text between quotes
names no variable. -/
theorem run_of_statements (settings : Settings) {source : Text}
    (hvalid : validityFailure? .python source = none) (made : List Assignment) {o : Operand}
    {span : Span} (hstatements : (ofText .python source).statements
      = made.map .assignment ++ [.print ⟨.product ⟨text.inQuotes, text⟩ o, span⟩])
    {x : Binary64} (hnumber : (Bindings.ofAssignments made).numberOf? o = some x) :
    run settings .python source = repeatingOutcome settings text x := by
  have hprints : (ofText .python source).prints
      = [⟨.product ⟨text.inQuotes, text⟩ o, span⟩] := by
    unfold prints
    rw [hstatements, List.filterMap_append, List.filterMap_map]
    simp [Function.comp_def, Statement.print?]
  have hbindings : (ofText .python source).bindings = Bindings.ofAssignments made := by
    unfold bindings assignments
    rw [hstatements, List.filterMap_append, List.filterMap_map]
    show Bindings.ofAssignments (List.filterMap some made ++ []) = Bindings.ofAssignments made
    rw [List.filterMap_some, List.append_nil]
  have hname : ¬ AssignmentLine.IsName text.inQuotes := fun h => Bool.false_ne_true h.starts
  have htext := Bindings.textOf_of_unbound (o := ⟨text.inQuotes, text⟩)
    ((holdsVariables .python source).get?_eq_none hname)
  rw [← hbindings] at hnumber
  unfold run
  rw [hvalid]
  exact outcome_of_single settings hprints (Argument.resolve_product htext hnumber)

/-- **A count in place** is the number that it begins with. -/
theorem run_product (settings : Settings) (closed : Bool) (ht : IsRepeatable text)
    (hcount : IsWord count) {x : Binary64} (hleading : Binary64.leading? count = some x) :
    run settings .python (Text.joined closed [productLine text count])
      = repeatingOutcome settings text x := by
  have hplain : ∀ line ∈ [productLine text count], IsPlainLine line := by
    rw [List.forall_mem_singleton]
    exact isPlainLine_product ht hcount
  obtain ⟨span, hprint⟩ := ofLine_product ht hcount (UInt32.ofNat 1)
  have hstatements := statements_joined closed hplain
  rw [List.zipIdx_singleton, List.flatMap_singleton, hprint] at hstatements
  have htrim : (Operand.ofText count).text = count := Text.trim_of_no_space hcount.isSpace
  have hnumber : (Bindings.ofAssignments []).numberOf? (Operand.ofText count) = some x := by
    rw [Bindings.numberOf?_of_unbound rfl, htrim, hleading]
  exact run_of_statements settings (validityFailure?_joined closed hplain List.mem_cons_self) []
    hstatements hnumber

/-- **A count in a variable** is the number that the value of the variable stands for. -/
theorem run_named (settings : Settings) (closed : Bool) (ht : IsRepeatable text)
    (hname : AssignmentLine.IsName name) (hvalue : IsWord value) {v : Value}
    (hassigned : Assigned.ofText value = .value v) {x : Binary64}
    (hnumber : ∀ b : Bindings, b.get? name = some v → b.numberOf? ⟨name, name⟩ = some x) :
    run settings .python (Text.joined closed [assignmentLine name value, productLine text name])
      = repeatingOutcome settings text x := by
  have hplain : ∀ line ∈ [assignmentLine name value, productLine text name], IsPlainLine line := by
    rw [List.forall_mem_cons, List.forall_mem_singleton]
    exact ⟨isPlainLine_assignment hname hvalue, isPlainLine_product ht (isWord_name hname)⟩
  obtain ⟨a, ha, hnamed, hread⟩ := ofLine_assignment hname hvalue (UInt32.ofNat 1)
  obtain ⟨span, hprint⟩ := ofLine_product ht (isWord_name hname) (UInt32.ofNat 2)
  have hstatements := statements_joined closed hplain
  rw [List.zipIdx_cons, List.zipIdx_singleton, List.flatMap_cons, List.flatMap_singleton, ha,
    hprint, Operand.ofText_name hname] at hstatements
  have hbound : (Bindings.ofAssignments [a]).get? name = some v := by
    rw [Bindings.get?_ofAssignments]
    simp [lastValue?, assignedTo, hnamed, hread, hassigned, Assigned.value?]
  exact run_of_statements settings
    (validityFailure?_joined closed hplain (List.mem_cons_of_mem _ List.mem_cons_self)) [a]
    hstatements (hnumber _ hbound)

/-! ## Repetitions in Go -/

/-- **A repetition by a call**, the only print of a valid program, repeats its text as often as its
count says, whatever is assigned in the program. -/
theorem run_repetition (settings : Settings) {source space : Text} {r : Repetition}
    (hvalid : validityFailure? .go source = none) (hr : r.Readable) (hspace : space.isBlank = true)
    (hsingle : (Token.ofText .go source).filterMap Token.argument? = [r.toText space])
    {x : Binary64} (hcount : Binary64.read? r.count = some x) :
    run settings .go source = repeatingOutcome settings r.text x := by
  have hargument := map_argument_prints .go source
  rw [hsingle, List.map_singleton, Argument.ofText_toText hr hspace] at hargument
  obtain ⟨q, hprints, hq⟩ := List.map_eq_singleton_iff.1 hargument
  have hresolve : q.argument.resolve (ofText .go source).bindings = x.count.map (.copies r.text) := by
    rw [hq]
    exact Argument.resolve_repetition hcount
  unfold run
  rw [hvalid]
  exact outcome_of_single settings hprints hresolve

/-! ## All of them -/

/-- A quoted count is read back from the text that its variable holds. -/
theorem run_quoted (settings : Settings) (closed : Bool) (ht : IsRepeatable text)
    (hname : AssignmentLine.IsName name) (hcount : IsWord count) {x : Binary64}
    (hread : Binary64.read? count = some x) :
    run settings .python
        (Text.joined closed [assignmentLine name count.inQuotes, productLine text name])
      = repeatingOutcome settings text x := by
  have hquoted : IsWord count.inQuotes := by
    refine ⟨List.cons_ne_nil _ _, ?_, ?_⟩
    · unfold Text.inQuotes
      rw [List.forall_mem_append, List.forall_mem_cons, List.forall_mem_singleton]
      exact ⟨⟨by decide, hcount.isSpace⟩, by decide⟩
    · simp [Text.inQuotes, hcount.close]
  refine run_named settings closed ht hname hquoted (Assigned.ofText_inQuotes count) ?_
  intro b hb
  rw [Bindings.numberOf?_of_text hb, hread]

theorem isWord_signedDigits (n : SignedDigits) : IsWord n.toText := by
  refine ⟨n.toText_ne_nil, fun c hc => n.isSpace_of_mem hc, fun hmem => ?_⟩
  rcases n.mem_toText hmem with h | h | h
  all_goals exact absurd h (by decide)

/-- Signed digits are assigned as a number. -/
theorem ofText_signedDigits (n : SignedDigits) :
    Assigned.ofText n.toText = .value (.number n.number) := by
  have hquote : ¬ n.toText.head?.any Text.isQuote = true := by
    rw [Option.any_eq_true]
    rintro ⟨c, hc, hcquote⟩
    rcases n.mem_toText (List.mem_of_head? hc) with h | rfl | rfl
    · rcases Bool.or_eq_true_iff.1 hcquote with heq | heq
      all_goals
        rw [of_decide_eq_true heq] at h
        exact absurd h (by decide)
    · exact absurd hcquote (by decide)
    · exact absurd hcquote (by decide)
  unfold Assigned.ofText
  rw [if_neg hquote, n.read?_toText]

/-- **All ways to write a count agree.**  Let a text be repeated by digits, with or without a sign in
front of them.  Whether they stand in the product, or in a variable as a number, or there as a text,
the outcome is that of the number which is nearest to what the digits denote.  If there is no sign, a
valid Go program whose only print is the repetition by these digits comes to the same.  There is an
outcome as long as a text can be as large as the limit. -/
theorem run_repeatCounts_exact (settings : Settings) (closed : Bool) (ht : IsRepeatable text)
    (hname : AssignmentLine.IsName name) (n : SignedDigits) :
    let expected := repeatingOutcome settings text n.number
    run settings .python (Text.joined closed [productLine text n.toText]) = expected
    ∧ run settings .python
        (Text.joined closed [assignmentLine name n.toText, productLine text name]) = expected
    ∧ run settings .python
        (Text.joined closed [assignmentLine name n.toText.inQuotes, productLine text name]) = expected
    ∧ (∀ source space : Text, n.sign = none → validityFailure? .go source = none →
      space.isBlank = true →
      (Token.ofText .go source).filterMap Token.argument?
        = [Repetition.toText space ⟨text, n.digits⟩] →
      run settings .go source = expected)
    ∧ (settings.outputLimit.toNat ≤ Text.largestSize → ∃ result, expected = .ok result) := by
  intro expected
  have hword := isWord_signedDigits n
  have hproduct := run_product settings closed ht hword n.leading?_toText
  refine ⟨hproduct, ?_, run_quoted settings closed ht hname hword n.read?_toText, ?_, fun hlimit => ?_⟩
  · exact run_named settings closed ht hname hword (ofText_signedDigits n) fun b hb =>
      Bindings.numberOf?_of_number hb
  · intro source space hsign hvalid hspace hsingle
    have htext : n.toText = n.digits := by
      unfold SignedDigits.toText
      rw [hsign]
      rfl
    have hread : Binary64.read? n.digits = some n.number := htext ▸ n.read?_toText
    exact run_repetition settings hvalid ⟨ht.nonempty, ht.quote, n.isDigits⟩ hspace hsingle hread
  · obtain ⟨result, hresult⟩ := exists_run_eq_ok hlimit .python
      (Text.joined closed [productLine text n.toText])
    exact ⟨result, hproduct.symm.trans hresult⟩

/-- A count below zero in three Python programs, and one past the 64-bit words that a Go program
comes to like a Python program does. -/
theorem run_repeatCounts_seven :
    let text := "a (b".toList
    let line (count : Text) : Text := "print(\"a (b\" * ".toList ++ count ++ ")".toList
    let digits := "18446744073709551616".toList
    let source := "package main\nimport \"fmt\"\nimport \"strings\"\nfunc main() \x7b\n\tn := 3\n".toList
      ++ "\tfmt.Println(strings.Repeat(\"a (b\",  ".toList ++ digits ++ "))\n\x7d\n".toList
    let negative : Except Unformed (Except Failure Text) :=
      .ok (.error (.fault "invalid count value: -7".toList))
    let exceeding : Except Unformed (Except Failure Text) :=
      .ok (.error (.fault "output exceeds the limit of 1000 bytes".toList))
    let settings : Settings := { outputLimit := 1000 }
    IsRepeatable text ∧ AssignmentLine.IsName ['n']
    ∧ run settings .python (line "-007".toList) = negative
    ∧ run settings .python ("n = -007\n".toList ++ line ['n']) = negative
    ∧ run settings .python ("n = \"-007\"\n".toList ++ line ['n']) = negative
    ∧ run settings .python (line digits) = exceeding
    ∧ (validityFailure? .go source = none ∧ run settings .go source = exceeding)
    ∧ settings.outputLimit.toNat ≤ Text.largestSize
    ∧ ∃ result, repeatingOutcome settings text (⟨none, digits, by decide⟩ : SignedDigits).number
      = .ok result := by
  intro text line digits source negative exceeding settings
  have ht : IsRepeatable text := ⟨by decide, by decide, by decide, by decide, by decide⟩
  have hname : AssignmentLine.IsName ['n'] := by decide
  have hvalid : validityFailure? .go source = none := by decide +kernel
  let seven : SignedDigits := ⟨some true, "007".toList, by decide⟩
  let word : SignedDigits := ⟨none, digits, by decide⟩
  have hseven : repeatingOutcome settings text seven.number = negative := by decide +kernel
  have hword : repeatingOutcome settings text word.number = exceeding := by decide +kernel
  have hsingle : (Token.ofText .go source).filterMap Token.argument?
      = [Repetition.toText "  ".toList ⟨text, digits⟩] := by decide +kernel
  obtain ⟨hplace, hnumber, htext, -⟩ :=
    run_repeatCounts_exact settings false ht hname seven
  have hlimit : settings.outputLimit.toNat ≤ Text.largestSize := by decide
  obtain ⟨hpython, -, -, hgo, hresult⟩ := run_repeatCounts_exact settings false ht hname word
  rw [hseven] at hplace hnumber htext
  rw [hword] at hpython
  exact ⟨ht, hname, hplace, hnumber, htext, hpython,
    ⟨hvalid, (hgo source "  ".toList rfl hvalid (by decide) hsingle).trans hword⟩, hlimit,
    hresult hlimit⟩

end Program

end Playground
