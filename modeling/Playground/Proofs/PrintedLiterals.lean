/-
# Printed texts

A program that prints texts writes each of them between quotes, or it gives the text a name, on a
line of its own, and prints the name.  Either way every text comes out as it stands in the program,
whatever quotes, spaces, operators or openers it holds, and so a run tells nothing of the names.

* `outcome_of_lines` : the outcome of a program that writes known lines.
* `LiteralLine.alike_ofLine` : each line of such a program is read as it is meant.
* `Prints.name_text` : in a program that prints texts one more of them may be named.
* `Prints.run_eq` : what a program that prints texts comes to.
* `run_literals_exact` : printed texts come out unchanged, and naming them changes nothing.
-/
import Playground.Proofs.AlikeStatements
import Playground.Proofs.FinalBindings
import Playground.Proofs.PythonValidity

namespace Playground

/-! ## Programs that write known lines -/

/-- A program that writes `lines` comes to them if they keep within the limit and can be formed, and
fails with the limit otherwise. -/
theorem outcome_of_lines {settings : Settings} (h : settings.outputLimit.toNat < maxWord)
    {p : Program} (hresolved : ∀ q ∈ p.prints, q.argument.fault? p.bindings = none)
    {lines : List Text}
    (hlines : p.prints.filterMap (fun q => (q.argument.exact p.bindings).wholeLine?) = lines)
    (hne : lines ≠ []) :
    outcome settings (p.evaluate settings.outputLimit)
      = if (Text.unlines lines).utf8Size ≤ settings.outputLimit.toNat
        then (Text.formed (Text.unlines lines)).map .ok
        else .ok (.error (.ofFault (.outputLimit settings.outputLimit))) := by
  have hwhole : (p.prints.map fun q => q.argument.exact p.bindings).filterMap Printout.wholeLine?
      = lines := by
    rw [List.filterMap_map]
    exact hlines
  have hsize : (Text.unlines lines).utf8Size = totalCost p.bindings p.prints := by
    rw [← hwhole, Printout.utf8Size_unlines, sum_map_cost]
  rw [Program.evaluate_of_resolved h hresolved, hsize]
  split
  · next htotal =>
    show Except.map _ (Transcript.output? _) = _
    rw [Transcript.output?_recorded p.bindings (htotal.trans (Nat.le_of_lt h)),
      Printout.output?_eq, hwhole, if_neg hne, sum_map_cost, Text.formed, hsize]
    split <;> rfl
  · rfl

/-! ## The lines of a program that prints texts -/

/-- A line of a program that prints texts. -/
inductive LiteralLine
  /-- Prints a text. -/
  | quoted (s : Text)
  /-- Prints a text by its name. -/
  | byName (name s : Text)
  /-- Gives a text its name. -/
  | naming (name s : Text)
  deriving DecidableEq

namespace LiteralLine

open AssignmentLine (IsName)

/-- The line as it is written: `print("s")`, `print(name)` or `name = "s"`. -/
def line : LiteralLine → Text
  | quoted s => Dialect.python.opener ++ s.inQuotes ++ [')']
  | byName name _ => Dialect.python.opener ++ name ++ [')']
  | naming name s => name ++ ' ' :: Dialect.python.operator ++ ' ' :: s.inQuotes

/-- The text that is printed. -/
def printed? : LiteralLine → Option Text
  | quoted s => some s
  | byName _ s => some s
  | naming _ _ => none

/-- The name that stands for a printed text, with that text. -/
def used? : LiteralLine → Option (Text × Text)
  | byName name s => some (name, s)
  | _ => none

/-- The name that is given to a text, with that text. -/
def named? : LiteralLine → Option (Text × Text)
  | naming name s => some (name, s)
  | _ => none

/-- The assignment of a text to a name, at no place. -/
def assignmentOf (entry : Text × Text) : Assignment :=
  ⟨entry.1, Span.ofPlace 0 0, .value (.text entry.2), Span.ofPlace 0 0⟩

/-- The statement that is meant, at no place. -/
def meant : LiteralLine → Statement
  | quoted s => .print ⟨.operand ⟨s.inQuotes, s⟩, Span.ofPlace 0 0⟩
  | byName name _ => .print ⟨.operand ⟨name, name⟩, Span.ofPlace 0 0⟩
  | naming name s => .assignment (assignmentOf (name, s))

/-- A text can be printed as it stands. -/
structure IsPlain (s : Text) : Prop where
  /-- It stands on one line. -/
  newline : '\n' ∉ s
  /-- It closes no call. -/
  close : ')' ∉ s
  /-- It repeats nothing. -/
  star : '*' ∉ s

/-- The text of a line can be printed, and its name is one. -/
inductive Valid : LiteralLine → Prop
  /-- A text between quotes. -/
  | quoted {s : Text} (hs : IsPlain s) : Valid (quoted s)
  /-- A name for a text. -/
  | byName {name s : Text} (hname : IsName name) : Valid (byName name s)
  /-- A text that is named. -/
  | naming {name s : Text} (hname : IsName name) (hs : IsPlain s) : Valid (naming name s)

/-! ## Reading a line -/

theorem not_mem_inQuotes {c : Char} {s : Text} (h : c ∉ s) (hc : c ≠ '"') : c ∉ s.inQuotes := by
  unfold Text.inQuotes
  simp [h, hc]

theorem not_mem_naming {c : Char} {name s : Text} (hc : c ∉ [' ', '=', '"']) (hname : c ∉ name)
    (hs : c ∉ s) : c ∉ (naming name s).line := by
  simp only [List.mem_cons, List.not_mem_nil, or_false, not_or] at hc
  have hoperator : Dialect.python.operator = ['='] := by decide
  rw [line, hoperator]
  simp [hc, hname, not_mem_inQuotes hs hc.2.2]

/-- **A line is read as it is meant.** -/
theorem alike_ofLine (number : UInt32) {l : LiteralLine} (h : Valid l) :
    ∃ s, Statement.ofLine .python number l.line = [s] ∧ Statement.Alike s l.meant := by
  cases h with
  | @quoted s hs =>
    have hcloses : Call.Closes .python s.inQuotes [] := not_mem_inQuotes hs.close (by decide)
    have hstar : '*' ∉ s.inQuotes := not_mem_inQuotes hs.star (by decide)
    obtain ⟨span, hline⟩ := Statement.ofLine_call hcloses number
    refine ⟨_, hline, .print fun b _ => ?_⟩
    rw [Argument.ofText_python hstar, Text.trim_inQuotes, Operand.ofText_inQuotes]
  | @byName name s hname =>
    have hcloses : Call.Closes .python name [] := hname.not_mem (by decide)
    have hstar : '*' ∉ name := hname.not_mem (by decide)
    obtain ⟨span, hline⟩ := Statement.ofLine_call hcloses number
    refine ⟨_, hline, .print fun b _ => ?_⟩
    rw [Argument.ofText_python hstar, hname.trim_eq, Operand.ofText_name hname]
  | @naming name s hname hs =>
    have hclose : ')' ∉ (naming name s).line :=
      not_mem_naming (by decide) (hname.not_mem (by decide)) hs.close
    have hcalls := CallSplit.ofLine_of_not_mem .python hclose
    obtain ⟨a, ha, hnamed, hassigned⟩ := Statement.ofLine_assignment hname rfl hcalls number
    rw [Text.trim_inQuotes, Assigned.ofText_inQuotes] at hassigned
    exact ⟨.assignment a, ha, .assignment hnamed hassigned⟩

/-- The line that names a text ends with a quote. -/
theorem line_naming_concat (name s : Text) : (naming name s).line
    = (name ++ ' ' :: Dialect.python.operator ++ ' ' :: '"' :: s) ++ ['"'] := by
  rw [line, Text.inQuotes]
  simp only [List.append_assoc, List.cons_append]

/-- No line assigns only spaces, since each ends with a quote or a parenthesis. -/
theorem not_assignsSpaces_line (l : LiteralLine) : ¬ AssignsSpaces l.line := by
  cases l with
  | quoted s => exact not_assignsSpaces_concat _ (by decide)
  | byName name s => exact not_assignsSpaces_concat _ (by decide)
  | naming name s =>
    rw [line_naming_concat]
    exact not_assignsSpaces_concat _ (by decide)

/-- A parenthesis closes on a line that prints. -/
theorem close_mem_line {l : LiteralLine} {s : Text} (h : l.printed? = some s) : ')' ∈ l.line := by
  cases l with
  | quoted s => exact List.mem_append_right _ (List.mem_singleton_self _)
  | byName name s => exact List.mem_append_right _ (List.mem_singleton_self _)
  | naming name s => exact nomatch h

/-- A newline behind a line does not change it. -/
theorem line_stays {l : LiteralLine} (h : Valid l) :
    l.line ≠ [] ∧ '\n' ∉ l.line ∧ Text.withoutReturn l.line = l.line := by
  have hopener : '\n' ∉ Dialect.python.opener := by decide
  -- A call ends with a parenthesis.
  have hcall : ∀ argument : Text, '\n' ∉ argument →
      Dialect.python.opener ++ argument ++ [')'] ≠ []
        ∧ '\n' ∉ Dialect.python.opener ++ argument ++ [')']
        ∧ Text.withoutReturn (Dialect.python.opener ++ argument ++ [')'])
          = Dialect.python.opener ++ argument ++ [')'] := fun argument hargument =>
    ⟨by simp, by simp [hopener, hargument], Text.withoutReturn_concat (by decide)⟩
  cases h with
  | quoted hs => exact hcall _ (not_mem_inQuotes hs.newline (by decide))
  | byName hname => exact hcall _ (hname.not_mem (by decide))
  | naming hname hs =>
    refine ⟨?_, not_mem_naming (by decide) (hname.not_mem (by decide)) hs.newline, ?_⟩
    · rw [line_naming_concat]
      exact List.append_ne_nil_of_right_ne_nil _ (List.cons_ne_nil _ _)
    · rw [line_naming_concat]
      exact Text.withoutReturn_concat (by decide)

end LiteralLine

/-! ## Programs that print texts -/

open LiteralLine

/-- The lines of a program print the texts `literals`, in this order.  For some of them stand names,
no two of which are the same, and each of these names is given its text on one line, wherever that
stands. -/
structure Prints (lines : List LiteralLine) (literals : List Text) : Prop where
  /-- The texts are printed. -/
  printed : lines.filterMap printed? = literals
  /-- What stands for a text is a name. -/
  names : ∀ entry ∈ lines.filterMap used?, AssignmentLine.IsName entry.1
  /-- No name stands for two texts. -/
  distinct : ((lines.filterMap used?).map Prod.fst).Nodup
  /-- Each name is given the text that it stands for, and no other name is given. -/
  named : (lines.filterMap named?).Perm (lines.filterMap used?)

/-- The program that such lines mean. -/
def LiteralLine.program (lines : List LiteralLine) : Program := ⟨.python, lines.map meant⟩

/-- Texts between quotes are printed without any names. -/
theorem prints_map_quoted (literals : List Text) : Prints (literals.map quoted) literals := by
  have hprinted : (literals.map quoted).filterMap printed? = literals := by
    rw [List.filterMap_map]
    exact List.filterMap_some
  have hused : (literals.map quoted).filterMap used? = [] := by
    rw [List.filterMap_map]
    exact List.filterMap_none literals
  have hnamed : (literals.map quoted).filterMap named? = [] := by
    rw [List.filterMap_map]
    exact List.filterMap_none literals
  refine ⟨hprinted, ?_, ?_, ?_⟩
  · rw [hused]
    exact fun entry hentry => absurd hentry List.not_mem_nil
  · rw [hused]
    exact List.nodup_nil
  · rw [hnamed, hused]

namespace Prints

variable {lines : List LiteralLine} {literals : List Text}

/-- **One more text may be named** by a name that is not used yet, with the line that gives the text
its name at any place. -/
theorem name_text {before after front back : List LiteralLine} {name s : Text}
    (h : Prints (before ++ quoted s :: after) literals) (hname : AssignmentLine.IsName name)
    (hfresh : name ∉ ((before ++ after).filterMap used?).map Prod.fst)
    (hplace : before ++ byName name s :: after = front ++ back) :
    Prints (front ++ naming name s :: back) literals := by
  -- Apart from their order the lines are those that stay, the print and the new line.
  have hlines : (front ++ naming name s :: back).Perm
      (naming name s :: byName name s :: (before ++ after)) := by
    refine List.perm_middle.trans (List.Perm.cons _ ?_)
    rw [← hplace]
    exact List.perm_middle
  have hused := hlines.filterMap used?
  have hnamed := hlines.filterMap named?
  have hdistinct := h.distinct
  have hbefore := h.named
  have hnames := h.names
  -- A print between quotes uses no name and gives none.
  have hquoted : ∀ f : LiteralLine → Option (Text × Text), f (quoted s) = none →
      (before ++ quoted s :: after).filterMap f = (before ++ after).filterMap f := by
    intro f hf
    rw [List.filterMap_append, List.filterMap_append, List.filterMap_cons_none hf]
  rw [hquoted used? rfl] at hdistinct hbefore hnames
  rw [hquoted named? rfl] at hbefore
  refine ⟨?_, ?_, ?_, ?_⟩
  · have hprinted := congrArg (List.filterMap printed?) hplace
    rw [List.filterMap_append, List.filterMap_append] at hprinted
    rw [← h.printed, List.filterMap_append, List.filterMap_append]
    exact hprinted.symm
  · intro entry hentry
    rcases List.mem_cons.1 (hused.mem_iff.1 hentry) with rfl | hmem
    · exact hname
    · exact hnames entry hmem
  · apply (hused.map Prod.fst).nodup_iff.2
    exact List.nodup_cons.2 ⟨hfresh, hdistinct⟩
  · exact hnamed.trans ((hbefore.cons (name, s)).trans hused.symm)

/-- Every line can be read. -/
theorem valid (h : Prints lines literals) (hplain : ∀ s ∈ literals, IsPlain s) :
    ∀ l ∈ lines, Valid l := by
  have hprinted : ∀ l ∈ lines, ∀ s, l.printed? = some s → IsPlain s := by
    intro l hl s hs
    apply hplain
    rw [← h.printed]
    exact List.mem_filterMap.2 ⟨l, hl, hs⟩
  intro l hl
  cases l with
  | quoted s => exact .quoted (hprinted _ hl s rfl)
  | byName name s => exact .byName (h.names (name, s) (List.mem_filterMap.2 ⟨_, hl, rfl⟩))
  | naming name s =>
    -- The name is used for a text that is printed.
    have hused : (name, s) ∈ lines.filterMap used? :=
      h.named.mem_iff.1 (List.mem_filterMap.2 ⟨_, hl, rfl⟩)
    obtain ⟨l', hl', heq⟩ := List.mem_filterMap.1 hused
    cases l' with
    | byName name' s' =>
      obtain ⟨rfl, rfl⟩ := Prod.mk.inj (Option.some.inj heq)
      exact .naming (h.names _ hused) (hprinted _ hl' s' rfl)
    | quoted s' => exact nomatch heq
    | naming name' s' => exact nomatch heq

/-- The assignments are those of the names to their texts. -/
theorem assignments_program (lines : List LiteralLine) :
    (program lines).assignments = (lines.filterMap named?).map assignmentOf := by
  show (lines.map meant).filterMap Statement.assignment? = _
  rw [List.filterMap_map, List.map_filterMap]
  congr 1
  funext l
  cases l <;> rfl

/-- A name is bound to the text that it stands for. -/
theorem get?_bindings (h : Prints lines literals) {name s : Text}
    (hmem : (name, s) ∈ lines.filterMap used?) :
    (program lines).bindings.get? name = some (.text s) := by
  have hnames : ((program lines).assignments.map Assignment.name).Nodup := by
    rw [assignments_program, List.map_map]
    exact (h.named.map Prod.fst).nodup_iff.2 h.distinct
  have hassigned : assignmentOf (name, s) ∈ (program lines).assignments := by
    rw [assignments_program]
    exact List.mem_map_of_mem (h.named.mem_iff.2 hmem)
  unfold Program.bindings
  rw [Bindings.get?_ofAssignments]
  exact lastValue?_of_nodup hnames hassigned

/-- Only names are assigned to. -/
theorem startsName_of_mem_assignments (h : Prints lines literals) :
    ∀ a ∈ (program lines).assignments, AssignmentLine.startsName a.name = true := by
  rw [assignments_program, List.forall_mem_map]
  intro entry hentry
  exact (h.names entry (h.named.mem_iff.1 hentry)).starts

/-- A text between quotes is not the name of anything. -/
theorem get?_inQuotes (h : Prints lines literals) (s : Text) :
    (program lines).bindings.get? s.inQuotes = none := by
  apply Bindings.get?_eq_none _ rfl
  exact Bindings.bindsNames_ofAssignments h.startsName_of_mem_assignments

/-- **Every print writes its text.** -/
theorem wholeLine?_exact (h : Prints lines literals) :
    (program lines).prints.filterMap
        (fun q => (q.argument.exact (program lines).bindings).wholeLine?) = literals := by
  show ((lines.map meant).filterMap Statement.print?).filterMap _ = _
  rw [← h.printed, List.filterMap_filterMap, List.filterMap_map]
  apply List.filterMap_congr
  intro l hl
  cases l with
  | quoted s =>
    show (Bindings.printoutOf _ ⟨s.inQuotes, s⟩).wholeLine? = some s
    unfold Bindings.printoutOf
    rw [h.get?_inQuotes]
    rfl
  | byName name s =>
    have hmem : (name, s) ∈ lines.filterMap used? := List.mem_filterMap.2 ⟨_, hl, rfl⟩
    show (Bindings.printoutOf _ ⟨name, name⟩).wholeLine? = some s
    unfold Bindings.printoutOf
    rw [h.get?_bindings hmem]
    rfl
  | naming name s => rfl

/-- No print has a fault of its own. -/
theorem fault?_eq_none (lines : List LiteralLine) (b : Bindings) :
    ∀ q ∈ (program lines).prints, q.argument.fault? b = none := by
  intro q hq
  obtain ⟨st, hst, hprint⟩ := List.mem_filterMap.1 hq
  obtain ⟨l, -, rfl⟩ := List.mem_map.1 hst
  cases l with
  | quoted s =>
    obtain rfl := Option.some.inj hprint
    rfl
  | byName name s =>
    obtain rfl := Option.some.inj hprint
    rfl
  | naming name s => exact nomatch hprint

/-- Such a program is valid if it prints anything. -/
theorem validityFailure?_eq_none (h : Prints lines literals) (hne : literals ≠ []) {source : Text}
    (hsource : source.lines = lines.map line) : validityFailure? .python source = none := by
  obtain ⟨s, hs⟩ := List.exists_mem_of_ne_nil literals hne
  rw [← h.printed] at hs
  obtain ⟨l, hl, hprinted⟩ := List.mem_filterMap.1 hs
  have hline : l.line ∈ source.lines := by
    rw [hsource]
    exact List.mem_map_of_mem hl
  have hpart := Text.infix_of_mem_lines hline
  apply validityFailure?_python_eq_none (hpart.subset (close_mem_line hprinted))
  rw [hsource, List.forall_mem_map]
  exact fun l _ => not_assignsSpaces_line l

/-- **A program that prints texts** comes to these texts, each with a newline behind it, or fails
with the limit if they are too large. -/
theorem run_eq (h : Prints lines literals) (hne : literals ≠ [])
    (hplain : ∀ s ∈ literals, IsPlain s) {settings : Settings}
    (hlimit : settings.outputLimit.toNat < maxWord) {source : Text}
    (hsource : source.lines = lines.map line) :
    run settings .python source
      = if (Text.unlines literals).utf8Size ≤ settings.outputLimit.toNat
        then (Text.formed (Text.unlines literals)).map .ok
        else .ok (.error (.ofFault (.outputLimit settings.outputLimit))) := by
  have halike : List.Forall₂ Statement.Alike (Program.ofText .python source).statements
      (program lines).statements := by
    rw [Program.statements_ofText, Text.countedLines, hsource, List.flatMap_map]
    exact Statement.alike_lines .python
      (fun l hl number => alike_ofLine number (h.valid hplain l hl)) 1
  unfold run
  rw [h.validityFailure?_eq_none hne hsource]
  dsimp only
  rw [outcome_congr settings halike h.startsName_of_mem_assignments]
  exact outcome_of_lines hlimit (fault?_eq_none lines _) h.wholeLine?_exact hne

end Prints

/-- Printed texts are smaller than a program that prints them between quotes. -/
theorem utf8Size_unlines_le {literals : List Text} {source : Text}
    (hsource : source.lines = literals.map (fun s => (quoted s).line)) :
    (Text.unlines literals).utf8Size ≤ source.utf8Size := by
  refine le_trans ?_ (Text.sum_utf8Size_lines_le source)
  rw [hsource]
  clear hsource
  induction literals with
  | nil => exact le_rfl
  | cons s literals ih =>
    have hline : s.utf8Size + 1 ≤ (quoted s).line.utf8Size := by
      unfold line Text.inQuotes
      simp only [Text.utf8Size_append, Text.utf8Size_cons]
      have hparen : 1 ≤ ')'.utf8Size := by decide
      omega
    rw [Text.utf8Size_unlines_cons, List.map_cons, List.map_cons, List.sum_cons]
    exact Nat.add_le_add hline ih

/-- **Printed texts come out unchanged, and naming them changes nothing.**  A program that prints
texts between quotes, one on each line, comes to these texts with a newline behind each, if they
keep within the limit, and fails with the limit otherwise.  Since they are smaller than the program,
they can be formed where the program can be.  Any program in which names stand for some of the texts,
with one line for each name that gives it its text, before its print or behind it, has the same
outcome.  Such a program can be written, with or without a newline at its end. -/
theorem run_literals_exact {literals : List Text} (hne : literals ≠ [])
    (hplain : ∀ s ∈ literals, '\n' ∉ s ∧ ')' ∉ s ∧ '*' ∉ s) {settings : Settings}
    (hlimit : settings.outputLimit.toNat < maxWord) :
    (∀ source : Text, source.lines = literals.map (fun s => (quoted s).line) →
      run settings .python source
        = (if (Text.unlines literals).utf8Size ≤ settings.outputLimit.toNat
          then (Text.formed (Text.unlines literals)).map .ok
          else .ok (.error (.fault (Fault.outputLimit settings.outputLimit).message)))
      ∧ (source.utf8Size ≤ Text.largestSize → run settings .python source
        = .ok (if (Text.unlines literals).utf8Size ≤ settings.outputLimit.toNat
          then .ok (Text.unlines literals)
          else .error (.fault (Fault.outputLimit settings.outputLimit).message))))
    ∧ ∀ program, Prints program literals →
      (∀ source source' : Text, source.lines = literals.map (fun s => (quoted s).line) →
        source'.lines = program.map line →
        run settings .python source' = run settings .python source)
      ∧ ∀ closed, (Text.joined closed (program.map line)).lines = program.map line := by
  have hplain : ∀ s ∈ literals, IsPlain s := fun s hs =>
    ⟨(hplain s hs).1, (hplain s hs).2.1, (hplain s hs).2.2⟩
  have hquoted := prints_map_quoted literals
  have hlines : ∀ source : Text, source.lines = literals.map (fun s => (quoted s).line) →
      source.lines = (literals.map quoted).map line := fun source hsource => by
    rw [hsource, List.map_map]
    rfl
  refine ⟨fun source hsource => ?_, fun program h => ⟨?_, ?_⟩⟩
  · have hrun := hquoted.run_eq hne hplain hlimit (hlines source hsource)
    refine ⟨hrun, fun hsize => hrun.trans ?_⟩
    rw [Text.formed, if_pos ((utf8Size_unlines_le hsource).trans hsize)]
    split <;> rfl
  · intro source source' hsource hsource'
    rw [h.run_eq hne hplain hlimit hsource',
      hquoted.run_eq hne hplain hlimit (hlines source hsource)]
  · intro closed
    apply Text.lines_joined
    rw [List.forall_mem_map]
    exact fun l hl => line_stays (h.valid hplain l hl)

/-- A text that opens a call and seems to assign, one between single quotes with spaces around them,
and an empty one.  Two of them are named, one behind its print, and 23 bytes are just enough. -/
theorem run_literals_naming :
    let literals := ["y = print(\"b".toList, " '\u3000' \r".toList, []]
    let program := [byName ['y'] "y = print(\"b".toList, quoted " '\u3000' \r".toList,
      naming ['x'] [], byName ['x'] [], naming ['y'] "y = print(\"b".toList]
    let source : Text :=
      "print(\"y = print(\"b\")\r\nprint(\" '\u3000' \r\")\nprint(\"\")".toList
    let enough : Settings := { outputLimit := 23 }
    let tooSmall : Settings := { outputLimit := 22 }
    literals ≠ [] ∧ (∀ s ∈ literals, '\n' ∉ s ∧ ')' ∉ s ∧ '*' ∉ s)
      ∧ (enough.outputLimit.toNat < maxWord ∧ tooSmall.outputLimit.toNat < maxWord)
      ∧ Prints program literals ∧ source.utf8Size ≤ Text.largestSize
      ∧ run enough .python source = .ok (.ok (Text.unlines literals))
      ∧ run enough .python (Text.joined true (program.map line)) = .ok (.ok (Text.unlines literals))
      ∧ run tooSmall .python source
        = .ok (.error (.fault "output exceeds the limit of 22 bytes".toList)) := by
  intro literals program source enough tooSmall
  have hne : literals ≠ [] := by decide
  have hplain : ∀ s ∈ literals, '\n' ∉ s ∧ ')' ∉ s ∧ '*' ∉ s := by decide
  have henough : enough.outputLimit.toNat < maxWord := by decide
  have hsmall : tooSmall.outputLimit.toNat < maxWord := by decide
  have hprints : Prints program literals := by
    refine ⟨by decide, ?_, by decide, by decide⟩
    exact List.forall_mem_cons.2 ⟨by decide, List.forall_mem_singleton.2 (by decide)⟩
  have hfits : (Text.unlines literals).utf8Size ≤ enough.outputLimit.toNat := by decide
  have hexceeds : ¬ (Text.unlines literals).utf8Size ≤ tooSmall.outputLimit.toNat := by decide
  have hmessage : (Fault.outputLimit tooSmall.outputLimit).message
      = "output exceeds the limit of 22 bytes".toList := by decide
  have hsource : source.lines = literals.map (fun s => (quoted s).line) := by decide
  have hsize : source.utf8Size ≤ Text.largestSize := by decide
  obtain ⟨hrun, hnamed⟩ := run_literals_exact hne hplain henough
  obtain ⟨hfails, -⟩ := run_literals_exact hne hplain hsmall
  have houtput : run enough .python source = .ok (.ok (Text.unlines literals)) := by
    rw [(hrun source hsource).2 hsize, if_pos hfits]
  obtain ⟨hsame, hlines⟩ := hnamed program hprints
  refine ⟨hne, hplain, ⟨henough, hsmall⟩, hprints, hsize, houtput, ?_, ?_⟩
  · exact (hsame source _ hsource (hlines true)).trans houtput
  · rw [(hfails source hsource).2 hsize, if_neg hexceeds, hmessage]

end Playground
