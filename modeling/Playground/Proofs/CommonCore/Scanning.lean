/-
# Reading statements of the common core

Each statement of the common core stands on a line of its own, and what is read from that line is
the statement that was meant: an assignment with the same value, or a print that does the same.

* `CoreStatement.ofText_operand` : an operand is taken as such in either dialect.
* `CoreStatement.resolve_repeated` : a repetition does the same in either dialect.
* `CoreStatement.alike_ofText` : a program of the common core is read as it is meant.
-/
import Playground.Proofs.AlikeStatements
import Playground.Proofs.CommonCore.Statements
import Playground.Proofs.Number.SignedDigits
import Playground.Proofs.Repetitions

namespace Playground

/-! ## A single line -/

namespace CoreStatement

/-- No call opens in a name. -/
theorem not_infix_name {name : Text} (h : AssignmentLine.IsName name) (d : Dialect) :
    ¬ d.opener <:+: name := by
  have hparen : '(' ∉ name := h.not_mem (by decide)
  intro hpart
  apply hparen
  apply hpart.subset
  cases d <;> decide

/-- No call opens on the line of an assignment. -/
theorem not_infix_line {name value : Text} (hname : AssignmentLine.IsName name) {d : Dialect}
    (hopener : ¬ d.opener <:+: value) : ¬ d.opener <:+: (assignment name value).line d := by
  have hblank : ' ' ∉ d.opener := by cases d <;> decide
  have hoperator : ¬ d.opener <:+: d.operator := by cases d <;> decide
  intro hpart
  have hsplit : (assignment name value).line d = name ++ ' ' :: (d.operator ++ ' ' :: value) := by
    rw [line, List.append_assoc, List.cons_append]
  rw [hsplit] at hpart
  -- No opener holds a space, so that it lies on one side of either space.
  rcases Text.infix_of_infix_append_cons hblank hpart with hfront | hrest
  · exact not_infix_name hname d hfront
  · rcases Text.infix_of_infix_append_cons hblank hrest with hmiddle | hvalue
    · exact hoperator hmiddle
    · exact hopener hvalue

/-- In Go a repetition is written with a single space. -/
theorem repeated_go_eq_toText (text count : Text) :
    repeated text count .go = Repetition.toText [' '] ⟨text, count⟩ := by
  rw [repeated_go]
  unfold Repetition.toText Repetition.opener
  simp only [List.append_assoc]
  rfl

/-- The argument of a repetition closes its call. -/
theorem closes_repeated {text count : Text} (hclose : ')' ∉ text)
    (hcount : Text.isDigits count = true) (d : Dialect) :
    Call.Closes d (repeated text count d) [] := by
  cases d with
  | python =>
    have hdigits := Text.not_mem_of_isDigits (c := ')') hcount (by decide)
    show ')' ∉ repeated text count .python
    simp [repeated_python, hclose, hdigits]
  | go =>
    rw [repeated_go_eq_toText]
    exact Call.closes_toText hcount rfl hclose []

/-! ## The argument of a print -/

/-- An operand is taken as such in either dialect. -/
theorem ofText_operand {argument : Text} (hstar : '*' ∉ argument)
    (hrepeat : ¬ Argument.repeatName <:+: argument) (d : Dialect) :
    Argument.ofText d argument = .operand (Operand.ofText argument.trim) := by
  cases d with
  | python => exact Argument.ofText_python hstar
  | go => exact Argument.ofText_go hrepeat

/-- In Python a repetition is a product. -/
theorem ofText_repeated_python {text count : Text} (hstar : '*' ∉ text)
    (hcount : Text.isDigits count = true) :
    Argument.ofText .python (repeated text count .python)
      = .product ⟨text.inQuotes, text⟩ (Operand.ofText count) := by
  have hquotes : repeated text count .python = text.inQuotes ++ " * ".toList ++ count := by
    rw [repeated_python]
    unfold Text.inQuotes
    simp only [List.append_assoc]
    rfl
  obtain ⟨hne, hdigits⟩ := Text.isDigits_iff.1 hcount
  rw [hquotes, Argument.ofText_product hstar hne fun c hc => Text.isSpace_of_isDigit (hdigits c hc)]

/-- In Go a repetition is recognised. -/
theorem ofText_repeated_go {text count : Text} (hne : text ≠ []) (hquote : '"' ∉ text)
    (hcount : Text.isDigits count = true) :
    Argument.ofText .go (repeated text count .go) = .repetition ⟨text, count⟩ := by
  rw [repeated_go_eq_toText]
  exact Argument.ofText_toText ⟨hne, hquote, hcount⟩ rfl

/-- A count does not begin as a name. -/
theorem startsName_digits {count : Text} (h : Text.isDigits count = true) :
    AssignmentLine.startsName count = false := by
  obtain ⟨hne, hdigits⟩ := Text.isDigits_iff.1 h
  obtain ⟨c, s, rfl⟩ := List.exists_cons_of_ne_nil hne
  have hdigit := Text.isDigit_iff_toNat.1 (hdigits c List.mem_cons_self)
  show (c.isAlpha || decide (c = '_')) = false
  rw [← Bool.not_eq_true, Bool.or_eq_true, decide_eq_true_iff, Text.isAlpha_iff,
    Text.isUpper_iff_toNat, Text.isLower_iff_toNat]
  rintro (halpha | rfl)
  · omega
  · exact absurd hdigit (by decide)

/-- **A repetition does the same** in either dialect. -/
theorem resolve_repeated {text count : Text} (hne : text ≠ []) (hquote : '"' ∉ text)
    (hstar : '*' ∉ text) (hcount : Text.isDigits count = true) (d : Dialect) {b : Bindings}
    (hb : b.BindsNames) : (Argument.ofText d (repeated text count d)).resolve b
      = (Argument.repetition ⟨text, count⟩).resolve b := by
  let n := SignedDigits.ofDigits hcount
  rw [Argument.resolve_repetition (r := ⟨text, count⟩) n.read?_toText]
  cases d with
  | python =>
    -- Neither operand names a variable, so that the text and the digits stand for themselves.
    have htext : b.textOf ⟨text.inQuotes, text⟩ = .ok text :=
      Bindings.textOf_of_unbound (Bindings.get?_eq_none hb rfl)
    have htrim : Text.trim count = count := Text.trim_of_no_space fun c hc => n.isSpace_of_mem hc
    have hbound : b.get? (Operand.ofText count).text = none := by
      show b.get? (Text.trim count) = none
      rw [htrim]
      exact Bindings.get?_eq_none hb (startsName_digits hcount)
    have hnumber : b.numberOf? (Operand.ofText count) = some n.number := by
      rw [Bindings.numberOf?_of_unbound hbound]
      show Binary64.leading? (Text.trim count) = _
      rw [htrim]
      exact n.leading?_toText
    rw [ofText_repeated_python hstar hcount, Argument.resolve_product htext hnumber]
  | go =>
    rw [ofText_repeated_go hne hquote hcount]
    exact Argument.resolve_repetition n.read?_toText

/-! ## A whole program -/

/-- **The line of a statement** is read as the statement that was meant. -/
theorem alike_ofLine (d : Dialect) (number : UInt32) {st : CoreStatement} (h : Valid st) :
    ∃ s, Statement.ofLine d number (st.line d) = [s] ∧ Statement.Alike s st.meant := by
  cases h with
  | @assignment name value hname hblank hnewline hopener =>
    have hcalls := CallSplit.ofLine_of_not_infix (not_infix_line hname (hopener d))
    have hline : (assignment name value).line d = name ++ ' ' :: d.operator ++ ' ' :: value := rfl
    obtain ⟨a, ha, hnamed, hassigned⟩ := Statement.ofLine_assignment hname hline hcalls number
    exact ⟨.assignment a, ha, .assignment hnamed hassigned⟩
  | @print argument hnewline hclose hstar hrepeat =>
    have hcloses : Call.Closes d argument [] := by
      cases d with
      | python => exact hclose
      | go => exact Or.inl ⟨hclose, fun _ => List.not_mem_nil⟩
    obtain ⟨span, hline⟩ := Statement.ofLine_call hcloses number
    refine ⟨_, hline, .print fun b hb => ?_⟩
    rw [ofText_operand hstar hrepeat d]
  | @repetition text count hne hnewline hquote hclose hstar hcount =>
    obtain ⟨span, hline⟩ := Statement.ofLine_call (closes_repeated hclose hcount d) number
    exact ⟨_, hline, .print fun b hb => resolve_repeated hne hquote hstar hcount d hb⟩

/-- Nothing is read from what a program begins with. -/
theorem ofLine_header {d : Dialect} {line : Text} (h : line ∈ header d) (number : UInt32) :
    Statement.ofLine d number line = [] := by
  have hcalls : ∀ line ∈ header d,
      Call.next? d line = none ∧ AssignmentLine.read? d line = none := by
    cases d <;> decide
  obtain ⟨hnext, hread⟩ := hcalls line h
  have hsplit := CallSplit.isSplit_iff.1 (CallSplit.isSplit_nil_iff.2 ⟨rfl, hnext⟩)
  unfold Statement.ofLine Token.ofLine Token.ofAssignment?
  rw [hread, ← hsplit]
  rfl

theorem flatMap_header (d : Dialect) (lines : List Text) (first : Nat) :
    ((header d ++ lines).zipIdx first).flatMap (fun numbered =>
        Statement.ofLine d (UInt32.ofNat numbered.2) numbered.1)
      = (lines.zipIdx (first + (header d).length)).flatMap fun numbered =>
        Statement.ofLine d (UInt32.ofNat numbered.2) numbered.1 := by
  rw [List.zipIdx_append, List.flatMap_append]
  have hnil : ((header d).zipIdx first).flatMap (fun numbered =>
      Statement.ofLine d (UInt32.ofNat numbered.2) numbered.1) = [] := by
    rw [List.flatMap_eq_nil_iff]
    intro numbered hmem
    exact ofLine_header (List.fst_mem_of_mem_zipIdx hmem) _
  rw [hnil, List.nil_append]

/-- **A program of the common core** is read as it is meant. -/
theorem alike_ofText (d : Dialect) (closed : Bool) {statements : List CoreStatement}
    (hne : statements ≠ []) (h : ∀ st ∈ statements, Valid st) :
    List.Forall₂ Statement.Alike (Program.ofText d (text d closed statements)).statements
      (statements.map meant) := by
  obtain ⟨read, hlines, hvalid, hmeant⟩ := exists_lines d closed hne h
  rw [Program.statements_ofText, Text.countedLines, hlines, List.flatMap_map, ← hmeant]
  dsimp only
  rw [flatMap_header]
  exact Statement.alike_lines d (fun st hst number => alike_ofLine d number (hvalid st hst)) _

end CoreStatement

end Playground
