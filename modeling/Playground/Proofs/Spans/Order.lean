/-
# The order of tokens

Tokens stand on the page as they are listed: line by line, and on a line the assignment first and then
the calls from left to right, without overlap and within the value of the assignment.

* `Token.length_front_le` : no call begins in front of the value of an assignment.
* `Token.pairwise_precedes_ofLine` : the tokens of a line follow one another.
* `Token.pairwise_precedes_ofText` : the tokens of a text follow one another on the page.
-/
import Playground.Proofs.Spans.Selection

namespace Playground

namespace Token

/-- A token stands in front of another one: on an earlier line, or on the same one, where the other
token is a call, behind a call or within the value of an assignment. -/
inductive Precedes (t u : Token) : Prop
  /-- The other token is on a later line. -/
  | line (line : t.span.startLine < u.span.startLine)
  /-- Both are calls of a line, and their columns follow one another. -/
  | calls {first second : Text} (line : t.span.startLine = u.span.startLine)
      (construct : t.construct = .printCall first) (construct' : u.construct = .printCall second)
      (columns : t.span.endColumn < u.span.startColumn)
  /-- The other one is a call within the value of an assignment, which is at its end. -/
  | value {name value argument : Text} (line : t.span.startLine = u.span.startLine)
      (construct : t.construct = .assignment name value)
      (construct' : u.construct = .printCall argument)
      (start : t.span.endColumn.toNat < u.span.startColumn.toNat + value.length)
      (stop : u.span.endColumn ≤ t.span.endColumn)

/-- The calls of a line follow one another. -/
theorem pairwise_precedes_ofCalls {d : Dialect} {number : UInt32} {before : Text}
    {calls : List Call}
    (hlong : before.length + (calls.flatMap (Call.toText d)).length + 1 < UInt32.size) :
    (ofCalls d number before.length calls).Pairwise Precedes := by
  induction calls generalizing before with
  | nil => exact List.Pairwise.nil
  | cons call calls ih =>
    rw [List.flatMap_cons, List.length_append] at hlong
    have hcall := congrArg List.length (call.toText_eq d)
    rw [List.length_append] at hcall
    rw [ofCalls_cons_eq, List.pairwise_cons]
    refine ⟨?_, ih (by rw [List.length_append]; omega)⟩
    intro u hu
    obtain ⟨front, argument, after, hcalls, rfl⟩ := part_of_mem_ofCalls hu
    have hfront := congrArg List.length hcalls
    have hspelled := List.length_pos_iff.2 (Call.spelled_ne_nil d argument)
    simp only [List.length_append] at hfront
    refine .calls rfl rfl rfl ?_
    rw [UInt32.lt_iff_toNat_lt, Span.toNat_endColumn_ofPart, Span.toNat_startColumn_ofPart]
    all_goals simp only [List.length_append]
    all_goals omega

/-- In front of its value an assignment holds no character that is neither a space nor one of a name
or of the operator. -/
theorem not_mem_front {d : Dialect} {line : Text} {a : AssignmentLine} {c : Char}
    (h : AssignmentLine.IsSplit d line a) (hspace : Text.isSpace c = false)
    (hname : AssignmentLine.isNameChar c = false) (hoperator : c ∉ d.operator) :
    c ∉ a.indent ++ a.name ++ a.gap ++ d.operator := by
  simp only [List.mem_append, not_or]
  exact ⟨⟨⟨Text.not_mem_of_isBlank h.indent hspace, h.name.not_mem hname⟩,
    Text.not_mem_of_isBlank h.gap hspace⟩, hoperator⟩

/-- No call begins in front of the value of an assignment: it would end there, but no parenthesis
stands there, or it would go on behind the operator, but no opener holds an equals sign. -/
theorem length_front_le {d : Dialect} {line before argument after : Text} {a : AssignmentLine}
    (h : AssignmentLine.IsSplit d line a) (hline : line = before ++ Call.spelled d argument ++ after) :
    (a.indent ++ a.name ++ a.gap ++ d.operator).length ≤ before.length := by
  have hwhole : before ++ (Call.spelled d argument ++ after)
      = (a.indent ++ a.name ++ a.gap ++ d.operator) ++ a.value := by
    rw [← List.append_assoc, ← hline]
    exact h.whole.symm
  have hparen : '(' ∉ a.indent ++ a.name ++ a.gap ++ d.operator :=
    not_mem_front h (by decide) (by decide) (by cases d <;> decide)
  have hlast : (a.indent ++ a.name ++ a.gap ++ d.operator).getLast? = some '=' := by
    rw [List.getLast?_append_of_ne_nil _ (by cases d <;> decide)]
    cases d <;> rfl
  rcases List.append_eq_append_iff.1 hwhole with ⟨rest, hfront, hrest⟩ | ⟨rest, hbefore, -⟩
  · rw [hfront] at hparen hlast ⊢
    by_cases hnil : rest = []
    · rw [hnil, List.append_nil]
    · rw [List.getLast?_append_of_ne_nil before hnil] at hlast
      unfold Call.spelled at hrest
      rw [List.append_assoc, List.append_assoc] at hrest
      rcases List.append_eq_append_iff.1 hrest with ⟨more, hmore, -⟩ | ⟨more, hmore, -⟩
      · -- The whole opener stands in front of the value.
        have hmem : '(' ∈ d.opener := by cases d <;> decide
        rw [hmore] at hparen
        exact absurd (by simp [hmem]) hparen
      · -- The opener goes on behind the operator.
        have hequals : '=' ∉ d.opener := by cases d <;> decide
        rw [hmore] at hequals
        exact absurd (List.mem_append_left more (List.mem_of_getLast? hlast)) hequals
  · rw [hbefore]
    exact (List.prefix_append _ rest).length_le

/-- The tokens of a line follow one another, the assignment first. -/
theorem pairwise_precedes_ofLine {d : Dialect} {number : UInt32} {line : Text}
    (hlong : line.length + 1 < UInt32.size) : (ofLine d number line).Pairwise Precedes := by
  unfold ofLine
  rw [List.pairwise_append]
  refine ⟨?_, ?_, ?_⟩
  · cases ofAssignment? d number line with
    | none => exact List.Pairwise.nil
    | some t => exact List.pairwise_singleton Precedes t
  · have hline := congrArg List.length (CallSplit.toText_ofLine d line)
    unfold CallSplit.toText at hline
    rw [List.length_append] at hline
    refine @pairwise_precedes_ofCalls d number [] _ ?_
    rw [List.length_nil]
    omega
  · intro t ht u hu
    obtain ⟨a, hsplit, rfl⟩ := ofAssignment?_eq_some (Option.mem_toList.1 ht)
    obtain ⟨before, argument, after, hline, rfl⟩ := part_of_mem_calls hu
    have hfront := length_front_le hsplit hline
    have hwhole := congrArg List.length hsplit.whole
    have hparts := congrArg List.length hline
    have hspelled := congrArg List.length (a.toText_eq d)
    have hcall := List.length_pos_iff.2 (Call.spelled_ne_nil d argument)
    unfold AssignmentLine.toText at hwhole hspelled
    simp only [List.length_append] at hfront hwhole hparts hspelled
    refine .value rfl rfl rfl ?_ ?_
    · rw [Span.toNat_endColumn_ofPart, Span.toNat_startColumn_ofPart]
      all_goals omega
    · rw [UInt32.le_iff_toNat_le, Span.toNat_endColumn_ofPart, Span.toNat_endColumn_ofPart]
      all_goals omega

end Token

/-- The numbers of lines grow. -/
theorem Text.pairwise_countedLines {s : Text} (hcount : s.lines.length + 1 < UInt32.size) :
    s.countedLines.Pairwise fun x y => x.1 < y.1 := by
  have hfrom : ∀ (lines : List Text) (first : Nat), first + lines.length < UInt32.size →
      ((lines.zipIdx first).map fun numbered => (UInt32.ofNat numbered.2, numbered.1)).Pairwise
        fun x y => x.1 < y.1 := by
    intro lines
    induction lines with
    | nil => exact fun _ _ => List.Pairwise.nil
    | cons line rest ih =>
      intro first hfirst
      rw [List.length_cons] at hfirst
      rw [List.zipIdx_cons, List.map_cons, List.pairwise_cons]
      refine ⟨?_, ih (first + 1) (by omega)⟩
      intro later hlater
      obtain ⟨⟨l, i⟩, hmem, rfl⟩ := List.mem_map.1 hlater
      obtain ⟨hlow, hhigh, -⟩ := List.mem_zipIdx hmem
      rw [UInt32.lt_iff_toNat_lt, UInt32.toNat_ofNat_of_lt' (by omega),
        UInt32.toNat_ofNat_of_lt' (by dsimp only; omega)]
      exact hlow
  exact hfrom s.lines 1 (by omega)

/-- **The tokens of a text** follow one another on the page. -/
theorem Token.pairwise_precedes_ofText {d : Dialect} {s : Text}
    (hcount : s.lines.length + 1 < UInt32.size)
    (hlong : ∀ line ∈ s.lines, line.length + 1 < UInt32.size) :
    (ofText d s).Pairwise Precedes := by
  unfold ofText
  rw [List.pairwise_append, List.pairwise_flatMap]
  refine ⟨⟨?_, ?_⟩, List.pairwise_singleton _ _, ?_⟩
  · rintro ⟨number, line⟩ hnumbered
    exact pairwise_precedes_ofLine (hlong line (Text.mem_lines_of_mem_countedLines hnumbered))
  · refine (Text.pairwise_countedLines hcount).imp ?_
    intro x y hlt t ht u hu
    refine .line ?_
    rw [(line_of_mem_ofLine ht).1, (line_of_mem_ofLine hu).1]
    exact hlt
  · intro t ht u hu
    obtain ⟨⟨number, line⟩, hnumbered, htoken⟩ := List.mem_flatMap.1 ht
    obtain rfl := List.mem_singleton.1 hu
    have hle := Text.toNat_le_of_mem_countedLines (by omega) hnumbered
    refine .line ?_
    rw [(line_of_mem_ofLine htoken).1]
    show number < UInt32.ofNat (s.lines.length + 1)
    rw [UInt32.lt_iff_toNat_lt, UInt32.toNat_ofNat_of_lt' hcount]
    exact Nat.lt_succ_of_le hle

end Playground
