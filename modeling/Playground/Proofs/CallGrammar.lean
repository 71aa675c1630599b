/-
# The grammar of print calls

A line is written as calls with text around them: no opener stands in the text in front of a call,
and behind the last call no opener is followed by a closing parenthesis.  A call closes at the first
parenthesis, or in Go at the second one if its argument repeats a text and a second one is there.
A line can be written in this form in exactly one way, and the scanner finds it.

* `Call.next?_eq_some_iff`, `Call.next?_eq_none_iff` : what one step of the scanner says.
* `CallSplit.isSplit_iff` : the form of a line is what the scanner makes of it.
* `Token.arguments_exact` : the print calls among the tokens of a line.
-/
import Playground.Proofs.Text.LineEnds
import Playground.Proofs.Text.Occurrence
import Playground.Token

namespace Playground

/-! ## The grammar -/

/-- A call with this argument closes right behind it, where `rest` goes on.  In Python the argument
holds no parenthesis that closes.  In Go it holds none, and if it repeats a text then none follows
either, or it holds a single one that closes a repetition inside of it. -/
def Call.Closes (d : Dialect) (argument rest : Text) : Prop :=
  match d with
  | .python => ')' ∉ argument
  | .go =>
    (')' ∉ argument ∧ (repeatOpener <:+: argument → ')' ∉ rest))
      ∨ ∃ inner more, argument = inner ++ ')' :: more ∧ ')' ∉ inner ∧ ')' ∉ more
        ∧ repeatOpener <:+: inner

/-- A line is written as calls and the text around them. -/
structure CallSplit.IsSplit (d : Dialect) (line : Text) (split : CallSplit) : Prop where
  /-- The calls and the text around them, put together, are the line. -/
  whole : split.toText d = line
  /-- No opener stands in front of a call but its own. -/
  gaps : ∀ call ∈ split.calls, ¬ d.opener <:+: call.gap
  /-- No opener behind the last call is followed by a closing parenthesis. -/
  tail : ∀ before after, split.tail = before ++ d.opener ++ after → ')' ∉ after
  /-- Every call closes behind its argument. -/
  closes : ∀ before call after, split.calls = before ++ call :: after →
    Call.Closes d call.argument (CallSplit.toText d ⟨after, split.tail⟩)

/-! ## One step of the scanner -/

/-- An opener does not overlap with itself, since a parenthesis opens only at its end. -/
theorem Dialect.opener_unbordered (d : Dialect) : Text.Unbordered d.opener := by
  cases d with
  | python => exact @Text.unbordered_concat "print".toList '(' (by decide)
  | go => exact @Text.unbordered_concat "fmt.Println".toList '(' (by decide)

namespace Call

theorem nests_go_iff {argument : Text} :
    nests .go argument = true ↔ repeatOpener <:+: argument := Text.includes_iff

/-- From the first parenthesis that closes in a call, the scanner goes on to the place where the
grammar closes it. -/
theorem close_eq_iff {d : Dialect} {first rest argument rest' : Text} (hfirst : ')' ∉ first) :
    close d first rest = (argument, rest') ↔
      first ++ ')' :: rest = argument ++ ')' :: rest' ∧ Closes d argument rest' := by
  cases d with
  | python =>
    show (first, rest) = (argument, rest') ↔ _ ∧ ')' ∉ argument
    constructor
    · intro h
      obtain ⟨rfl, rfl⟩ := Prod.mk.inj h
      exact ⟨rfl, hfirst⟩
    · rintro ⟨h, hargument⟩
      obtain ⟨rfl, rfl⟩ := (Text.append_cons_inj hfirst hargument).1 h
      rfl
  | go =>
    constructor
    · intro h
      refine ⟨?_, ?_⟩
      · rw [← append_close .go first rest, h]
      · unfold close at h
        split at h
        · next more rest'' hnests hcut =>
          obtain ⟨rfl, rfl⟩ := Prod.mk.inj h
          exact Or.inr ⟨first, more, rfl, hfirst, (Text.cut?_char_eq_some_iff.1 hcut).2,
            nests_go_iff.1 hnests⟩
        · next hnot =>
          obtain ⟨rfl, rfl⟩ := Prod.mk.inj h
          refine Or.inl ⟨hfirst, fun hopener => ?_⟩
          rw [← Text.cut?_char_eq_none_iff, Option.eq_none_iff_forall_ne_some]
          rintro ⟨more, rest''⟩ hcut
          exact hnot more rest'' (nests_go_iff.2 hopener) hcut
    · rintro ⟨h, ⟨hargument, hnone⟩ | ⟨inner, more, rfl, hinner, hmore, hopener⟩⟩
      · obtain ⟨rfl, rfl⟩ := (Text.append_cons_inj hfirst hargument).1 h
        unfold close
        split
        · next more rest'' hnests hcut =>
          have hcut' := Text.cut?_char_eq_none_iff.2 (hnone (nests_go_iff.1 hnests))
          exact absurd (hcut.symm.trans hcut') (by simp)
        · rfl
      · rw [List.append_assoc, List.cons_append] at h
        obtain ⟨rfl, rfl⟩ := (Text.append_cons_inj hfirst hinner).1 h
        unfold close
        rw [nests_go_iff.2 hopener, Text.cut?_char_eq_some_iff.2 ⟨rfl, hmore⟩]

/-- **The scanner takes a step** to a call if the text is written with that call in front, no
opener stands before it, and it closes behind its argument. -/
theorem next?_eq_some_iff {d : Dialect} {s rest : Text} {call : Call} :
    next? d s = some (call, rest) ↔
      s = call.toText d ++ rest ∧ ¬ d.opener <:+: call.gap ∧ Closes d call.argument rest := by
  constructor
  · intro h
    refine ⟨append_of_next? h, ?_⟩
    unfold next? at h
    split at h
    · exact absurd h (by simp)
    · next gap body hgap =>
      split at h
      · exact absurd h (by simp)
      · next first rest' hbody =>
        obtain ⟨rfl, hrest⟩ := Prod.mk.inj (Option.some.inj h)
        have hfirst := (Text.cut?_char_eq_some_iff.1 hbody).2
        have hclose : close d first rest' = ((close d first rest').1, rest) := Prod.ext rfl hrest
        exact ⟨Text.not_infix_of_cut? d.opener_ne_nil hgap, ((close_eq_iff hfirst).1 hclose).2⟩
  · rintro ⟨rfl, hgap, hcloses⟩
    have hs : call.toText d ++ rest
        = call.gap ++ d.opener ++ (call.argument ++ ')' :: rest) := by
      simp only [toText, List.append_assoc, List.singleton_append]
    rw [hs]
    unfold next?
    rw [Text.cut?_append d.opener_unbordered hgap]
    dsimp only
    -- The first parenthesis that closes stands in the argument or right behind it.
    rcases hfirst : Text.cut? [')'] (call.argument ++ ')' :: rest) with _ | ⟨first, rest'⟩
    · exact absurd (Text.cut?_char_eq_none_iff.1 hfirst) (by simp)
    · obtain ⟨hsplit, hnot⟩ := Text.cut?_char_eq_some_iff.1 hfirst
      have hclose := (close_eq_iff (d := d) hnot).2 ⟨hsplit.symm, hcloses⟩
      dsimp only
      rw [hclose]

/-- **The scanner stops** if no opener is followed by a closing parenthesis. -/
theorem next?_eq_none_iff {d : Dialect} {s : Text} :
    next? d s = none ↔ ∀ before after, s = before ++ d.opener ++ after → ')' ∉ after := by
  constructor
  · intro h before after hs hmem
    unfold next? at h
    split at h
    · next hnone => exact Text.cut?_eq_none_iff.1 hnone ⟨before, after, hs.symm⟩
    · next gap body hgap =>
      split at h
      · next hnone =>
        -- What follows a later opener follows the first one as well.
        exact Text.cut?_char_eq_none_iff.1 hnone ((Text.suffix_of_cut? hgap hs).subset hmem)
      · exact absurd h (by simp)
  · intro h
    rw [Option.eq_none_iff_forall_ne_some]
    rintro ⟨call, rest⟩ hsome
    have hs := append_of_next? hsome
    refine h call.gap (call.argument ++ ')' :: rest) ?_ (by simp)
    rw [hs]
    simp only [toText, List.append_assoc, List.singleton_append]

end Call

/-! ## A whole line -/

namespace CallSplit

theorem toText_cons (d : Dialect) (call : Call) (calls : List Call) (tail : Text) :
    toText d ⟨call :: calls, tail⟩ = call.toText d ++ toText d ⟨calls, tail⟩ := by
  unfold toText
  rw [List.flatMap_cons, List.append_assoc]

/-- A line without calls is its own tail. -/
theorem isSplit_nil_iff {d : Dialect} {line tail : Text} :
    IsSplit d line ⟨[], tail⟩ ↔ line = tail ∧ Call.next? d line = none := by
  rw [Call.next?_eq_none_iff]
  constructor
  · rintro ⟨rfl, -, htail, -⟩
    exact ⟨rfl, htail⟩
  · rintro ⟨rfl, htail⟩
    refine ⟨rfl, fun call hcall => absurd hcall List.not_mem_nil, htail, ?_⟩
    intro before call after h
    exact absurd h (by simp)

/-- In a line with a call the first one is what a step finds, and the others make up the rest. -/
theorem isSplit_cons_iff {d : Dialect} {line tail : Text} {call : Call} {calls : List Call} :
    IsSplit d line ⟨call :: calls, tail⟩ ↔
      ∃ rest, Call.next? d line = some (call, rest) ∧ IsSplit d rest ⟨calls, tail⟩ := by
  constructor
  · rintro ⟨hwhole, hgaps, htail, hcloses⟩
    rw [toText_cons] at hwhole
    refine ⟨toText d ⟨calls, tail⟩, ?_, rfl, ?_, htail, ?_⟩
    · exact Call.next?_eq_some_iff.2
        ⟨hwhole.symm, hgaps call List.mem_cons_self, hcloses [] call calls rfl⟩
    · exact fun c hc => hgaps c (List.mem_cons_of_mem call hc)
    · intro before c after h
      exact hcloses (call :: before) c after (congrArg (call :: ·) h)
  · rintro ⟨rest, hnext, rfl, hgaps, htail, hcloses⟩
    obtain ⟨hline, hgap, hclose⟩ := Call.next?_eq_some_iff.1 hnext
    refine ⟨?_, List.forall_mem_cons.2 ⟨hgap, hgaps⟩, htail, ?_⟩
    · rw [toText_cons, hline]
    · intro before c after h
      rcases before with _ | ⟨b, before⟩
      · obtain ⟨rfl, rfl⟩ := List.cons.inj h
        exact hclose
      · exact hcloses before c after (List.cons.inj h).2

/-- **The scanner finds the form of a line**, and there is no other. -/
theorem isSplit_iff {d : Dialect} {line : Text} {split : CallSplit} :
    IsSplit d line split ↔ split = ofLine d line := by
  obtain ⟨calls, tail⟩ := split
  fun_induction ofLine d line generalizing calls tail with
  | case1 line hnext =>
    rcases calls with _ | ⟨call, calls⟩
    · rw [isSplit_nil_iff, CallSplit.mk.injEq]
      exact ⟨fun h => ⟨rfl, h.1.symm⟩, fun h => ⟨h.2.symm, hnext⟩⟩
    · rw [isSplit_cons_iff, hnext]
      simp
  | case2 line call rest hnext ih =>
    rcases calls with _ | ⟨c, calls⟩
    · rw [isSplit_nil_iff, hnext]
      simp
    · rw [isSplit_cons_iff, hnext]
      constructor
      · rintro ⟨rest', heq, hsplit⟩
        obtain ⟨rfl, rfl⟩ := Prod.mk.inj (Option.some.inj heq)
        rw [← (ih calls tail).1 hsplit]
      · intro h
        obtain ⟨hcons, rfl⟩ := CallSplit.mk.inj h
        obtain ⟨rfl, rfl⟩ := List.cons.inj hcons
        exact ⟨rest, rfl, (ih _ _).2 rfl⟩

/-- The argument of a call of a line is a part of the line. -/
theorem argument_infix_of_mem {d : Dialect} {line : Text} {call : Call}
    (h : call ∈ (ofLine d line).calls) : call.argument <:+: line := by
  have hcall : call.argument <:+: call.toText d := ⟨call.gap ++ d.opener, [')'], rfl⟩
  have hcalls : call.toText d <:+: (ofLine d line).calls.flatMap (Call.toText d) :=
    List.infix_of_mem_flatten (List.mem_map_of_mem h)
  have hline := toText_ofLine d line
  unfold toText at hline
  rw [← hline]
  exact (hcall.trans hcalls).trans (List.prefix_append _ _).isInfix

/-- An empty line has no calls. -/
theorem ofLine_nil (d : Dialect) : ofLine d [] = ⟨[], []⟩ := by
  have hnext : Call.next? d [] = none := by cases d <;> rfl
  exact (isSplit_iff.1 (isSplit_nil_iff.2 ⟨rfl, hnext⟩)).symm

end CallSplit

/-! ## The tokens of a line -/

namespace Token

/-- The argument of the print call that a token stands for. -/
def argument? (t : Token) : Option Text :=
  match t.construct with
  | .printCall argument => some argument
  | _ => none

theorem filterMap_argument?_ofCalls (d : Dialect) (number : UInt32) (before : Nat)
    (calls : List Call) :
    (ofCalls d number before calls).filterMap argument? = calls.map Call.argument := by
  induction calls generalizing before with
  | nil => rfl
  | cons call calls ih =>
    unfold ofCalls
    rw [List.map_cons, ← ih]
    rfl

/-- The print calls among the tokens of a line are the calls of the line. -/
theorem filterMap_argument?_ofLine (d : Dialect) (number : UInt32) (line : Text) :
    (ofLine d number line).filterMap argument?
      = (CallSplit.ofLine d line).calls.map Call.argument := by
  unfold ofLine ofAssignment?
  rw [List.filterMap_append, filterMap_argument?_ofCalls]
  rcases AssignmentLine.read? d line with _ | a <;> rfl

/-- The print calls of a text are those of its lines, one line after the other. -/
theorem filterMap_argument?_ofText (d : Dialect) (s : Text) :
    (ofText d s).filterMap argument?
      = s.lines.flatMap fun line => (CallSplit.ofLine d line).calls.map Call.argument := by
  unfold ofText
  rw [List.filterMap_append, List.filterMap_flatMap, ← Text.map_snd_countedLines, List.flatMap_map]
  refine (List.append_nil _).trans ?_
  congr 1
  funext numbered
  exact filterMap_argument?_ofLine d numbered.1 numbered.2

/-- A text of one line has the print calls of that line. -/
theorem filterMap_argument?_ofText_line {d : Dialect} {line : Text} (h : '\n' ∉ line) :
    (ofText d line).filterMap argument? = (CallSplit.ofLine d line).calls.map Call.argument := by
  rw [filterMap_argument?_ofText, Text.lines_of_not_mem h]
  split
  · next hnil =>
    rw [hnil, CallSplit.ofLine_nil]
    rfl
  · rw [List.flatMap_singleton]

/-- **The scanner finds exactly the calls of the grammar.**  A line is written in one way as calls
with text around them, and its print calls are those, in their order, whatever else stands on it:
on a line with any number, and in a text of this one line. -/
theorem arguments_exact (d : Dialect) (line : Text) :
    (∃! split, CallSplit.IsSplit d line split)
      ∧ ∀ split, CallSplit.IsSplit d line split →
        (∀ number, (ofLine d number line).filterMap argument? = split.calls.map Call.argument)
          ∧ ('\n' ∉ line →
            (ofText d line).filterMap argument? = split.calls.map Call.argument) := by
  refine ⟨⟨CallSplit.ofLine d line, CallSplit.isSplit_iff.2 rfl, ?_⟩, ?_⟩
  · exact fun split hsplit => CallSplit.isSplit_iff.1 hsplit
  · intro split hsplit
    obtain rfl := CallSplit.isSplit_iff.1 hsplit
    exact ⟨fun number => filterMap_argument?_ofLine d number line,
      filterMap_argument?_ofText_line⟩

/-- A call whose argument takes in the parenthesis of a repetition. -/
theorem arguments_repetition :
    let line := "a fmt.Println(strings.Repeat(\"b\", 2)) c".toList
    let call : Call := ⟨"a ".toList, "strings.Repeat(\"b\", 2)".toList⟩
    CallSplit.IsSplit .go line ⟨[call], " c".toList⟩ ∧ '\n' ∉ line
      ∧ (ofText .go line).filterMap argument? = [call.argument] := by
  intro line call
  have hsplit : CallSplit.IsSplit .go line ⟨[call], " c".toList⟩ :=
    CallSplit.isSplit_cons_iff.2
      ⟨" c".toList, by decide, CallSplit.isSplit_nil_iff.2 ⟨rfl, by decide⟩⟩
  have hline : '\n' ∉ line := by decide
  exact ⟨hsplit, hline, ((arguments_exact .go line).2 _ hsplit).2 hline⟩

end Token

end Playground
