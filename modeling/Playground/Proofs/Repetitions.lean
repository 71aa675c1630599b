/-
# Repetitions as they are written

A repetition is written `strings.Repeat("text", 12)`, with any spaces behind the comma.  What is read
as a repetition stands there in this form, and what is written in this form is read.  On its line a
print captures its argument by counting parentheses, those between the quotes as well: a repetition
is captured whole just if no closing parenthesis stands in its text, and otherwise the capture ends
too early for a repetition to be read.

* `Repetition.readArguments?_eq_some_iff` : the arguments that are read are those that are written.
* `Repetition.toText_infix_of_find?` : a repetition that is found stands there as it is written.
* `Argument.ofText_toText` : a repetition as it is written is read.
* `Repetition.find?_eq_none_of_cutOff` : no repetition is read from one that is cut off.
* `Token.capturedRepetition_exact` : what a print captures of a repetition, and what it is read as.
-/
import Playground.Proofs.Reading

namespace Playground

/-! ## Reading what is written -/

namespace Repetition

/-- A repetition that can be read: its text is not empty and holds no quote, and its count is made
of digits. -/
structure Readable (r : Repetition) : Prop where
  /-- The text is not empty. -/
  nonempty : r.text ≠ []
  /-- No quote ends the text early. -/
  unquoted : '"' ∉ r.text
  /-- The count is made of digits. -/
  digits : Text.isDigits r.count = true

/-- A repetition as it is written, with `space` behind the comma. -/
def toText (space : Text) (r : Repetition) : Text :=
  opener ++ r.text ++ ['"', ','] ++ space ++ r.count ++ [')']

theorem toText_eq (space : Text) (r : Repetition) :
    r.toText space = opener ++ (r.text ++ ['"', ','] ++ space ++ r.count ++ [')']) := by
  unfold toText
  simp only [List.append_assoc]

/-- A repetition as it is written has two quotes, apart from those in its text. -/
theorem toText_eq_quotes (space : Text) (r : Repetition) :
    r.toText space = Call.repeatOpener
      ++ '"' :: (r.text ++ '"' :: ',' :: (space ++ r.count ++ [')'])) := by
  have hopener : opener = Call.repeatOpener ++ ['"'] := by decide
  rw [toText_eq, hopener]
  simp only [List.append_assoc, List.cons_append, List.nil_append]

/-- What a repetition begins with is a part of it. -/
theorem infix_of_startsOpener {key : Text} (hkey : key <+: opener) (behind : Text) :
    key <:+: opener ++ behind :=
  (hkey.trans (List.prefix_append opener behind)).isInfix

variable {r : Repetition} {space : Text}

/-- Between its comma and its end a repetition holds no closing parenthesis. -/
theorem not_mem_behindComma (hcount : Text.isDigits r.count = true)
    (hspace : space.isBlank = true) : ')' ∉ space ∧ ')' ∉ r.count :=
  ⟨Text.not_mem_of_isBlank hspace (by decide), Text.not_mem_of_isDigits hcount (by decide)⟩

theorem readable_of_readArguments? {s : Text} (h : readArguments? s = some r) : r.Readable := by
  unfold readArguments? at h
  dsimp only at h
  split at h
  · exact absurd h (by simp)
  · split at h
    · next hparts =>
      obtain rfl := Option.some.inj h
      obtain ⟨htext, hcount, -⟩ := hparts
      refine ⟨htext, fun hmem => ?_, Text.isDigits_iff.2 ⟨hcount, fun c hc => ?_⟩⟩
      · have hquote := List.mem_takeWhile_imp hmem
        exact of_decide_eq_true hquote rfl
      · exact List.mem_takeWhile_imp hc
    · exact absurd h (by simp)

/-- The arguments of a repetition are read as they are written. -/
theorem readArguments?_append (hr : r.Readable) (hspace : space.isBlank = true) (rest : Text) :
    readArguments? (r.text ++ ['"', ','] ++ space ++ r.count ++ ')' :: rest) = some r := by
  obtain ⟨hne, hquote, hcount⟩ := hr
  obtain ⟨hcount_ne, hdigits⟩ := Text.isDigits_iff.1 hcount
  have hassoc : r.text ++ ['"', ','] ++ space ++ r.count ++ ')' :: rest
      = r.text ++ '"' :: ',' :: (space ++ (r.count ++ ')' :: rest)) := by
    simp only [List.append_assoc, List.cons_append, List.nil_append]
  have htext : ∀ c ∈ r.text, (decide (c ≠ '"')) = true := fun c hc =>
    decide_eq_true fun heq => hquote (heq ▸ hc)
  have hstop : ∀ c ∈ ('"' :: ',' :: (space ++ (r.count ++ ')' :: rest))).head?,
      (decide (c ≠ '"')) = false := by
    rintro c ⟨⟩
    decide
  have hclose : ∀ c ∈ (')' :: rest).head?, c.isDigit = false := by
    rintro c ⟨⟩
    decide
  have hstart : Text.trimStart (space ++ (r.count ++ ')' :: rest)) = r.count ++ ')' :: rest := by
    refine Text.dropWhile_append_stop (List.all_eq_true.1 hspace) fun c hc => ?_
    obtain ⟨d, s, hd⟩ := List.exists_cons_of_ne_nil hcount_ne
    rw [hd] at hc hdigits
    obtain rfl : d = c := Option.some.inj hc
    exact Text.isSpace_of_isDigit (hdigits d List.mem_cons_self)
  have hafter : Text.after? ['"', ','] ('"' :: ',' :: (space ++ (r.count ++ ')' :: rest)))
      = some (space ++ (r.count ++ ')' :: rest)) := rfl
  rw [hassoc]
  unfold readArguments?
  dsimp only
  rw [Text.takeWhile_append_stop htext hstop, Text.dropWhile_append_stop htext hstop, hafter]
  dsimp only
  rw [hstart, Text.takeWhile_append_stop hdigits hclose, Text.dropWhile_append_stop hdigits hclose,
    if_pos ⟨hne, hcount_ne, rfl⟩]

/-- **The arguments that are read** are those of a repetition that can be read, as they are
written. -/
theorem readArguments?_eq_some_iff {s : Text} :
    readArguments? s = some r ↔ r.Readable ∧ ∃ space rest, space.isBlank = true
      ∧ s = r.text ++ ['"', ','] ++ space ++ r.count ++ ')' :: rest := by
  constructor
  · exact fun h => ⟨readable_of_readArguments? h, append_of_readArguments? h⟩
  · rintro ⟨hr, space, rest, hspace, rfl⟩
    exact readArguments?_append hr hspace rest

theorem find?_append {s : Text} (h : readArguments? s = some r) : find? (opener ++ s) = some r := by
  have hafter := Text.after?_append opener s
  rcases heq : opener ++ s with _ | ⟨c, rest⟩
  · exact absurd (List.append_eq_nil_iff.1 heq).1 (by decide)
  · rw [heq] at hafter
    unfold find?
    rw [hafter, Option.bind_some, h]

/-- A repetition as it is written is found. -/
theorem find?_toText (hr : r.Readable) (hspace : space.isBlank = true) :
    find? (r.toText space) = some r := by
  rw [toText_eq]
  exact find?_append (readArguments?_append hr hspace [])

/-- A repetition that is found stands there as it is written. -/
theorem toText_infix_of_find? {s : Text} (h : find? s = some r) :
    r.Readable ∧ ∃ space, space.isBlank = true ∧ r.toText space <:+: s := by
  induction s with
  | nil => exact nomatch h
  | cons c s ih =>
    unfold find? at h
    split at h
    · next call hcall =>
      obtain rfl := Option.some.inj h
      obtain ⟨arguments, hafter, hread⟩ := Option.bind_eq_some_iff.1 hcall
      obtain ⟨hr, space, rest, hspace, harguments⟩ := readArguments?_eq_some_iff.1 hread
      refine ⟨hr, space, hspace, [], rest, ?_⟩
      rw [Text.after?_eq_some_iff.1 hafter, harguments, toText_eq]
      simp only [List.append_assoc, List.nil_append, List.cons_append]
    · obtain ⟨hr, space, hspace, hpart⟩ := ih h
      exact ⟨hr, space, hspace, hpart.trans (List.suffix_cons c s).isInfix⟩

end Repetition

/-- **A repetition as it is written** is read. -/
theorem Argument.ofText_toText {r : Repetition} {space : Text} (hr : r.Readable)
    (hspace : space.isBlank = true) : Argument.ofText .go (r.toText space) = .repetition r := by
  have htrim : Text.trim (r.toText space) = r.toText space := by
    refine Text.trim_eq_self ?_ ?_
    · intro c hc
      rw [Repetition.toText_eq] at hc
      obtain rfl : 's' = c := Option.some.inj hc
      decide
    · intro c hc
      unfold Repetition.toText at hc
      rw [List.getLast?_concat] at hc
      obtain rfl := Option.some.inj hc
      decide
  have hrepeat : Argument.repeatName <:+: r.toText space := by
    rw [Repetition.toText_eq]
    exact Repetition.infix_of_startsOpener (by decide) _
  rw [Argument.ofText_go_of_infix hrepeat, htrim, Repetition.find?_toText hr hspace]

/-! ## Repetitions that are cut off -/

namespace Repetition

variable {r : Repetition} {space : Text}

/-- What follows two quotes of a written repetition follows its text. -/
theorem suffix_of_toText_eq {a b c : Text} (hquote : '"' ∉ r.text)
    (h : r.toText space = a ++ '"' :: (b ++ '"' :: c)) :
    c <:+ ',' :: (space ++ r.count ++ [')']) := by
  have hfirst := Text.cut?_char_eq_some_iff.2 ⟨toText_eq_quotes space r, by decide⟩
  have hsecond := Text.cut?_char_eq_some_iff.2
    ⟨@rfl _ (r.text ++ '"' :: ',' :: (space ++ r.count ++ [')'])), hquote⟩
  -- Either quote is a later one than the quote that is reached from the left.
  obtain ⟨more, hmore⟩ := Text.suffix_of_cut? hfirst (by rw [h, List.append_cons])
  refine Text.suffix_of_cut? (a := more ++ b) hsecond ?_
  rw [← hmore]
  simp only [List.append_assoc, List.singleton_append]

/-- **No repetition is read** from what stands in front of a closing parenthesis of a written one: it
would have a parenthesis of its own behind its text, but only one stands behind the quotes. -/
theorem find?_eq_none_of_cutOff {s argument : Text} (hr : r.Readable) (hspace : space.isBlank = true)
    (hcutOff : argument ++ [')'] <+: r.toText space) (hs : s <:+: argument) : find? s = none := by
  rw [Option.eq_none_iff_forall_ne_some]
  intro call hcall
  obtain ⟨-, gap, -, hpart⟩ := toText_infix_of_find? hcall
  obtain ⟨before, after, hargument⟩ := hpart.trans hs
  obtain ⟨rest, hrest⟩ := hcutOff
  have hwhole : r.toText space = before ++ Call.repeatOpener
      ++ '"' :: (call.text
        ++ '"' :: (',' :: (gap ++ call.count) ++ ')' :: (after ++ ')' :: rest))) := by
    rw [← hrest, ← hargument, toText_eq_quotes]
    simp only [List.append_assoc, List.cons_append, List.nil_append]
  have hle := (suffix_of_toText_eq hr.unquoted hwhole).sublist.count_le ')'
  obtain ⟨hblank, hdigits⟩ := not_mem_behindComma hr.digits hspace
  have honce : List.count ')' (',' :: (space ++ r.count ++ [')'])) = 1 := by
    rw [List.count_cons_of_ne (by decide), List.count_append, List.count_append,
      List.count_eq_zero.2 hblank, List.count_eq_zero.2 hdigits]
    rfl
  rw [honce, List.count_append, List.count_cons_self, List.count_append, List.count_cons_self]
    at hle
  omega

end Repetition

/-! ## Captured arguments -/

/-- The first of the calls of a line is what one step finds. -/
theorem CallSplit.calls_ofLine_of_next? {d : Dialect} {line rest : Text} {call : Call}
    (h : Call.next? d line = some (call, rest)) :
    (ofLine d line).calls = call :: (ofLine d rest).calls := by
  have hsplit : IsSplit d line ⟨call :: (ofLine d rest).calls, (ofLine d rest).tail⟩ :=
    isSplit_cons_iff.2 ⟨rest, h, isSplit_iff.2 rfl⟩
  rw [← isSplit_iff.1 hsplit]

namespace Call

/-- An argument closes its call at the second closing parenthesis if a repetition opens in front of the
first one. -/
theorem closes_of_repeats {inner more : Text} (hinner : ')' ∉ inner) (hmore : ')' ∉ more)
    (hopener : repeatOpener <:+: inner) (rest : Text) :
    Closes .go (inner ++ ')' :: more) rest :=
  Or.inr ⟨inner, more, rfl, hinner, hmore, hopener⟩

variable {r : Repetition} {space : Text}

/-- A repetition without a closing parenthesis in its text closes a call. -/
theorem closes_toText (hcount : Text.isDigits r.count = true) (hspace : space.isBlank = true)
    (hclose : ')' ∉ r.text) (rest : Text) : Closes .go (r.toText space) rest := by
  obtain ⟨hblank, hdigits⟩ := Repetition.not_mem_behindComma hcount hspace
  have hopener : ')' ∉ Repetition.opener := by decide
  refine closes_of_repeats ?_ List.not_mem_nil ?_ rest
  · simp [hopener, hclose, hblank, hdigits]
  · simp only [List.append_assoc]
    exact Repetition.infix_of_startsOpener (by decide) _

/-- A repetition with a closing parenthesis in its text is cut off: behind that parenthesis there is
another one within the repetition, and an argument up to that one closes a call. -/
theorem exists_closes_cutOff (space : Text) (hclose : ')' ∈ r.text) :
    ∃ argument behind, r.toText space = argument ++ ')' :: behind ∧ argument.count ')' = 1
      ∧ Repetition.opener <+: argument ∧ ∀ rest, Closes .go argument rest := by
  obtain ⟨front, back, htext, hfront⟩ := List.eq_append_cons_of_mem hclose
  -- The last character of the repetition is a closing parenthesis behind the one in the text.
  have hmem : ')' ∈ back ++ ['"', ','] ++ space ++ r.count ++ [')'] :=
    List.mem_append_right _ List.mem_cons_self
  obtain ⟨more, behind, hback, hmore⟩ := List.eq_append_cons_of_mem hmem
  have hwhole : r.toText space
      = Repetition.opener ++ front ++ ')' :: (back ++ ['"', ','] ++ space ++ r.count ++ [')']) := by
    rw [Repetition.toText_eq, htext]
    simp only [List.append_assoc, List.cons_append]
  have hopener : ')' ∉ Repetition.opener := by decide
  have hinner : ')' ∉ Repetition.opener ++ front := by simp [hopener, hfront]
  refine ⟨Repetition.opener ++ front ++ ')' :: more, behind, ?_, ?_, ?_, fun rest => ?_⟩
  · rw [hwhole, hback]
    simp only [List.append_assoc, List.cons_append]
  · rw [List.count_append, List.count_cons_self, List.count_eq_zero.2 hinner,
      List.count_eq_zero.2 hmore]
  · rw [List.append_assoc]
    exact List.prefix_append _ _
  · have hrepeats : repeatOpener <:+: Repetition.opener ++ front :=
      Repetition.infix_of_startsOpener (by decide) front
    exact closes_of_repeats hinner hmore hrepeats rest

end Call

/-- On a line where the first call that opens closes behind `argument`, this is the first argument of
its tokens, and what is read from it is that of the first print of its statements. -/
theorem Token.exists_first_print {d : Dialect} {before argument rest : Text} (number : UInt32)
    (hbefore : ¬ d.opener <:+: before) (hcloses : Call.Closes d argument rest) :
    let line := before ++ d.opener ++ argument ++ ')' :: rest
    ∃ arguments p prints, (ofLine d number line).filterMap argument? = argument :: arguments
      ∧ (Statement.ofLine d number line).filterMap Statement.print? = p :: prints
      ∧ p.argument = Argument.ofText d argument := by
  intro line
  have hnext : Call.next? d line = some (⟨before, argument⟩, rest) := by
    rw [Call.next?_eq_some_iff]
    exact ⟨List.append_cons _ _ _, hbefore, hcloses⟩
  have harguments : (ofLine d number line).filterMap argument?
      = argument :: (CallSplit.ofLine d rest).calls.map Call.argument := by
    rw [filterMap_argument?_ofLine, CallSplit.calls_ofLine_of_next? hnext, List.map_cons]
  have hprints := Statement.map_argument_ofLine d number line
  rw [harguments, List.map_cons] at hprints
  obtain ⟨p, prints, hp, hargument, -⟩ := List.map_eq_cons_iff.1 hprints
  exact ⟨_, p, prints, harguments, hp, hargument⟩

/-- **What a print captures of a repetition.**  On a line where the first print that opens prints a
repetition which can be read, the first argument is the whole repetition, as it is written, and it is
read as such, if no closing parenthesis stands in the repeated text.  Otherwise the argument ends in
front of the second closing parenthesis of the repetition, and no repetition is read from it. -/
theorem Token.capturedRepetition_exact {r : Repetition} {space before : Text} (hr : r.Readable)
    (hspace : space.isBlank = true) (hbefore : ¬ Dialect.go.opener <:+: before) (after : Text)
    (number : UInt32) :
    let line := before ++ Dialect.go.opener ++ r.toText space ++ ')' :: after
    ∃ argument arguments p prints,
      (ofLine .go number line).filterMap argument? = argument :: arguments
      ∧ (Statement.ofLine .go number line).filterMap Statement.print? = p :: prints
      ∧ (')' ∉ r.text → argument = r.toText space ∧ p.argument = .repetition r)
      ∧ (')' ∈ r.text → argument ++ [')'] <+: r.toText space ∧ argument.count ')' = 1
        ∧ p.argument = .unmatched argument.trim) := by
  intro line
  by_cases hclose : ')' ∈ r.text
  · obtain ⟨argument, behind, hwhole, hcount, ⟨t, ht⟩, hcloses⟩ :=
      Call.exists_closes_cutOff space hclose
    have hline : line = before ++ Dialect.go.opener ++ argument ++ ')' :: (behind ++ ')' :: after) := by
      show before ++ Dialect.go.opener ++ r.toText space ++ ')' :: after = _
      rw [hwhole]
      simp only [List.append_assoc, List.cons_append]
    have hcutOff : argument ++ [')'] <+: r.toText space :=
      ⟨behind, by rw [hwhole, ← List.append_cons]⟩
    have hrepeat : Argument.repeatName <:+: argument := by
      rw [← ht]
      exact Repetition.infix_of_startsOpener (by decide) t
    obtain ⟨arguments, p, prints, harguments, hprints, hp⟩ :=
      exists_first_print number hbefore (hcloses (behind ++ ')' :: after))
    rw [← hline] at harguments hprints
    refine ⟨argument, arguments, p, prints, harguments, hprints, fun hnot => absurd hclose hnot,
      fun _ => ⟨hcutOff, hcount, ?_⟩⟩
    rw [hp, Argument.ofText_go_of_infix hrepeat,
      Repetition.find?_eq_none_of_cutOff hr hspace hcutOff (Text.trim_infix argument)]
  · obtain ⟨arguments, p, prints, harguments, hprints, hp⟩ :=
      exists_first_print number hbefore (Call.closes_toText hr.digits hspace hclose after)
    refine ⟨r.toText space, arguments, p, prints, harguments, hprints, fun _ => ⟨rfl, ?_⟩,
      fun hmem => absurd hmem hclose⟩
    rw [hp, Argument.ofText_toText hr hspace]

/-- Either way, on lines with text around the print: a text that holds an opener is captured whole, and
one that holds a parenthesis which closes is not. -/
theorem Token.capturedRepetition_instances :
    let opening : Repetition := ⟨"fmt.Println(é".toList, "3".toList⟩
    let closing : Repetition := ⟨"a)".toList, "3".toList⟩
    let line (r : Repetition) : Text := "x := ".toList ++ Dialect.go.opener
      ++ r.toText "\t\u3000".toList ++ ')' :: " // )".toList
    opening.Readable ∧ closing.Readable ∧ ¬ Dialect.go.opener <:+: "x := ".toList
      ∧ (∃ arguments p prints, (ofLine .go 1 (line opening)).filterMap argument?
          = "strings.Repeat(\"fmt.Println(é\",\t\u30003)".toList :: arguments
        ∧ (Statement.ofLine .go 1 (line opening)).filterMap Statement.print? = p :: prints
        ∧ p.argument = .repetition opening)
      ∧ ∃ argument arguments p prints,
        (ofLine .go 1 (line closing)).filterMap argument? = argument :: arguments
        ∧ (Statement.ofLine .go 1 (line closing)).filterMap Statement.print? = p :: prints
        ∧ argument ++ [')'] <+: closing.toText "\t\u3000".toList
        ∧ p.argument = .unmatched argument.trim := by
  intro opening closing line
  have hopening : opening.Readable := ⟨by decide, by decide, by decide⟩
  have hclosing : closing.Readable := ⟨by decide, by decide, by decide⟩
  have hbefore : ¬ Dialect.go.opener <:+: "x := ".toList := by decide
  have hspace : Text.isBlank "\t\u3000".toList = true := by decide
  refine ⟨hopening, hclosing, hbefore, ?_, ?_⟩
  · obtain ⟨argument, arguments, p, prints, harguments, hprints, hwhole, -⟩ :=
      capturedRepetition_exact hopening hspace hbefore " // )".toList 1
    obtain ⟨rfl, hp⟩ := hwhole (by decide)
    exact ⟨arguments, p, prints, harguments, hprints, hp⟩
  · obtain ⟨argument, arguments, p, prints, harguments, hprints, -, hcut⟩ :=
      capturedRepetition_exact hclosing hspace hbefore " // )".toList 1
    obtain ⟨hpart, -, hp⟩ := hcut (by decide)
    exact ⟨argument, arguments, p, prints, harguments, hprints, hpart, hp⟩

/-- Not every repetition is captured whole: the second closing parenthesis of
`strings.Repeat(")", 3)` is its last one, where the capture ends. -/
theorem Token.capturedRepetition_parenthesis :
    ¬ ∀ (r : Repetition) (space before after : Text) (number : UInt32), r.Readable →
      '\n' ∉ r.text → space.isBlank = true → '\n' ∉ space → ¬ Dialect.go.opener <:+: before →
      ((ofLine .go number (before ++ Dialect.go.opener ++ r.toText space ++ ')' :: after)).filterMap
        argument?).head? = some (r.toText space) := by
  intro h
  have hhead := h ⟨[')'], ['3']⟩ [' '] [] [] 1 ⟨by decide, by decide, by decide⟩ (by decide)
    (by decide) (by decide) (by decide)
  revert hhead
  decide +kernel

end Playground
