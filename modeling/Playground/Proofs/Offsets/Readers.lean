/-
# Reading by byte offsets

What a scanner cuts out of a line is read further by byte offsets: the calls that repeat a text, the
numerals in another base, and the whole number at the start of a text.  Fixed skips of one or two bytes
are taken behind a byte of ASCII only, and a run of digits is counted in bytes.  No slice fails here
either, and what is read is what the characters say.

* `Repetition.find?_of_cut?` : openers of repetitions are tried one behind the other.
* `Scan.repeatCall?_eq` : the repetition of an expression.
* `Scan.based?_eq` : a numeral in another base.
* `Scan.leading?_eq` : the whole number at the start of a text.
* `Scan.slices_exact` : all scanners and readers together.
-/
import Playground.Evaluation.Count
import Playground.Proofs.Number.NumeralGrammar
import Playground.Proofs.Offsets.Scanning
import Playground.Proofs.Repetitions

namespace Playground

/-! ## Openers of repetitions -/

namespace Repetition

theorem unbordered_opener : Text.Unbordered opener :=
  @Text.unbordered_concat Call.repeatOpener '"' (by decide)

/-- A place where no repetition stands is passed over. -/
theorem find?_cons_of_eq_none {c : Char} {s : Text}
    (h : (Text.after? opener (c :: s)).bind readArguments? = none) : find? (c :: s) = find? s := by
  rw [find?, h]

/-- A part in which no opener begins is passed over. -/
theorem find?_append_of_forall {skipped rest : Text}
    (h : ∀ k, k ≠ [] → k <:+ skipped → ¬ opener <+: k ++ rest) :
    find? (skipped ++ rest) = find? rest := by
  induction skipped with
  | nil => rfl
  | cons c skipped ih =>
    have hnone : Text.after? opener (c :: (skipped ++ rest)) = none :=
      Text.after?_eq_none_iff.2 (h (c :: skipped) (List.cons_ne_nil c skipped) List.suffix_rfl)
    have hrest := ih fun k hk hsuffix => h k hk (hsuffix.trans (List.suffix_cons c skipped))
    rw [List.cons_append, find?_cons_of_eq_none (by rw [hnone, Option.bind_none]), hrest]

/-- Without an opener there is no repetition. -/
theorem find?_eq_none_of_cut? {s : Text} (h : Text.cut? opener s = none) : find? s = none := by
  rw [Option.eq_none_iff_forall_ne_some]
  intro call hcall
  obtain ⟨-, space, -, hpart⟩ := toText_infix_of_find? hcall
  rw [toText_eq] at hpart
  exact Text.cut?_eq_none_iff.1 h ((List.prefix_append opener _).isInfix.trans hpart)

/-- **The first opener** is tried, and if no arguments follow it, the text behind it is searched. -/
theorem find?_of_cut? {s before rest : Text} (h : Text.cut? opener s = some (before, rest)) :
    find? s = (readArguments? rest).or (find? rest) := by
  have hnot := Text.not_infix_of_cut? (by decide) h
  have hfront : find? s = find? (opener ++ rest) := by
    rw [Text.append_of_cut? h, List.append_assoc]
    refine find?_append_of_forall fun k hk hsuffix => ?_
    rw [← List.append_assoc, ← Text.after?_eq_none_iff]
    exact Text.after?_eq_none_of_unbordered unbordered_opener hk
      (fun hstart => hnot (hstart.isInfix.trans hsuffix.isInfix)) rest
  rcases hread : readArguments? rest with _ | call
  · -- No opener begins inside of the opener.
    have hopener : opener = 's' :: opener.tail := rfl
    have hinside : find? (opener.tail ++ rest) = find? rest := by
      refine find?_append_of_forall fun k hk hsuffix hpart => ?_
      have hlong := hsuffix.length_le
      have hstart : k <+: opener := by
        refine List.prefix_of_prefix_length_le (List.prefix_append k rest) hpart ?_
        exact hlong.trans (by decide)
      obtain rfl := unbordered_opener k hk hstart (hsuffix.trans (List.tail_suffix opener))
      exact absurd hlong (by decide)
    have hafter : (Text.after? opener ('s' :: (opener.tail ++ rest))).bind readArguments? = none := by
      have hbehind : Text.after? opener ('s' :: (opener.tail ++ rest)) = some rest :=
        Text.after?_append opener rest
      rw [hbehind, Option.bind_some, hread]
    rw [hfront, hopener, List.cons_append, find?_cons_of_eq_none hafter, hinside]
    rfl
  · rw [hfront, find?_append hread]
    rfl

end Repetition

namespace Scan

open Text

/-! ## Repetitions -/

/-- The count of a repetition whose text has been read. -/
def repeatCount? (text s : Text) : Option (Option Repetition) :=
  let length := (s.bytes.takeWhile isDigitByte).length
  if length = 0 then some none
  else
    (dropBytes? length s).bind fun behind =>
      if behind.startsWith [')'] then
        (slice? s 0 length).bind fun count => some (some ⟨text, count⟩)
      else some none

/-- The arguments of a repetition behind its opener. -/
def repeatArguments? (s : Text) : Option (Option Repetition) :=
  match (find? ['"'] s).filter (0 < ·) with
  | none => some none
  | some quote =>
    (slice? s 0 quote).bind fun text =>
      (dropBytes? (quote + 1) s).bind fun behind =>
        match after? [','] behind with
        | none => some none
        | some rest => repeatCount? text rest.trimStart

/-- The offsets of the openers in a text that begins at `offset`. -/
def openerOffsets (offset : Nat) (s : Text) : List Nat :=
  match _h : cut? Repetition.opener s with
  | none => []
  | some (before, rest) =>
    let start := offset + utf8Size before
    start :: openerOffsets (start + utf8Size Repetition.opener) rest
termination_by s.length
decreasing_by
  have hlength := congrArg List.length (append_of_cut? _h)
  have hopener : 0 < Repetition.opener.length := by decide
  simp only [List.length_append] at hlength
  omega

theorem openerOffsets_of_eq_none {offset : Nat} {s : Text} (h : cut? Repetition.opener s = none) :
    openerOffsets offset s = [] := by
  rw [openerOffsets]
  split
  · rfl
  · next hcut => exact nomatch h.symm.trans hcut

theorem openerOffsets_of_cut? {offset : Nat} {s before rest : Text}
    (h : cut? Repetition.opener s = some (before, rest)) : openerOffsets offset s
      = (offset + utf8Size before)
        :: openerOffsets (offset + utf8Size before + utf8Size Repetition.opener) rest := by
  rw [openerOffsets]
  split
  · next hcut => exact nomatch h.symm.trans hcut
  · next hcut =>
    obtain ⟨rfl, rfl⟩ := Prod.mk.inj (Option.some.inj (h.symm.trans hcut))
    rfl

/-- The first repetition whose opener stands at one of the offsets. -/
def firstCall? (s : Text) : List Nat → Option (Option Repetition)
  | [] => some none
  | offset :: offsets =>
    (dropBytes? (offset + utf8Size Repetition.opener) s).bind fun behind =>
      (repeatArguments? behind).bind fun
        | some call => some (some call)
        | none => firstCall? s offsets

/-- The first repetition in an expression. -/
def repeatCall? (s : Text) : Option (Option Repetition) := firstCall? s (openerOffsets 0 s)

/-- A run of digits is counted in bytes, and neither slice at its end fails. -/
theorem digits_slices (s : Text) :
    (s.bytes.takeWhile isDigitByte).length = utf8Size (s.takeWhile Char.isDigit)
      ∧ slice? s 0 (utf8Size (s.takeWhile Char.isDigit)) = some (s.takeWhile Char.isDigit)
      ∧ dropBytes? (utf8Size (s.takeWhile Char.isDigit)) s = some (s.dropWhile Char.isDigit) := by
  have hslice := slice?_zero_append (s.takeWhile Char.isDigit) (s.dropWhile Char.isDigit)
  have hdrop := dropBytes?_append (s.takeWhile Char.isDigit) (s.dropWhile Char.isDigit)
  rw [List.takeWhile_append_dropWhile] at hslice hdrop
  exact ⟨length_takeWhile_bytes isAsciiClass_digit s, hslice, hdrop⟩

theorem startsWith_singleton {s : Text} {c : Char} :
    s.startsWith [c] = true ↔ s.head? = some c := by
  rw [startsWith_iff]
  rcases s with _ | ⟨d, s⟩
  · simp
  · simp [eq_comm]

theorem repeatCount?_eq (text s : Text) : repeatCount? text s
    = some (if s.takeWhile Char.isDigit ≠ [] ∧ (s.dropWhile Char.isDigit).head? = some ')' then
        some ⟨text, s.takeWhile Char.isDigit⟩
      else none) := by
  obtain ⟨hlength, hslice, hdrop⟩ := digits_slices s
  unfold repeatCount?
  dsimp only
  rw [hlength]
  by_cases hnone : s.takeWhile Char.isDigit = []
  · rw [if_pos (utf8Size_eq_zero_iff.2 hnone), if_neg fun h => h.1 hnone]
  · rw [if_neg (mt utf8Size_eq_zero_iff.1 hnone), hdrop, Option.bind_some, hslice, Option.bind_some]
    by_cases hclose : (s.dropWhile Char.isDigit).head? = some ')'
    · rw [if_pos (startsWith_singleton.2 hclose), if_pos ⟨hnone, hclose⟩]
    · rw [if_neg (mt startsWith_singleton.1 hclose), if_neg fun h => hclose h.2]

/-- **The arguments of a repetition** are read without a slice that fails. -/
theorem repeatArguments?_eq (s : Text) :
    repeatArguments? s = some (Repetition.readArguments? s) := by
  unfold repeatArguments? Repetition.readArguments?
  dsimp only
  rw [find?]
  rcases hcut : cut? ['"'] s with _ | ⟨text, behind⟩
  · have hquote := cut?_char_eq_none_iff.1 hcut
    have hall : s.dropWhile (· ≠ '"') = [] :=
      List.dropWhile_eq_nil_iff.2 fun c hc => decide_eq_true fun heq => hquote (heq ▸ hc)
    rw [hall]
    rfl
  · obtain ⟨rfl, hquote⟩ := cut?_char_eq_some_iff.1 hcut
    have htext : ∀ c ∈ text, (decide (c ≠ '"')) = true := fun c hc =>
      decide_eq_true fun heq => hquote (heq ▸ hc)
    have hstop : ∀ c ∈ ('"' :: behind).head?, (decide (c ≠ '"')) = false := by
      rintro c ⟨⟩
      decide
    have hafter : after? ['"', ','] ('"' :: behind) = after? [','] behind := rfl
    have hslice := slice?_zero_append text ('"' :: behind)
    have hbehind : dropBytes? (utf8Size text + 1) (text ++ '"' :: behind) = some behind := by
      refine dropBytes?_eq_some_iff.2 ⟨text ++ ['"'], List.append_cons _ _ _, ?_⟩
      rw [utf8Size_append]
      rfl
    rw [takeWhile_append_stop htext hstop, dropWhile_append_stop htext hstop, hafter,
      Option.map_some]
    by_cases hnone : text = []
    · -- Two quotes with nothing between them are no text.
      subst hnone
      rcases after? [','] behind with _ | rest
      · rfl
      · dsimp only
        rw [if_neg fun h => h.1 rfl]
        rfl
    · have hpos : decide (0 < utf8Size text) = true := decide_eq_true (utf8Size_pos hnone)
      have hfilter : (some (utf8Size text)).filter (fun n => decide (0 < n)) = some (utf8Size text) :=
        Option.filter_some_pos hpos
      dsimp only
      rw [hfilter]
      dsimp only
      rw [hslice, Option.bind_some, hbehind, Option.bind_some]
      rcases after? [','] behind with _ | rest
      · rfl
      · dsimp only
        rw [repeatCount?_eq]
        simp only [hnone, ne_eq, not_false_eq_true, true_and]

/-- The openers behind a part of an expression are tried one by one. -/
theorem firstCall?_append (front s : Text) :
    firstCall? (front ++ s) (openerOffsets (utf8Size front) s) = some (Repetition.find? s) := by
  induction hlength : s.length using Nat.strong_induction_on generalizing front s with
  | _ n ih =>
    rcases hcut : cut? Repetition.opener s with _ | ⟨before, rest⟩
    · rw [openerOffsets_of_eq_none hcut, Repetition.find?_eq_none_of_cut? hcut]
      rfl
    · have hs := append_of_cut? hcut
      have hshort : rest.length < n := by
        have hopener : 0 < Repetition.opener.length := by decide
        rw [← hlength, hs, List.length_append, List.length_append]
        omega
      have hfront : front ++ s = front ++ before ++ Repetition.opener ++ rest := by
        rw [hs]
        simp only [List.append_assoc]
      have hsize : utf8Size front + utf8Size before + utf8Size Repetition.opener
          = utf8Size (front ++ before ++ Repetition.opener) := by
        rw [utf8Size_append, utf8Size_append]
      rw [openerOffsets_of_cut? hcut, Repetition.find?_of_cut? hcut, firstCall?, hsize, hfront,
        dropBytes?_append, Option.bind_some, repeatArguments?_eq, Option.bind_some]
      rcases Repetition.readArguments? rest with _ | call
      · exact ih _ hshort _ rest rfl
      · rfl

/-- **The repetition of an expression** is found without a slice that fails. -/
theorem repeatCall?_eq (s : Text) : repeatCall? s = some (Repetition.find? s) :=
  firstCall?_append [] s

/-! ## Numerals in a base -/

/-- The base that the byte of a letter behind a zero stands for. -/
def baseOfByte? (b : UInt8) : Option Nat :=
  if b = byte 'x' ∨ b = byte 'X' then some 16
  else if b = byte 'o' ∨ b = byte 'O' then some 8
  else if b = byte 'b' ∨ b = byte 'B' then some 2
  else none

/-- A numeral in a base, with the first two of at least three bytes skipped. -/
def based? (s : Text) : Option (Option Numeral) :=
  match s.bytes with
  | zero :: mark :: _ :: _ =>
    if zero = byte '0' then
      match baseOfByte? mark with
      | none => some none
      | some base =>
        (dropBytes? 2 s).bind fun digits => some ((digits.mapM (digitIn base)).map (.based base))
    else some none
  | _ => some none

theorem baseOfByte?_byte {mark : Char} (h : mark.toNat < 128) :
    baseOfByte? (byte mark) = Numeral.baseOf? mark := by
  have hbyte : ∀ c : Char, c.toNat < 128 → (byte mark = byte c ↔ mark = c) := fun c hc =>
    byte_inj h hc
  unfold baseOfByte? Numeral.baseOf?
  simp only [hbyte 'x' (by decide), hbyte 'X' (by decide), hbyte 'o' (by decide),
    hbyte 'O' (by decide), hbyte 'b' (by decide), hbyte 'B' (by decide)]

/-- A byte outside of ASCII is the mark of no base. -/
theorem baseOfByte?_eq_none {b : UInt8} (h : 128 ≤ b.toNat) : baseOfByte? b = none := by
  have hne : ∀ c : Char, c.toNat < 128 → b ≠ byte c := by
    rintro c hc rfl
    rw [toNat_byte hc] at h
    omega
  unfold baseOfByte?
  rw [if_neg (not_or.2 ⟨hne 'x' (by decide), hne 'X' (by decide)⟩),
    if_neg (not_or.2 ⟨hne 'o' (by decide), hne 'O' (by decide)⟩),
    if_neg (not_or.2 ⟨hne 'b' (by decide), hne 'B' (by decide)⟩)]

/-- Nor is a character outside of ASCII. -/
theorem baseOf?_eq_none {mark : Char} (h : 128 ≤ mark.toNat) : Numeral.baseOf? mark = none := by
  rw [Option.eq_none_iff_forall_ne_some]
  intro base hbase
  rcases Numeral.baseOf?_eq_some_iff.1 hbase with
    ⟨-, rfl | rfl⟩ | ⟨-, rfl | rfl⟩ | ⟨-, rfl | rfl⟩ <;> exact absurd h (by decide)

/-- Without a zero in front and the mark of a base there is no numeral in a base. -/
theorem readBased?_eq_none {s : Text} (h : ∀ mark digits, s = '0' :: mark :: digits →
    Numeral.baseOf? mark = none) : Numeral.readBased? s = none := by
  rw [Option.eq_none_iff_forall_ne_some]
  intro n hn
  obtain ⟨mark, base, digits, hs, -, hbase⟩ := Numeral.exists_of_readBased? hn
  exact nomatch (h mark digits hs).symm.trans hbase

theorem based?_eq_none_of_head? {s : Text} (h : s.bytes.head? ≠ some (byte '0')) :
    based? s = some none := by
  unfold based?
  split
  · next zero mark b bytes hbytes =>
    rw [if_neg]
    rintro rfl
    exact h (by rw [hbytes]; rfl)
  · rfl

/-- Behind a zero and a mark of ASCII the digits begin at the third byte. -/
theorem based?_of_lt {mark : Char} (h : mark.toNat < 128) (digits : Text) :
    based? ('0' :: mark :: digits) = some (Numeral.readBased? ('0' :: mark :: digits)) := by
  have hbytes : bytes ('0' :: mark :: digits) = byte '0' :: byte mark :: bytes digits := by
    rw [bytes_cons_of_lt (by decide), bytes_cons_of_lt h]
  unfold based?
  rw [hbytes]
  rcases digits with _ | ⟨c, digits⟩
  · rfl
  · have hdrop : dropBytes? 2 ('0' :: mark :: c :: digits) = some (c :: digits) := by
      refine dropBytes?_eq_some_iff.2 ⟨['0', mark], rfl, ?_⟩
      rw [utf8Size_cons, utf8Size_cons, utf8Size_of_lt h]
      rfl
    have hmore : bytes (c :: digits) ≠ [] := by
      rw [← List.length_pos_iff, length_bytes]
      exact utf8Size_pos (List.cons_ne_nil c digits)
    obtain ⟨b, more, hmore⟩ := List.exists_cons_of_ne_nil hmore
    rw [hmore]
    dsimp only
    rw [if_pos rfl, baseOfByte?_byte h]
    rcases hbase : Numeral.baseOf? mark with _ | base
    · rw [readBased?_eq_none]
      rintro _ _ ⟨⟩
      exact hbase
    · dsimp only
      rw [hdrop, Numeral.readBased?_eq hbase (List.cons_ne_nil c digits)]
      rfl

/-- Behind a zero and another mark there is nothing to be read. -/
theorem based?_of_ge {mark : Char} (h : 128 ≤ mark.toNat) (digits : Text) :
    based? ('0' :: mark :: digits) = some none := by
  obtain ⟨b, more, hbytes, hb⟩ := exists_bytes_cons h digits
  unfold based?
  rw [bytes_cons_of_lt (by decide), hbytes]
  rcases more with _ | ⟨b', more⟩
  · rfl
  · dsimp only
    rw [if_pos rfl, baseOfByte?_eq_none hb]

/-- **A numeral in a base** is read without a slice that fails. -/
theorem based?_eq (s : Text) : based? s = some (Numeral.readBased? s) := by
  by_cases hzero : s.head? = some '0'
  · obtain ⟨s, rfl⟩ := List.head?_eq_some_iff.1 hzero
    rcases s with _ | ⟨mark, digits⟩
    · rfl
    · rcases Nat.lt_or_ge mark.toNat 128 with hlt | hge
      · exact based?_of_lt hlt digits
      · rw [based?_of_ge hge, readBased?_eq_none]
        rintro _ _ ⟨⟩
        exact baseOf?_eq_none hge
  · rw [based?_eq_none_of_head? (mt (head?_bytes_eq_some_iff (by decide)).1 hzero),
      readBased?_eq_none]
    rintro mark digits rfl
    exact absurd rfl hzero

/-! ## Whole numbers in front -/

/-- The sign in front of a text, one byte of ASCII, and what follows it. -/
def sign? (s : Text) : Option (Bool × Text) :=
  if s.bytes.head? = some (byte '-') then (dropBytes? 1 s).map fun digits => (true, digits)
  else if s.bytes.head? = some (byte '+') then (dropBytes? 1 s).map fun digits => (false, digits)
  else some (false, s)

/-- The whole number that a text begins with, behind spaces and an optional sign. -/
def leading? (s : Text) : Option (Option Binary64) :=
  (sign? s.trimStart).bind fun signed =>
    let length := (signed.2.bytes.takeWhile isDigitByte).length
    if length = 0 then some none
    else (slice? signed.2 0 length).bind fun digits =>
      some (some (Decimal.nearest signed.1 ⟨Text.toNat digits, 0⟩))

theorem sign?_eq (s : Text) : sign? s = some (Numeral.splitSign s) := by
  unfold sign?
  simp only [head?_bytes_eq_some_iff (show '-'.toNat < 128 by decide),
    head?_bytes_eq_some_iff (show '+'.toNat < 128 by decide)]
  by_cases hminus : s.head? = some '-'
  · obtain ⟨s, rfl⟩ := List.head?_eq_some_iff.1 hminus
    have hdrop : dropBytes? 1 ('-' :: s) = some s := dropBytes?_append ['-'] s
    rw [if_pos hminus, hdrop]
    rfl
  · rw [if_neg hminus]
    by_cases hplus : s.head? = some '+'
    · obtain ⟨s, rfl⟩ := List.head?_eq_some_iff.1 hplus
      have hdrop : dropBytes? 1 ('+' :: s) = some s := dropBytes?_append ['+'] s
      rw [if_pos hplus, hdrop]
      rfl
    · rw [if_neg hplus]
      unfold Numeral.splitSign
      split
      · exact absurd rfl hminus
      · exact absurd rfl hplus
      · rfl

/-- **The whole number in front** is read without a slice that fails. -/
theorem leading?_eq (s : Text) : leading? s = some (Binary64.leading? s) := by
  unfold leading? Binary64.leading?
  rw [sign?_eq, Option.bind_some]
  rcases Numeral.splitSign s.trimStart with ⟨negative, digits⟩
  obtain ⟨hlength, hslice, -⟩ := digits_slices digits
  dsimp only
  rw [hlength]
  by_cases hnone : digits.takeWhile Char.isDigit = []
  · rw [if_pos (utf8Size_eq_zero_iff.2 hnone), if_pos hnone]
  · rw [if_neg (mt utf8Size_eq_zero_iff.1 hnone), if_neg hnone, hslice]
    rfl

/-! ## All of them -/

/-- **Scanning and reading by byte offsets.**  Whatever text is given as a line, an argument or a
value, no slice of it fails, in either dialect: the assignment and the calls of a line are those of its
tokens, and a repetition, a numeral in a base and the whole number in front are read as they are from
the characters.  In each round of the loop over the calls the cursor moves on, and not beyond the end
of the line. -/
theorem slices_exact (d : Dialect) (number : UInt32) (s : Text) :
    matchAssignment? d s
        = some ((AssignmentLine.read? d s).map fun a => ⟨a.name, a.value, utf8Size a.indent⟩)
      ∧ scanAssignment? d number s = some (Token.ofAssignment? d number s)
      ∧ scanCalls? d number s 0 = some (Token.ofCalls d number 0 (CallSplit.ofLine d s).calls)
      ∧ (∀ cursor token next, round? d number s cursor = some (some (token, next)) →
          cursor < next ∧ next ≤ utf8Size s)
      ∧ repeatArguments? s = some (Repetition.readArguments? s)
      ∧ repeatCall? s = some (Repetition.find? s)
      ∧ based? s = some (Numeral.readBased? s)
      ∧ leading? s = some (Binary64.leading? s) := by
  refine ⟨matchAssignment?_eq d s, scanAssignment?_eq d number s, scanCalls?_eq d number s, ?_,
    repeatArguments?_eq s, repeatCall?_eq s, based?_eq s, leading?_eq s⟩
  intro cursor token next hround
  exact cursor_lt_of_round? hround

/-- The second round of a line with characters of several bytes ends at the end of the line. -/
theorem slices_exact_wide :
    let line : Text := "fmt.Println(strings.Repeat(\"é€\", 3))名fmt.Println(\"𝄞\")".toList
    round? .go 1 line 39
        = some (some (⟨.printCall "\"𝄞\"".toList, Span.ofColumns 1 38 53⟩, 61))
      ∧ 39 < 61 ∧ 61 ≤ utf8Size line := by
  intro line
  have hround : round? .go 1 line 39
      = some (some (⟨.printCall "\"𝄞\"".toList, Span.ofColumns 1 38 53⟩, 61)) := by
    decide +kernel
  obtain ⟨-, -, -, hprogress, -⟩ := slices_exact .go 1 line
  exact ⟨hround, hprogress 39 _ 61 hround⟩

end Scan

end Playground
