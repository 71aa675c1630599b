/-
# Scanning by byte offsets

The constructs of a line are found here in the way of a scanner that knows the line by byte offsets: it
takes slices of the line from one offset to another, looks for a key in a slice, and adds up where it
found it.  The loop over the calls of a line keeps a cursor, and each round sets the cursor behind the
call that it found.  No slice fails, whatever stands on the line, the cursor moves on in every round and
stays within the line, and what is found are the tokens of the line.

* `Scan.scanAssignment?_eq` : the assignment of a line.
* `Scan.cursor_lt_of_round?` : each round of the loop moves the cursor on, within the line.
* `Scan.scanCalls?_eq` : the calls of a line.
-/
import Playground.Proofs.AssignmentGrammar
import Playground.Proofs.CallGrammar
import Playground.Proofs.Offsets.Slices

namespace Playground

/-! ## Keys and classes of bytes -/

namespace Text

/-- The offset at which a key occurs first. -/
def find? (key s : Text) : Option Nat := (cut? key s).map fun around => utf8Size around.1

end Text

namespace Scan

open Text

/-! ## Assignments -/

/-- Whether a byte may begin a name. -/
def startsNameByte (b : UInt8) : Bool := isAlphaByte b || b = byte '_'

/-- Whether a byte may stand in a name. -/
def isNameByte (b : UInt8) : Bool := isAlphaByte b || isDigitByte b || b = byte '_'

/-- The count of bytes of the name at the start of a text. -/
def nameLength? (s : Text) : Option Nat :=
  if s.bytes.head?.any startsNameByte then some (s.bytes.takeWhile isNameByte).length else none

/-- The name and the value of an assignment, and the offset of the name on its line. -/
structure Match where
  /-- The name. -/
  name : Text
  /-- What follows the operator. -/
  value : Text
  /-- The offset of the name. -/
  offset : Nat
  deriving DecidableEq, Repr

/-- Matches what follows the indent of a line, which ends at `offset`.  The outer `none` stands for a
slice that fails. -/
def matchName? (d : Dialect) (offset : Nat) (s : Text) : Option (Option Match) :=
  match nameLength? s with
  | none => some none
  | some length =>
    (slice? s 0 length).bind fun name =>
      (dropBytes? length s).bind fun behind =>
        some (match after? d.operator behind.trimStart with
          | none => none
          | some value => if value = [] then none else some ⟨name, value, offset⟩)

/-- Matches a line as an assignment. -/
def matchAssignment? (d : Dialect) (line : Text) : Option (Option Match) :=
  let offset := if d.indents then utf8Size line - utf8Size line.trimStart else 0
  (dropBytes? offset line).bind (matchName? d offset)

/-- The column at an offset of a line. -/
def column? (line : Text) (offset : Nat) : Option UInt32 :=
  (slice? line 0 offset).map fun before => Span.columnAfter before.length

/-- The token of an assignment. -/
def scanAssignment? (d : Dialect) (number : UInt32) (line : Text) : Option (Option Token) :=
  (matchAssignment? d line).bind fun found =>
    match found with
    | none => some none
    | some m => (column? line m.offset).bind fun column =>
      some (some ⟨.assignment m.name m.value,
        Span.ofColumns number column (UInt32.ofNat line.length)⟩)

theorem isAsciiClass_startsName :
    IsAsciiClass startsNameByte fun c => c.isAlpha || decide (c = '_') :=
  isAsciiClass_alpha.or (isAsciiClass_char (by decide))

theorem isAsciiClass_name : IsAsciiClass isNameByte AssignmentLine.isNameChar :=
  (isAsciiClass_alpha.or isAsciiClass_digit).or (isAsciiClass_char (by decide))

theorem nameLength?_eq (s : Text) : nameLength? s
    = if AssignmentLine.startsName s then some (utf8Size (s.takeWhile AssignmentLine.isNameChar))
      else none := by
  rw [nameLength?, any_head?_bytes isAsciiClass_startsName, length_takeWhile_bytes isAsciiClass_name]
  rfl

/-- What follows the indent is matched as it is read. -/
theorem matchName?_eq (d : Dialect) (indent s : Text) : matchName? d (utf8Size indent) s
    = some ((AssignmentLine.readName? d indent s).map
      fun a => ⟨a.name, a.value, utf8Size a.indent⟩) := by
  have hname := slice?_zero_append (s.takeWhile AssignmentLine.isNameChar)
    (s.dropWhile AssignmentLine.isNameChar)
  have hbehind := dropBytes?_append (s.takeWhile AssignmentLine.isNameChar)
    (s.dropWhile AssignmentLine.isNameChar)
  rw [List.takeWhile_append_dropWhile] at hname hbehind
  unfold matchName? AssignmentLine.readName?
  rw [nameLength?_eq]
  by_cases hstarts : AssignmentLine.startsName s = true
  · rw [if_pos hstarts]
    dsimp only
    rw [if_pos hstarts, hname, Option.bind_some, hbehind, Option.bind_some]
    unfold trimStart
    rcases after? d.operator _ with _ | value
    · rfl
    · dsimp only
      split_ifs <;> rfl
  · rw [if_neg hstarts]
    dsimp only
    rw [if_neg hstarts]
    rfl

/-- **A line is matched as an assignment** without a slice that fails, and its parts are those of the
assignment that it is read as. -/
theorem matchAssignment?_eq (d : Dialect) (line : Text) : matchAssignment? d line
    = some ((AssignmentLine.read? d line).map fun a => ⟨a.name, a.value, utf8Size a.indent⟩) := by
  unfold matchAssignment? AssignmentLine.read?
  dsimp only
  by_cases hindents : d.indents = true
  · -- The spaces in front make up the difference of the sizes.
    have hwhole : line.takeWhile isSpace ++ line.trimStart = line := List.takeWhile_append_dropWhile
    have hsize := congrArg utf8Size hwhole
    have hdrop := dropBytes?_append (line.takeWhile isSpace) line.trimStart
    have hoffset : utf8Size line - utf8Size line.trimStart = utf8Size (line.takeWhile isSpace) := by
      rw [utf8Size_append] at hsize
      omega
    rw [hwhole] at hdrop
    rw [if_pos hindents, if_pos hindents, hoffset, hdrop, Option.bind_some]
    exact matchName?_eq d _ _
  · have hdrop := dropBytes?_append [] line
    rw [if_neg hindents, if_neg hindents]
    rw [List.nil_append, utf8Size_nil] at hdrop
    rw [hdrop, Option.bind_some]
    exact matchName?_eq d [] line

theorem column?_append (before rest : Text) :
    column? (before ++ rest) (utf8Size before) = some (Span.columnAfter before.length) := by
  rw [column?, slice?_zero_append]
  rfl

/-- **The assignment of a line** is scanned without a slice that fails. -/
theorem scanAssignment?_eq (d : Dialect) (number : UInt32) (line : Text) :
    scanAssignment? d number line = some (Token.ofAssignment? d number line) := by
  unfold scanAssignment? Token.ofAssignment?
  rw [matchAssignment?_eq, Option.bind_some]
  rcases hread : AssignmentLine.read? d line with _ | a
  · rfl
  · have hwhole := AssignmentLine.toText_of_read? hread
    unfold AssignmentLine.toText at hwhole
    have hcolumn := column?_append a.indent (a.name ++ (a.gap ++ (d.operator ++ a.value)))
    simp only [← List.append_assoc] at hcolumn
    rw [hwhole] at hcolumn
    show (column? line (utf8Size a.indent)).bind _ = _
    rw [hcolumn]
    rfl

/-! ## Calls -/

/-- Where a call closes whose argument stands between two offsets: at the next parenthesis, if the
argument opens a repetition. -/
def closeRepetition? (line : Text) (start stop : Nat) : Option Nat :=
  (slice? line start stop).bind fun argument =>
    if argument.includes Call.repeatOpener then
      (dropBytes? (stop + 1) line).bind fun rest =>
        some (match find? [')'] rest with
          | some next => stop + 1 + next
          | none => stop)
    else some stop

/-- Where a call closes in either dialect. -/
def close? (d : Dialect) (line : Text) (start stop : Nat) : Option Nat :=
  match d with
  | .python => some stop
  | .go => closeRepetition? line start stop

/-- One round of the loop over the calls of a line: the token that is found behind the cursor and the
next cursor, or nothing where the loop ends.  The outer `none` stands for a slice that fails. -/
def round? (d : Dialect) (number : UInt32) (line : Text) (cursor : Nat) :
    Option (Option (Token × Nat)) :=
  (dropBytes? cursor line).bind fun rest =>
    match find? d.opener rest with
    | none => some none
    | some found =>
      let start := cursor + found
      let argumentStart := start + utf8Size d.opener
      (dropBytes? argumentStart line).bind fun body =>
        match find? [')'] body with
        | none => some none
        | some length =>
          (close? d line argumentStart (argumentStart + length)).bind fun stop =>
            (column? line start).bind fun first =>
              (column? line stop).bind fun last =>
                (slice? line argumentStart stop).bind fun argument =>
                  some (some (⟨.printCall argument, Span.ofColumns number first last⟩, stop + 1))

theorem utf8Size_close : utf8Size [')'] = 1 := rfl

/-- A call closes where its argument is read to end. -/
theorem close?_append (d : Dialect) (front argument rest : Text) :
    close? d (front ++ (argument ++ ')' :: rest)) (utf8Size front) (utf8Size (front ++ argument))
      = some (utf8Size (front ++ (Call.close d argument rest).1)) := by
  cases d with
  | python => rfl
  | go =>
    have hargument : slice? (front ++ (argument ++ ')' :: rest)) (utf8Size front)
        (utf8Size (front ++ argument)) = some argument :=
      slice?_eq_some_iff.2 ⟨front, ')' :: rest, (List.append_assoc _ _ _).symm, rfl, rfl⟩
    have hrest : dropBytes? (utf8Size (front ++ argument) + 1) (front ++ (argument ++ ')' :: rest))
        = some rest := by
      refine dropBytes?_eq_some_iff.2 ⟨front ++ argument ++ [')'], ?_, ?_⟩
      · simp only [List.append_assoc, List.singleton_append]
      · rw [utf8Size_append _ [')'], utf8Size_close]
    show closeRepetition? _ _ _ = _
    rw [closeRepetition?, hargument, Option.bind_some]
    by_cases hrepeats : argument.includes Call.repeatOpener = true
    · have hnests : Call.nests .go argument = true := hrepeats
      rw [if_pos hrepeats, hrest, Option.bind_some, find?, Call.close, hnests]
      rcases cut? [')'] rest with _ | ⟨more, behind⟩
      · rfl
      · -- The next parenthesis stands behind the first one.
        show some (utf8Size (front ++ argument) + 1 + utf8Size more)
          = some (utf8Size (front ++ (argument ++ ')' :: more)))
        have hsize := utf8Size_append [')'] more
        rw [utf8Size_close] at hsize
        rw [← List.append_assoc, utf8Size_append _ (')' :: more)]
        show some _ = some (_ + utf8Size ([')'] ++ more))
        rw [hsize, Nat.add_assoc]
    · have hnests : Call.nests .go argument = false := Bool.not_eq_true _ ▸ hrepeats
      rw [if_neg hrepeats, Call.close, hnests]

/-- The columns at both ends of a call and the argument between them are taken without a slice that
fails. -/
theorem parts_of_call (front opener argument behind : Text) :
    let line := front ++ opener ++ (argument ++ ')' :: behind)
    column? line (utf8Size front) = some (Span.columnAfter front.length)
      ∧ column? line (utf8Size (front ++ opener ++ argument))
        = some (Span.columnAfter (front ++ opener ++ argument).length)
      ∧ slice? line (utf8Size (front ++ opener)) (utf8Size (front ++ opener ++ argument))
        = some argument := by
  intro line
  have hline : line = front ++ opener ++ argument ++ ')' :: behind := (List.append_assoc _ _ _).symm
  refine ⟨?_, ?_, ?_⟩
  · show column? (front ++ opener ++ (argument ++ ')' :: behind)) _ = _
    rw [List.append_assoc front]
    exact column?_append _ _
  · rw [hline]
    exact column?_append _ _
  · rw [hline]
    exact slice?_append _ _ _

/-- **A round of the loop** finds the next call behind the cursor, without a slice that fails. -/
theorem round?_append (d : Dialect) (number : UInt32) (before rest : Text) :
    round? d number (before ++ rest) (utf8Size before)
      = some ((Call.next? d rest).map fun next =>
        (⟨.printCall next.1.argument, Span.ofColumns number
            (Span.columnAfter (before ++ next.1.gap).length)
            (Span.columnAfter (before ++ next.1.gap ++ d.opener ++ next.1.argument).length)⟩,
          utf8Size (before ++ next.1.toText d))) := by
  rw [round?, dropBytes?_append, Option.bind_some, Call.next?, find?]
  rcases hopener : cut? d.opener rest with _ | ⟨gap, body⟩
  · rfl
  · have hstart : utf8Size before + utf8Size gap = utf8Size (before ++ gap) :=
      (utf8Size_append _ _).symm
    have hopened : utf8Size (before ++ gap) + utf8Size d.opener
        = utf8Size (before ++ gap ++ d.opener) := (utf8Size_append _ _).symm
    have hrest : before ++ rest = before ++ gap ++ d.opener ++ body := by
      rw [append_of_cut? hopener]
      simp only [List.append_assoc]
    have hbody : dropBytes? (utf8Size (before ++ gap ++ d.opener)) (before ++ rest) = some body := by
      rw [hrest]
      exact dropBytes?_append _ body
    dsimp only [Option.map_some]
    rw [hstart, hopened, hbody, Option.bind_some, find?]
    rcases hclose : cut? [')'] body with _ | ⟨argument, behind⟩
    · rfl
    · have hended : utf8Size (before ++ gap ++ d.opener) + utf8Size argument
          = utf8Size (before ++ gap ++ d.opener ++ argument) := (utf8Size_append _ _).symm
      -- The line is the same around the first parenthesis and around the one that closes the call.
      have hline : before ++ rest
          = before ++ gap ++ d.opener ++ (argument ++ ')' :: behind) := by
        rw [hrest, append_of_cut? hclose, List.append_assoc argument, List.singleton_append]
      have hstop := close?_append d (before ++ gap ++ d.opener) argument behind
      rw [← hline] at hstop
      rw [← Call.append_close d argument behind] at hline
      dsimp only [Option.map_some]
      generalize Call.close d argument behind = closed at hline hstop ⊢
      obtain ⟨hfirst, hlast, hargument⟩ := parts_of_call (before ++ gap) d.opener closed.1 closed.2
      rw [← hline] at hfirst hlast hargument
      have hnext : utf8Size (before ++ gap ++ d.opener ++ closed.1) + 1
          = utf8Size (before ++ Call.toText d ⟨gap, closed.1⟩) := by
        rw [← utf8Size_close, ← utf8Size_append, Call.toText]
        simp only [List.append_assoc]
      rw [hended, hstop, Option.bind_some, hfirst, Option.bind_some, hlast, Option.bind_some,
        hargument, Option.bind_some, hnext]

/-- **Each round moves the cursor on**, and not beyond the end of the line. -/
theorem cursor_lt_of_round? {d : Dialect} {number : UInt32} {line : Text} {cursor next : Nat}
    {token : Token} (h : round? d number line cursor = some (some (token, next))) :
    cursor < next ∧ next ≤ utf8Size line := by
  have hcursor : ∃ rest, dropBytes? cursor line = some rest := by
    unfold round? at h
    obtain ⟨rest, hrest, -⟩ := Option.bind_eq_some_iff.1 h
    exact ⟨rest, hrest⟩
  obtain ⟨rest, hrest⟩ := hcursor
  obtain ⟨before, rfl, rfl⟩ := dropBytes?_eq_some_iff.1 hrest
  rw [round?_append, Option.some_inj, Option.map_eq_some_iff] at h
  obtain ⟨⟨call, behind⟩, hnext, hround⟩ := h
  obtain ⟨-, rfl⟩ := Prod.mk.inj hround
  -- A call takes up a byte at least, the parenthesis.
  have hcall : 0 < utf8Size (call.toText d) := by
    rw [Call.toText, utf8Size_append, utf8Size_close]
    exact Nat.succ_pos _
  dsimp only
  rw [Call.append_of_next? hnext, ← List.append_assoc, utf8Size_append _ behind, utf8Size_append]
  exact ⟨Nat.lt_add_of_pos_right hcall, Nat.le_add_right _ _⟩

/-- The tokens of the calls behind the cursor.  The outer `none` stands for a slice that fails. -/
def scanCalls? (d : Dialect) (number : UInt32) (line : Text) (cursor : Nat) : Option (List Token) :=
  match _h : round? d number line cursor with
  | none => none
  | some none => some []
  | some (some (token, next)) => (scanCalls? d number line next).map (token :: ·)
termination_by utf8Size line - cursor
decreasing_by
  have hcursor := cursor_lt_of_round? _h
  omega

theorem scanCalls?_of_round?_eq_none {d : Dialect} {number : UInt32} {line : Text} {cursor : Nat}
    (h : round? d number line cursor = some none) : scanCalls? d number line cursor = some [] := by
  rw [scanCalls?]
  split
  · next hround => exact nomatch h.symm.trans hround
  · rfl
  · next hround => exact nomatch h.symm.trans hround

theorem scanCalls?_of_round? {d : Dialect} {number : UInt32} {line : Text} {cursor next : Nat}
    {token : Token} (h : round? d number line cursor = some (some (token, next))) :
    scanCalls? d number line cursor = (scanCalls? d number line next).map (token :: ·) := by
  rw [scanCalls?]
  split
  · next hround => exact nomatch h.symm.trans hround
  · next hround => exact nomatch h.symm.trans hround
  · next hround =>
    obtain ⟨rfl, rfl⟩ := Prod.mk.inj (Option.some.inj (Option.some.inj (h.symm.trans hround)))
    rfl

/-- The calls behind a part of a line are found, with the part before them as their offset. -/
theorem scanCalls?_append (d : Dialect) (number : UInt32) (before rest : Text) :
    scanCalls? d number (before ++ rest) (utf8Size before)
      = some (Token.ofCalls d number before.length (CallSplit.ofLine d rest).calls) := by
  fun_induction CallSplit.ofLine d rest generalizing before with
  | case1 rest h =>
    have hround := round?_append d number before rest
    rw [h] at hround
    rw [scanCalls?_of_round?_eq_none hround]
    rfl
  | case2 rest call behind h ih =>
    have hround := round?_append d number before rest
    have hrest : before ++ rest = before ++ call.toText d ++ behind := by
      rw [Call.append_of_next? h, List.append_assoc]
    have hlength : (before ++ call.toText d).length
        = before.length + call.gap.length + d.opener.length + call.argument.length + 1 := by
      simp only [Call.toText, List.length_append, List.length_singleton]
      omega
    rw [h] at hround
    rw [scanCalls?_of_round? hround, hrest, ih, hlength]
    simp only [List.length_append, Option.map_some]
    rfl

/-- **The calls of a line** are scanned without a slice that fails. -/
theorem scanCalls?_eq (d : Dialect) (number : UInt32) (line : Text) :
    scanCalls? d number line 0
      = some (Token.ofCalls d number 0 (CallSplit.ofLine d line).calls) :=
  scanCalls?_append d number [] line

end Scan

end Playground
