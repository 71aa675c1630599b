/-
# Texts divided into lines

The lines of a text leave out how they end: with a newline, with a carriage return and a newline, or, the
last one only, with nothing.  With its ends a text is divided into lines in one way, and put together the
lines with their ends are the text again.  Hence what stands behind the end of a line is a part of the
text of its own, and it is blank just if all later lines are, whatever their ends: the ends are spaces.

* `Text.IsDivision.map_line` : the lines of a division are the lines of the text.
* `Text.existsUnique_isDivision` : a text is divided in one way.
* `Text.IsDivision.blankFrom_eq` : the part of a text behind a line is blank just if the later lines are.
* `Text.lines_division_exact` : numbers, lines, ends and blanks of a text.
-/
import Playground.Proofs.Text.LineEnds

namespace Playground

namespace Text

/-! ## Lines with their ends -/

/-- How a line ends. -/
inductive LineEnd
  /-- With a newline. -/
  | newline
  /-- With a carriage return and a newline. -/
  | returnNewline
  /-- With the text. -/
  | nothing
  deriving DecidableEq, Repr

/-- The characters of an end. -/
def LineEnd.toText : LineEnd → Text
  | newline => ['\n']
  | returnNewline => ['\r', '\n']
  | nothing => []

/-- A line with its end. -/
@[ext]
structure EndedLine where
  /-- The line. -/
  line : Text
  /-- Its end. -/
  ending : LineEnd
  deriving DecidableEq, Repr

/-- The characters of a line and of its end. -/
def EndedLine.toText (e : EndedLine) : Text := e.line ++ e.ending.toText

/-- A line may end so. -/
structure EndedLine.Fits (e : EndedLine) : Prop where
  /-- The line holds no newline. -/
  newline : '\n' ∉ e.line
  /-- A carriage return in front of a newline is not in the line. -/
  plain : e.ending = .newline → e.line.getLast? ≠ some '\r'
  /-- A line that ends with the text is not empty. -/
  nonempty : e.ending = .nothing → e.line ≠ []

theorem EndedLine.fits_iff {e : EndedLine} : e.Fits ↔ '\n' ∉ e.line
    ∧ (e.ending = .newline → e.line.getLast? ≠ some '\r') ∧ (e.ending = .nothing → e.line ≠ []) :=
  ⟨fun h => ⟨h.newline, h.plain, h.nonempty⟩, fun h => ⟨h.1, h.2.1, h.2.2⟩⟩

instance (e : EndedLine) : Decidable e.Fits := decidable_of_iff _ EndedLine.fits_iff.symm

/-- A text is divided into lines with their ends. -/
structure IsDivision (s : Text) (ended : List EndedLine) : Prop where
  /-- Put together, the lines with their ends are the text. -/
  whole : ended.flatMap EndedLine.toText = s
  /-- Each line may end as it does. -/
  fits : ∀ e ∈ ended, e.Fits
  /-- Only the last line may end with the text. -/
  last : ∀ e ∈ ended.dropLast, e.ending ≠ .nothing

theorem isDivision_iff {s : Text} {ended : List EndedLine} :
    IsDivision s ended ↔ ended.flatMap EndedLine.toText = s ∧ (∀ e ∈ ended, e.Fits)
      ∧ ∀ e ∈ ended.dropLast, e.ending ≠ .nothing :=
  ⟨fun h => ⟨h.whole, h.fits, h.last⟩, fun h => ⟨h.1, h.2.1, h.2.2⟩⟩

instance (s : Text) (ended : List EndedLine) : Decidable (IsDivision s ended) :=
  decidable_of_iff _ isDivision_iff.symm

/-- **A division begins** with a line and its end, and goes on behind it, unless the line ends with the
text. -/
theorem isDivision_cons_iff {s : Text} {e : EndedLine} {ended : List EndedLine} :
    IsDivision s (e :: ended) ↔ ∃ rest, s = e.toText ++ rest ∧ e.Fits
      ∧ (e.ending = .nothing → ended = []) ∧ IsDivision rest ended := by
  have hlast : (∀ e' ∈ (e :: ended).dropLast, e'.ending ≠ .nothing)
      ↔ (e.ending = .nothing → ended = []) ∧ ∀ e' ∈ ended.dropLast, e'.ending ≠ .nothing := by
    rcases ended with _ | ⟨e', ended⟩
    · simp
    · rw [List.dropLast_cons_cons, List.forall_mem_cons]
      simp
  constructor
  · rintro ⟨rfl, hfits, hends⟩
    rw [List.forall_mem_cons] at hfits
    rw [hlast] at hends
    exact ⟨ended.flatMap EndedLine.toText, List.flatMap_cons, hfits.1, hends.1, rfl, hfits.2, hends.2⟩
  · rintro ⟨rest, rfl, hfirst, hend, rfl, hfits, hends⟩
    exact ⟨List.flatMap_cons, List.forall_mem_cons.2 ⟨hfirst, hfits⟩, hlast.2 ⟨hend, hends⟩⟩

theorem isDivision_nil_iff {s : Text} : IsDivision s [] ↔ s = [] := by
  constructor
  · exact fun h => h.whole.symm
  · rintro rfl
    exact ⟨rfl, by simp, by simp⟩

/-- A line that ends before its text does is the first line of the text. -/
theorem lines_toText_append {e : EndedLine} (h : e.Fits) (hend : e.ending ≠ .nothing) (rest : Text) :
    lines (e.toText ++ rest) = e.line :: lines rest := by
  obtain ⟨line, ending⟩ := e
  cases ending with
  | newline =>
    show lines (line ++ ['\n'] ++ rest) = line :: lines rest
    rw [List.append_assoc, List.singleton_append, lines_append_newline h.newline,
      withoutReturn_eq_self (h.plain rfl)]
  | returnNewline =>
    have hnewline : '\n' ∉ line ++ ['\r'] := by simp [h.newline]
    have hwhole : line ++ ['\r', '\n'] ++ rest = line ++ ['\r'] ++ '\n' :: rest := by simp
    show lines (line ++ ['\r', '\n'] ++ rest) = line :: lines rest
    rw [hwhole, lines_append_newline hnewline, withoutReturn_concat_return]
  | nothing => exact absurd rfl hend

/-! ## The division of a text -/

/-- **The lines of a division** are the lines of the text. -/
theorem IsDivision.map_line {s : Text} {ended : List EndedLine} (h : IsDivision s ended) :
    ended.map EndedLine.line = s.lines := by
  induction ended generalizing s with
  | nil =>
    rw [isDivision_nil_iff.1 h]
    rfl
  | cons e ended ih =>
    obtain ⟨rest, rfl, hfits, hend, hrest⟩ := isDivision_cons_iff.1 h
    by_cases hnothing : e.ending = .nothing
    · obtain rfl := hend hnothing
      obtain rfl := isDivision_nil_iff.1 hrest
      have htext : e.toText ++ [] = e.line := by
        unfold EndedLine.toText
        rw [hnothing, LineEnd.toText, List.append_nil, List.append_nil]
      rw [htext, lines_of_not_mem hfits.newline, if_neg (hfits.nonempty hnothing)]
      rfl
    · rw [lines_toText_append hfits hnothing, List.map_cons, ih hrest]

/-- An end and what follows it can be told from each other. -/
theorem LineEnd.toText_append_inj {a b : LineEnd} {s t : Text} (ha : a = .nothing → s = [])
    (hb : b = .nothing → t = []) (h : a.toText ++ s = b.toText ++ t) : a = b ∧ s = t := by
  cases a <;> cases b <;> simp_all [LineEnd.toText]

/-- A text is divided in one way at most. -/
theorem IsDivision.unique {s : Text} {ended ended' : List EndedLine} (h : IsDivision s ended)
    (h' : IsDivision s ended') : ended = ended' := by
  have hlines : ended.map EndedLine.line = ended'.map EndedLine.line := by
    rw [h.map_line, h'.map_line]
  induction ended generalizing s ended' with
  | nil => exact (List.map_eq_nil_iff.1 hlines.symm).symm
  | cons e ended ih =>
    rcases ended' with _ | ⟨e', ended'⟩
    · exact nomatch hlines
    · obtain ⟨hline, hbehind⟩ := List.cons.inj hlines
      obtain ⟨rest, hs, -, hend, hrest⟩ := isDivision_cons_iff.1 h
      obtain ⟨rest', hs', -, hend', hrest'⟩ := isDivision_cons_iff.1 h'
      have hwhole : e.ending.toText ++ rest = e'.ending.toText ++ rest' := by
        rw [hs] at hs'
        unfold EndedLine.toText at hs'
        rwa [hline, List.append_assoc, List.append_assoc, List.append_cancel_left_eq] at hs'
      have hnothing : e.ending = .nothing → rest = [] := fun heq =>
        isDivision_nil_iff.1 (hend heq ▸ hrest)
      have hnothing' : e'.ending = .nothing → rest' = [] := fun heq =>
        isDivision_nil_iff.1 (hend' heq ▸ hrest')
      obtain ⟨hending, rfl⟩ := LineEnd.toText_append_inj hnothing hnothing' hwhole
      have hfirst : e = e' := EndedLine.ext hline hending
      rw [hfirst, ih hrest hrest' hbehind]

/-- **A text is divided** into lines with their ends in one way. -/
theorem existsUnique_isDivision (s : Text) : ∃! ended, IsDivision s ended := by
  refine existsUnique_of_exists_of_unique ?_ fun _ _ h h' => h.unique h'
  induction s using inductionOnLines with
  | single s hs =>
    by_cases hnil : s = []
    · exact ⟨[], isDivision_nil_iff.2 hnil⟩
    · refine ⟨[⟨s, .nothing⟩], isDivision_cons_iff.2 ⟨[], ?_, ?_, fun _ => rfl, ?_⟩⟩
      · exact ((List.append_nil _).trans (List.append_nil s)).symm
      · exact ⟨hs, nofun, fun _ => hnil⟩
      · exact isDivision_nil_iff.2 rfl
  | more line s hline ih =>
    obtain ⟨ended, hended⟩ := ih
    by_cases hreturn : line.getLast? = some '\r'
    · -- The carriage return goes to the end.
      obtain ⟨front, rfl⟩ := List.getLast?_eq_some_iff.1 hreturn
      have hfront : '\n' ∉ front := fun hmem => hline (List.mem_append_left _ hmem)
      refine ⟨⟨front, .returnNewline⟩ :: ended, isDivision_cons_iff.2 ⟨s, ?_, ?_, ?_, hended⟩⟩
      · simp [EndedLine.toText, LineEnd.toText]
      · exact ⟨hfront, nofun, nofun⟩
      · exact nofun
    · refine ⟨⟨line, .newline⟩ :: ended, isDivision_cons_iff.2 ⟨s, ?_, ?_, ?_, hended⟩⟩
      · simp [EndedLine.toText, LineEnd.toText]
      · exact ⟨hline, fun _ => hreturn, nofun⟩
      · exact nofun

/-! ## Blank parts -/

/-- All ends are spaces. -/
theorem EndedLine.isBlank_toText (e : EndedLine) : e.toText.isBlank = e.line.isBlank := by
  have hends : e.ending.toText.isBlank = true := by
    cases e.ending <;> decide
  unfold isBlank at hends
  unfold isBlank EndedLine.toText
  rw [List.all_append, hends, Bool.and_true]

/-- What stands behind the end of the line with number `n`, or the whole text for zero. -/
def partBehind (ended : List EndedLine) (n : Nat) : Text := (ended.drop n).flatMap EndedLine.toText

/-- **The part of a text** behind the end of a line is blank just if all later lines are. -/
theorem IsDivision.blankFrom_eq {s : Text} {ended : List EndedLine} (h : IsDivision s ended)
    (n : Nat) : blankFrom s.lines n = (partBehind ended n).isBlank := by
  unfold blankFrom partBehind isBlank
  rw [← h.map_line, ← List.map_drop, List.all_map, List.all_flatMap]
  apply congrArg (ended.drop n).all
  funext e
  exact e.isBlank_toText.symm

/-- The numbers of the lines, if there are numbers for all of them. -/
theorem map_fst_countedLines {s : Text} (h : s.lines.length < UInt32.size - 1) :
    s.countedLines.map (fun numbered => numbered.1.toNat) = List.range' 1 s.lines.length := by
  unfold countedLines
  rw [List.map_map, ← List.zipIdx_map_snd]
  apply List.map_congr_left
  rintro ⟨line, number⟩ hmem
  have hlt := List.snd_lt_add_of_mem_zipIdx hmem
  show (UInt32.ofNat number).toNat = number
  apply UInt32.toNat_ofNat_of_lt'
  omega

/-- **Lines, numbers, ends and blanks.**  The lines of a text are numbered from 1 on, hold no newline, and
in one way they can be given their ends so that put together they are the text.  The part behind the
end of a line is blank just if the later lines are: the whole text is behind none of them, nothing is
behind all of them, and less is behind a later one.  Text is blank if trimming leaves nothing of it. -/
theorem lines_division_exact {s : Text} (h : s.lines.length < UInt32.size - 1) :
    s.countedLines.map (fun numbered => numbered.1.toNat) = List.range' 1 s.lines.length
      ∧ s.countedLines.map Prod.snd = s.lines
      ∧ (∀ line ∈ s.lines, '\n' ∉ line)
      ∧ (∃! ended, IsDivision s ended)
      ∧ (∀ ended, IsDivision s ended → ended.map EndedLine.line = s.lines
        ∧ ∀ n, blankFrom s.lines n = true ↔ ∀ c ∈ partBehind ended n, isSpace c = true)
      ∧ s.isBlank = blankFrom s.lines 0
      ∧ (∀ n, s.lines.length ≤ n → blankFrom s.lines n = true)
      ∧ (∀ m n, m ≤ n → blankFrom s.lines m = true → blankFrom s.lines n = true)
      ∧ ∀ t : Text, t.isBlank = true ↔ t.trim = [] := by
  obtain ⟨ended, hended, hunique⟩ := existsUnique_isDivision s
  have hblank (n : Nat) := hended.blankFrom_eq n
  have hnewline : ∀ line ∈ s.lines, '\n' ∉ line := by
    rw [← hended.map_line]
    intro line hline
    obtain ⟨e, he, rfl⟩ := List.mem_map.1 hline
    exact (hended.fits e he).newline
  refine ⟨map_fst_countedLines h, map_snd_countedLines s, hnewline, ⟨ended, hended, hunique⟩, ?_, ?_,
    ?_, ?_, fun t => trim_eq_nil_iff.symm⟩
  · intro ended' hended'
    refine ⟨hended'.map_line, fun n => ?_⟩
    rw [hended'.blankFrom_eq, isBlank, List.all_eq_true]
  · rw [hblank, partBehind, List.drop_zero, hended.whole]
  · intro n hn
    rw [blankFrom, List.drop_of_length_le hn, List.all_nil]
  · intro m n hle hm
    -- The later lines of a later line are among those of an earlier one.
    have hlater : s.lines.drop n <:+ s.lines.drop m := List.drop_suffix_drop_left s.lines hle
    have hall : ∀ line ∈ s.lines.drop m, line.isBlank = true := List.all_eq_true.1 hm
    exact List.all_eq_true.2 fun line hline => hall line (hlater.mem hline)

/-- Three lines, each with an end of its own, and only spaces behind the first. -/
theorem lines_division_mixed :
    let s : Text := "a\rb\r\n \u2028\n\r".toList
    let ended : List EndedLine :=
      [⟨"a\rb".toList, .returnNewline⟩, ⟨" \u2028".toList, .newline⟩, ⟨['\r'], .nothing⟩]
    s.countedLines.map (fun numbered => numbered.1.toNat) = [1, 2, 3]
      ∧ IsDivision s ended ∧ ended.map EndedLine.line = s.lines ∧ blankFrom s.lines 1 = true := by
  intro s ended
  obtain ⟨hnumbers, -, -, -, hdivision, -⟩ := @lines_division_exact s (by decide)
  have hended : IsDivision s ended := by decide
  have hspaces : (partBehind ended 1).isBlank = true := by decide
  obtain ⟨hlines, hblank⟩ := hdivision ended hended
  have hfrom : blankFrom s.lines 1 = true := (hblank 1).2 (List.all_eq_true.1 hspaces)
  exact ⟨hnumbers.trans (by decide), hended, hlines, hfrom⟩

end Text

end Playground
