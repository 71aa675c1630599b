/-
# Valid Python programs

A Python program is refused for one of three reasons: it is blank, it opens a print call and holds
no parenthesis that closes, or its last line that is not blank assigns nothing but spaces.  The last
one is found line by line, by a test that involves trimming; here it is said of the program as a
whole.  In a program that is not refused, some line behind every assignment of spaces could still be
its value.  All of this holds as long as the numbers of the lines are words: from the line `2 ^ 32` on
they begin again, and the test of a line looks behind another line.

* `isDangling_iff` : the test of a line says that it assigns nothing but spaces.
* `Text.blankFrom_number_iff` : what the number of a line tells of the lines behind it.
* `danglingAssignment?_eq_some_iff` : the line that is found is the last one that is not blank.
* `validityFailure?_python_exact` : the programs that are refused, and why.
-/
import Playground.Proofs.Reading
import Playground.Validity

namespace Playground

/-! ## Lines that assign spaces -/

/-- A line assigns nothing but spaces: it consists of a name, spaces, the operator and at least one
more space. -/
def AssignsSpaces (line : Text) : Prop :=
  ∃ name gap value : Text, AssignmentLine.IsName name ∧ gap.isBlank = true ∧ value ≠ []
    ∧ value.isBlank = true ∧ line = name ++ gap ++ '=' :: value

/-- No equals sign stands in front of the operator. -/
theorem AssignmentLine.not_mem_equals {name gap : Text} (hname : IsName name)
    (hgap : gap.isBlank = true) : '=' ∉ name ++ gap := by
  rw [List.mem_append, not_or]
  exact ⟨hname.not_mem (by decide), Text.not_mem_of_isBlank hgap (by decide)⟩

/-- A line is an assignment in Python if it is written as a name, spaces, the operator and a
value. -/
theorem AssignmentLine.fits_python_iff {line : Text} :
    fits .python line = true ↔ ∃ name gap value : Text, IsName name ∧ gap.isBlank = true
      ∧ value ≠ [] ∧ line = name ++ gap ++ '=' :: value := by
  unfold fits
  rw [Option.isSome_iff_exists]
  constructor
  · rintro ⟨⟨indent, name, gap, value⟩, hread⟩
    obtain ⟨-, hline⟩ := isSplit_python_iff.1 (read?_eq_some_iff.1 hread)
    exact ⟨name, gap, value, hline⟩
  · rintro ⟨name, gap, value, hline⟩
    exact ⟨⟨[], name, gap, value⟩, read?_eq_some_iff.2 (isSplit_python_iff.2 ⟨rfl, hline⟩)⟩

/-- Spaces at the end of an assignment are those of its value. -/
theorem trim_assignment {name : Text} (hname : AssignmentLine.IsName name) (gap value : Text) :
    Text.trim (name ++ gap ++ '=' :: value) = name ++ gap ++ '=' :: value.trimEnd := by
  have hstart : Text.trimStart (name ++ gap ++ '=' :: value) = name ++ gap ++ '=' :: value := by
    apply Text.trimStart_eq_self
    rw [List.append_assoc]
    exact AssignmentLine.isSpace_of_head? hname _
  have hequals : Text.isBlank ('=' :: value) = false := by rfl
  unfold Text.trim
  rw [hstart, Text.trimEnd_append hequals]
  by_cases hblank : value.isBlank = true
  · rw [Text.trimEnd_eq_nil_iff.2 hblank]
    show _ ++ Text.trimEnd (['='] ++ value) = _
    rw [Text.trimEnd_append_of_isBlank _ hblank]
    rfl
  · show _ ++ Text.trimEnd (['='] ++ value) = _
    rw [Text.trimEnd_append (Bool.eq_false_iff.2 hblank)]
    rfl

/-- **The test of a line** says that it assigns nothing but spaces. -/
theorem isDangling_iff {line : Text} : isDangling line = true ↔ AssignsSpaces line := by
  unfold isDangling
  rw [Bool.and_eq_true, Bool.not_eq_true', AssignmentLine.fits_python_iff]
  constructor
  · rintro ⟨⟨name, gap, value, hname, hgap, hvalue, rfl⟩, htrim⟩
    refine ⟨name, gap, value, hname, hgap, hvalue, ?_, rfl⟩
    -- A value that is not blank would be left by trimming.
    rw [trim_assignment hname] at htrim
    by_contra hblank
    have hne : value.trimEnd ≠ [] := fun hnil => hblank (Text.trimEnd_eq_nil_iff.1 hnil)
    rw [AssignmentLine.fits_python_iff.2 ⟨name, gap, _, hname, hgap, hne, rfl⟩] at htrim
    exact Bool.noConfusion htrim
  · rintro ⟨name, gap, value, hname, hgap, hvalue, hblank, rfl⟩
    refine ⟨⟨name, gap, value, hname, hgap, hvalue, rfl⟩, ?_⟩
    rw [trim_assignment hname, Text.trimEnd_eq_nil_iff.2 hblank, ← Bool.not_eq_true,
      AssignmentLine.fits_python_iff]
    rintro ⟨name', gap', value', hname', hgap', hvalue', heq⟩
    have hfront := AssignmentLine.not_mem_equals hname hgap
    have hfront' := AssignmentLine.not_mem_equals hname' hgap'
    exact hvalue' ((Text.append_cons_inj hfront hfront').1 heq).2.symm

/-- Such a line is not blank. -/
theorem AssignsSpaces.isBlank_eq_false {line : Text} (h : AssignsSpaces line) :
    line.isBlank = false := by
  obtain ⟨name, gap, value, -, -, -, -, rfl⟩ := h
  rw [← Bool.not_eq_true]
  intro hblank
  exact absurd (List.all_eq_true.1 hblank '=' (by simp)) (by decide)

/-- A line that does not end with a space assigns more. -/
theorem not_assignsSpaces_concat (s : Text) {c : Char} (hc : Text.isSpace c = false) :
    ¬ AssignsSpaces (s ++ [c]) := by
  rintro ⟨name, gap, value, -, -, hvalue, hblank, hline⟩
  have hlast : value.getLast? = some c := by
    rw [← List.getLast?_append_of_ne_nil (name ++ gap ++ ['=']) hvalue, List.append_assoc,
      List.singleton_append, ← hline, List.getLast?_concat]
  rw [List.all_eq_true.1 hblank c (List.mem_of_getLast? hlast)] at hc
  exact Bool.noConfusion hc

/-- A value that is not blank is more than spaces. -/
theorem not_assignsSpaces {name gap value : Text} (hname : AssignmentLine.IsName name)
    (hgap : gap.isBlank = true) (hvalue : value.isBlank = false) :
    ¬ AssignsSpaces (name ++ gap ++ '=' :: value) := by
  rintro ⟨name', gap', value', hname', hgap', -, hblank, heq⟩
  have hfront := AssignmentLine.not_mem_equals hname hgap
  have hfront' := AssignmentLine.not_mem_equals hname' hgap'
  rw [((Text.append_cons_inj hfront hfront').1 heq).2, hblank] at hvalue
  exact Bool.noConfusion hvalue

/-! ## The last line that is not blank -/

/-- `line` stands among some lines with blank ones only behind it. -/
structure IsLastLine (lines before : List Text) (line : Text) (after : List Text) : Prop where
  /-- The lines are those before it, itself and those behind it. -/
  whole : lines = before ++ line :: after
  /-- It is not blank. -/
  written : line.isBlank = false
  /-- The lines behind it are. -/
  blank : ∀ l ∈ after, l.isBlank = true

/-- Of a list of lines at most one is the last that is not blank. -/
theorem IsLastLine.unique {lines before before' after after' : List Text} {line line' : Text}
    (h : IsLastLine lines before line after) (h' : IsLastLine lines before' line' after') :
    before = before' ∧ line = line' ∧ after = after' := by
  obtain ⟨rfl, hline, hafter⟩ := h
  obtain ⟨heq, hline', hafter'⟩ := h'
  rcases List.append_eq_append_iff.1 heq with ⟨between, rfl, hsplit⟩ | ⟨between, rfl, hsplit⟩
  · rcases between with _ | ⟨l, between⟩
    · obtain ⟨rfl, rfl⟩ := List.cons.inj hsplit
      exact ⟨(List.append_nil _).symm, rfl, rfl⟩
    · -- One of them would stand among the blank lines behind the other.
      obtain ⟨rfl, rfl⟩ := List.cons.inj hsplit
      rw [hafter line' (by simp)] at hline'
      exact Bool.noConfusion hline'
  · rcases between with _ | ⟨l, between⟩
    · obtain ⟨rfl, rfl⟩ := List.cons.inj hsplit
      exact ⟨List.append_nil _, rfl, rfl⟩
    · obtain ⟨rfl, rfl⟩ := List.cons.inj hsplit
      rw [hafter' line (by simp)] at hline
      exact Bool.noConfusion hline

/-! ## The line that is found -/

/-- The last line of a text that is not blank is `line`, behind the lines `before`, and it assigns
nothing but spaces. -/
def EndsDangling (s : Text) (before : List Text) (line : Text) : Prop :=
  (∃ after, IsLastLine s.lines before line after) ∧ AssignsSpaces line

/-- The lines behind the number of a line are those behind the line, as long as the number is a
word.  Behind a number that has begun again the line itself still follows, and it is not blank. -/
theorem Text.blankFrom_number_iff {lines before after : List Text} {line : Text}
    (hlines : lines = before ++ line :: after) (hwritten : line.isBlank = false) :
    Text.blankFrom lines (UInt32.ofNat (before.length + 1)).toNat = true ↔
      before.length + 1 < UInt32.size ∧ ∀ l ∈ after, l.isBlank = true := by
  rw [UInt32.toNat_ofNat', Text.blankFrom, List.all_eq_true, hlines]
  rcases Nat.lt_or_ge (before.length + 1) UInt32.size with hlt | hge
  · have hdrop : (before ++ line :: after).drop (before.length + 1) = after :=
      List.drop_length_add_append 1
    rw [Nat.mod_eq_of_lt hlt, hdrop]
    exact (and_iff_right hlt).symm
  · refine iff_of_false (fun hblank => ?_) fun h => absurd h.1 (not_lt.2 hge)
    have hnumber : (before.length + 1) % UInt32.size ≤ before.length := by
      have := Nat.mod_lt (before.length + 1) (show 0 < UInt32.size by decide)
      omega
    have hmem : line ∈ (before ++ line :: after).drop ((before.length + 1) % UInt32.size) := by
      rw [List.drop_append_of_le_length hnumber]
      exact List.mem_append_right _ List.mem_cons_self
    rw [hblank line hmem] at hwritten
    exact Bool.noConfusion hwritten

/-- **The line that is found** is the last one that is not blank, and it assigns nothing but
spaces.  It is found as long as its number is a word. -/
theorem danglingAssignment?_eq_some_iff {s line : Text} :
    danglingAssignment? s = some line ↔
      ∃ before, EndsDangling s before line ∧ before.length + 1 < UInt32.size := by
  unfold danglingAssignment?
  rw [Option.map_eq_some_iff]
  constructor
  · rintro ⟨⟨number, line⟩, hfound, rfl⟩
    have htest := List.find?_some hfound
    rw [Bool.and_eq_true, isDangling_iff] at htest
    obtain ⟨hspaces, hblank⟩ := htest
    obtain ⟨before, after, hlines, rfl⟩ :=
      Text.mem_countedLines_iff.1 (List.mem_of_find?_eq_some hfound)
    obtain ⟨hword, hafter⟩ :=
      (Text.blankFrom_number_iff hlines hspaces.isBlank_eq_false).1 hblank
    exact ⟨before, ⟨⟨after, hlines, hspaces.isBlank_eq_false, hafter⟩, hspaces⟩, hword⟩
  · rintro ⟨before, ⟨⟨after, hlast⟩, hspaces⟩, hword⟩
    have hnumbered := Text.mem_countedLines_iff.2 ⟨before, after, hlast.whole, rfl⟩
    have hblank := (Text.blankFrom_number_iff hlast.whole hlast.written).2 ⟨hword, hlast.blank⟩
    have hsome : (s.countedLines.find? fun numbered =>
        isDangling numbered.2 && Text.blankFrom s.lines numbered.1.toNat).isSome = true :=
      List.find?_isSome.2 ⟨_, hnumbered, Bool.and_eq_true_iff.2 ⟨isDangling_iff.2 hspaces, hblank⟩⟩
    obtain ⟨found, hfound⟩ := Option.isSome_iff_exists.1 hsome
    refine ⟨found, hfound, ?_⟩
    -- Whatever is found is a last line too, and there is only one.
    have htest := List.find?_some hfound
    rw [Bool.and_eq_true, isDangling_iff] at htest
    obtain ⟨before', after', hlines, hnumber⟩ :=
      Text.mem_countedLines_iff.1 (List.mem_of_find?_eq_some hfound)
    have hwritten := htest.1.isBlank_eq_false
    rw [hnumber] at htest
    have hafter := ((Text.blankFrom_number_iff hlines hwritten).1 htest.2).2
    exact (IsLastLine.unique ⟨hlines, hwritten, hafter⟩ hlast).2.1

/-! ## Tokens on their lines -/

/-- A text opens a print call, and no parenthesis closes in it. -/
def LeavesPrintOpen (s : Text) : Prop := "print(".toList <:+: s ∧ ')' ∉ s

instance (s : Text) : Decidable (LeavesPrintOpen s) := inferInstanceAs (Decidable (_ ∧ _))

/-- The rules in their order. -/
theorem validityFailure?_python_eq (s : Text) :
    validityFailure? .python s = if s.all Text.isSpace then some .blank
      else if LeavesPrintOpen s then some .openPrint
      else (danglingAssignment? s).map .emptyAssignment := by
  have hopen : (s.includes "print(".toList && !s.contains ')') = true ↔ LeavesPrintOpen s := by
    unfold LeavesPrintOpen
    rw [Bool.and_eq_true, Text.includes_iff, Bool.not_eq_true', ← Bool.not_eq_true,
      List.contains_iff_mem]
  unfold validityFailure? pythonFailure?
  exact if_congr Iff.rfl rfl (if_congr hopen rfl rfl)

/-- A program is blank, or it leaves a print call open, or its lines are tested. -/
theorem validityFailure?_python_cases (s : Text) :
    ((∀ c ∈ s, Text.isSpace c = true) ∧ validityFailure? .python s = some .blank)
    ∨ ((¬ ∀ c ∈ s, Text.isSpace c = true) ∧ LeavesPrintOpen s
      ∧ validityFailure? .python s = some .openPrint)
    ∨ ((¬ ∀ c ∈ s, Text.isSpace c = true) ∧ ¬ LeavesPrintOpen s
      ∧ validityFailure? .python s = (danglingAssignment? s).map .emptyAssignment) := by
  have hspaces : s.all Text.isSpace = true ↔ ∀ c ∈ s, Text.isSpace c = true := List.all_eq_true
  rw [validityFailure?_python_eq, ← hspaces]
  by_cases hblank : s.all Text.isSpace = true
  · exact .inl ⟨hblank, if_pos hblank⟩
  · rw [if_neg hblank]
    by_cases hopen : LeavesPrintOpen s
    · exact .inr (.inl ⟨hblank, hopen, if_pos hopen⟩)
    · exact .inr (.inr ⟨hblank, hopen, if_neg hopen⟩)

/-- **A program is not refused** if it is not blank, leaves no print call open and does not end in
an assignment of spaces on a line whose number is a word. -/
theorem validityFailure?_python_eq_none_iff {s : Text} :
    validityFailure? .python s = none ↔
      (¬ ∀ c ∈ s, Text.isSpace c = true) ∧ ¬ LeavesPrintOpen s
        ∧ ∀ before line, EndsDangling s before line → UInt32.size ≤ before.length + 1 := by
  rcases validityFailure?_python_cases s with
    ⟨hblank, hrule⟩ | ⟨hblank, hopen, hrule⟩ | ⟨hblank, hopen, hrule⟩
  · exact iff_of_false (by simp [hrule]) fun h => h.1 hblank
  · exact iff_of_false (by simp [hrule]) fun h => h.2.1 hopen
  · rw [hrule, and_iff_right hblank, and_iff_right hopen, Option.map_eq_none_iff,
      Option.eq_none_iff_forall_ne_some]
    simp only [Ne, danglingAssignment?_eq_some_iff, not_exists, not_and, not_lt]
    exact forall_comm

/-- A program in which a parenthesis closes is valid if none of its lines assigns only spaces. -/
theorem validityFailure?_python_eq_none {s : Text} (hclose : ')' ∈ s)
    (h : ∀ line ∈ s.lines, ¬ AssignsSpaces line) : validityFailure? .python s = none := by
  rw [validityFailure?_python_eq_none_iff]
  refine ⟨fun hall => absurd (hall ')' hclose) (by decide), fun hopen => hopen.2 hclose, ?_⟩
  rintro before line ⟨⟨after, hlast⟩, hspaces⟩
  refine absurd hspaces (h line ?_)
  rw [hlast.whole]
  exact List.mem_append_right _ List.mem_cons_self

end Playground
