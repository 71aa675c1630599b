/-
# The parts of an assignment

An assignment is put together of spaces, a name, more spaces, the operator of the dialect and a value,
each of its own kind: a name is of letters, digits and underscores of ASCII, spaces are those of Unicode,
and the value is anything but nothing.  The parts are given here as the data of a line with all that is
asked of them.  A line can be put together in one way at most, and if it can, then reading it and
matching it by byte offsets both find the parts, the name at the offset where the spaces in front of it
end.

* `AssignmentLine.isName_cons_iff` : names, by the ranges of their characters.
* `AssignmentParts.eq_of_same_line` : a line is put together in one way at most.
* `AssignmentParts.slice?_name` : the name stands at its offset.
* `AssignmentLine.read?_parts_exact` : a line is an assignment just if it can be put together.
-/
import Playground.Proofs.Offsets.Scanning

namespace Playground

namespace AssignmentLine

/-! ## The characters of names -/

/-- The letters of ASCII, and the underscore with them. -/
def IsLetter (c : Char) : Prop := 'A' ≤ c ∧ c ≤ 'Z' ∨ 'a' ≤ c ∧ c ≤ 'z' ∨ c = '_'

/-- The digits of ASCII. -/
def IsNumeral (c : Char) : Prop := '0' ≤ c ∧ c ≤ '9'

theorem isLetter_iff {c : Char} : IsLetter c ↔ (c.isAlpha || decide (c = '_')) = true := by
  rw [Bool.or_eq_true, decide_eq_true_iff, Text.isAlpha_iff, Text.isUpper_iff_toNat,
    Text.isLower_iff_toNat, or_assoc]
  rfl

theorem isLetter_or_isNumeral_iff {c : Char} : IsLetter c ∨ IsNumeral c ↔ isNameChar c = true := by
  have hnumeral : IsNumeral c ↔ c.isDigit = true := Text.isDigit_iff_toNat.symm
  unfold isNameChar
  rw [isLetter_iff, hnumeral, Bool.or_eq_true, Bool.or_eq_true, Text.isAlphanum_iff]
  exact or_right_comm

/-- **A name** begins with a letter, and letters and digits follow. -/
theorem isName_cons_iff {c : Char} {s : Text} :
    IsName (c :: s) ↔ IsLetter c ∧ ∀ c' ∈ s, IsLetter c' ∨ IsNumeral c' := by
  simp only [isLetter_or_isNumeral_iff]
  constructor
  · intro h
    exact ⟨isLetter_iff.2 h.starts, fun c' hc' => h.chars c' (List.mem_cons_of_mem c hc')⟩
  · rintro ⟨hletter, hothers⟩
    have hchar : isNameChar c = true := isLetter_or_isNumeral_iff.1 (Or.inl hletter)
    exact ⟨isLetter_iff.1 hletter, List.forall_mem_cons.2 ⟨hchar, hothers⟩⟩

end AssignmentLine

/-! ## Lines that are put together -/

/-- The parts that a line is put together of as an assignment. -/
@[ext]
structure AssignmentParts (d : Dialect) (line : Text) where
  /-- What stands in front of the name. -/
  indent : Text
  /-- The first character of the name. -/
  initial : Char
  /-- The other characters of the name. -/
  others : Text
  /-- What stands between the name and the operator. -/
  gap : Text
  /-- What follows the operator. -/
  value : Text
  /-- In front of the name there are spaces only. -/
  indent_spaces : ∀ c ∈ indent, Text.isSpace c = true
  /-- In Python there are none. -/
  indent_python : d = .python → indent = []
  /-- The name begins with a letter or an underscore. -/
  initial_letter : AssignmentLine.IsLetter initial
  /-- Letters, digits and underscores follow. -/
  others_letters : ∀ c ∈ others, AssignmentLine.IsLetter c ∨ AssignmentLine.IsNumeral c
  /-- Behind the name there are spaces only. -/
  gap_spaces : ∀ c ∈ gap, Text.isSpace c = true
  /-- The value is not empty. -/
  value_ne_nil : value ≠ []
  /-- Put together, the parts are the line. -/
  whole : indent ++ initial :: others ++ gap ++ d.operator ++ value = line

namespace AssignmentParts

variable {d : Dialect} {line : Text}

/-- The name. -/
def name (w : AssignmentParts d line) : Text := w.initial :: w.others

/-- The parts as they are read. -/
def assignment (w : AssignmentParts d line) : AssignmentLine := ⟨w.indent, w.name, w.gap, w.value⟩

/-- The parts as they are matched: the name stands behind the bytes of the spaces in front of it. -/
def found (w : AssignmentParts d line) : Scan.Match := ⟨w.name, w.value, Text.utf8Size w.indent⟩

theorem isSplit (w : AssignmentParts d line) : AssignmentLine.IsSplit d line w.assignment where
  whole := w.whole
  indent := List.all_eq_true.2 w.indent_spaces
  margin := by
    intro hindents
    cases d with
    | python => exact w.indent_python rfl
    | go => exact Bool.noConfusion hindents
  name := AssignmentLine.isName_cons_iff.2 ⟨w.initial_letter, w.others_letters⟩
  gap := List.all_eq_true.2 w.gap_spaces
  value := w.value_ne_nil

theorem exists_of_isSplit {a : AssignmentLine} (h : AssignmentLine.IsSplit d line a) :
    ∃ w : AssignmentParts d line, w.assignment = a := by
  obtain ⟨indent, name, gap, value⟩ := a
  rcases name with _ | ⟨initial, others⟩
  · exact absurd rfl h.name.ne_nil
  · obtain ⟨hinitial, hothers⟩ := AssignmentLine.isName_cons_iff.1 h.name
    have hpython : d = .python → indent = [] := by
      rintro rfl
      exact h.margin rfl
    exact ⟨⟨indent, initial, others, gap, value, List.all_eq_true.1 h.indent, hpython, hinitial,
      hothers, List.all_eq_true.1 h.gap, h.value, h.whole⟩, rfl⟩

/-- A line that is put together is read as its parts. -/
theorem read?_eq (w : AssignmentParts d line) : AssignmentLine.read? d line = some w.assignment :=
  AssignmentLine.read?_eq_some_iff.2 w.isSplit

/-- **A line is put together in one way** at most. -/
theorem eq_of_same_line (w w' : AssignmentParts d line) : w = w' := by
  have hread : some w.assignment = some w'.assignment := by rw [← w.read?_eq, ← w'.read?_eq]
  have hparts := Option.some.inj hread
  have hname : w.initial :: w.others = w'.initial :: w'.others :=
    congrArg AssignmentLine.name hparts
  obtain ⟨hinitial, hothers⟩ := List.cons.inj hname
  apply AssignmentParts.ext
  · exact congrArg AssignmentLine.indent hparts
  · exact hinitial
  · exact hothers
  · exact congrArg AssignmentLine.gap hparts
  · exact congrArg AssignmentLine.value hparts

/-- The name is the slice of the line at its offset. -/
theorem slice?_name (w : AssignmentParts d line) :
    Text.slice? line (Text.utf8Size w.indent) (Text.utf8Size (w.indent ++ w.name)) = some w.name := by
  have hslice := Text.slice?_append w.indent w.name (w.gap ++ d.operator ++ w.value)
  have hwhole : w.indent ++ w.name ++ (w.gap ++ d.operator ++ w.value) = line := by
    refine Eq.trans ?_ w.whole
    simp only [name, List.append_assoc]
  rwa [hwhole] at hslice

end AssignmentParts

/-- **A line is an assignment** just if it can be put together as one.  What is read are then the parts,
which are the only ones, and matching the line by byte offsets finds the name, its offset, which counts
the bytes of the spaces in front of it, and the value. -/
theorem AssignmentLine.read?_parts_exact (d : Dialect) (line : Text) :
    Subsingleton (AssignmentParts d line)
      ∧ (∀ a, read? d line = some a ↔ ∃ w : AssignmentParts d line, w.assignment = a)
      ∧ (∀ m, Scan.matchAssignment? d line = some (some m)
        ↔ ∃ w : AssignmentParts d line, w.found = m)
      ∧ (read? d line = none ↔ IsEmpty (AssignmentParts d line))
      ∧ (Scan.matchAssignment? d line = some none ↔ IsEmpty (AssignmentParts d line)) := by
  have hread (a : AssignmentLine) :
      read? d line = some a ↔ ∃ w : AssignmentParts d line, w.assignment = a := by
    constructor
    · intro h
      exact AssignmentParts.exists_of_isSplit (read?_eq_some_iff.1 h)
    · rintro ⟨w, rfl⟩
      exact w.read?_eq
  have hmatch := Scan.matchAssignment?_eq d line
  have hnone : read? d line = none ↔ IsEmpty (AssignmentParts d line) := by
    rw [Option.eq_none_iff_forall_not_mem]
    constructor
    · exact fun h => ⟨fun w => h w.assignment w.read?_eq⟩
    · rintro ⟨hempty⟩ a ha
      obtain ⟨w, -⟩ := (hread a).1 ha
      exact hempty w
  refine ⟨⟨AssignmentParts.eq_of_same_line⟩, hread, ?_, hnone, ?_⟩
  · intro m
    rw [hmatch, Option.some.injEq, Option.map_eq_some_iff]
    constructor
    · rintro ⟨a, ha, rfl⟩
      obtain ⟨w, rfl⟩ := (hread a).1 ha
      exact ⟨w, rfl⟩
    · rintro ⟨w, rfl⟩
      exact ⟨w.assignment, w.read?_eq, rfl⟩
  · rw [hmatch, Option.some.injEq, Option.map_eq_none_iff, hnone]

/-- A space of three bytes stands in front of the name, and the value begins with an equals sign. -/
example : Scan.matchAssignment? .go "\u3000x :==1".toList = some (some ⟨['x'], "=1".toList, 3⟩) := by
  decide

end Playground
