/-
# The grammar of assignments

A line is an assignment if it is written with a name, the operator of the dialect and a value of at
least one character, where spaces may stand before the operator and, in a dialect that indents,
before the name.  A line can be written in this form in at most one way, and it is read so.

* `AssignmentLine.read?_eq_some_iff` : what is read from a line are the parts that it is written in.
* `AssignmentLine.read?_line` : an assignment between single spaces.
-/
import Playground.Line.AssignmentLine
import Playground.Proofs.Number.Digits
import Playground.Proofs.Text.Trim

namespace Playground

namespace AssignmentLine

/-! ## Names -/

/-- A name of letters, digits and underscores that begins with no digit. -/
structure IsName (name : Text) : Prop where
  /-- The first character is a letter or an underscore. -/
  starts : startsName name = true
  /-- All characters are letters, digits or underscores. -/
  chars : ∀ c ∈ name, isNameChar c = true

theorem isName_iff {name : Text} :
    IsName name ↔ startsName name = true ∧ name.all isNameChar = true := by
  rw [List.all_eq_true]
  exact ⟨fun h => ⟨h.starts, h.chars⟩, fun h => ⟨h.1, h.2⟩⟩

instance (name : Text) : Decidable (IsName name) := decidable_of_iff _ isName_iff.symm

/-- A name has a first character. -/
theorem IsName.ne_nil {name : Text} (h : IsName name) : name ≠ [] := by
  rintro rfl
  exact absurd h.starts Bool.false_ne_true

/-- A name holds no other characters. -/
theorem IsName.not_mem {name : Text} {c : Char} (h : IsName name)
    (hc : isNameChar c = false) : c ∉ name := by
  intro hmem
  rw [h.chars c hmem] at hc
  exact Bool.noConfusion hc

/-- Letters, digits and underscores lie between two signs of ASCII. -/
theorem toNat_of_isNameChar {c : Char} (h : isNameChar c = true) :
    48 ≤ c.toNat ∧ c.toNat ≤ 122 := by
  unfold isNameChar at h
  rw [Bool.or_eq_true, Text.isAlphanum_iff, Text.isAlpha_iff, Text.isUpper_iff_toNat,
    Text.isLower_iff_toNat, Text.isDigit_iff_toNat, decide_eq_true_iff] at h
  rcases h with halphanum | rfl
  · omega
  · decide

theorem isSpace_of_isNameChar {c : Char} (h : isNameChar c = true) : Text.isSpace c = false := by
  have hbounds := toNat_of_isNameChar h
  exact Text.isSpace_eq_false (by omega) (by omega)

/-- A name has no spaces around it. -/
theorem IsName.trim_eq {name : Text} (h : IsName name) : name.trim = name :=
  Text.trim_of_no_space fun c hc => isSpace_of_isNameChar (h.chars c hc)

theorem isSpace_of_head? {name : Text} (h : IsName name) (s : Text) :
    ∀ c ∈ (name ++ s).head?, Text.isSpace c = false := by
  rcases name with _ | ⟨c, name⟩
  · exact absurd h.starts Bool.false_ne_true
  · intro c' hc'
    obtain rfl : c = c' := Option.some.inj hc'
    exact isSpace_of_isNameChar (h.chars c List.mem_cons_self)

theorem startsName_append {name : Text} (h : IsName name) (s : Text) :
    startsName (name ++ s) = true := by
  rcases name with _ | ⟨c, name⟩
  · exact absurd h.starts Bool.false_ne_true
  · exact h.starts

/-- A text that starts as a name does begins with a name. -/
theorem isName_takeWhile {s : Text} (h : startsName s = true) :
    IsName (s.takeWhile isNameChar) := by
  refine ⟨?_, fun c hc => List.mem_takeWhile_imp hc⟩
  rcases s with _ | ⟨c, s⟩
  · exact h
  · have hc : isNameChar c = true := by
      have hstart : (c.isAlpha || decide (c = '_')) = true := h
      unfold isNameChar
      rw [Bool.or_eq_true, Text.isAlphanum_iff]
      exact (Bool.or_eq_true _ _ ▸ hstart).imp_left Or.inl
    rw [List.takeWhile_cons_of_pos hc]
    exact h

/-! ## The form of a line -/

/-- A line is written as the parts of an assignment. -/
structure IsSplit (d : Dialect) (line : Text) (a : AssignmentLine) : Prop where
  /-- The parts, put together, are the line. -/
  whole : a.toText d = line
  /-- Nothing but spaces stands in front of the name. -/
  indent : a.indent.isBlank = true
  /-- Nothing stands there in a dialect that does not indent. -/
  margin : d.indents = false → a.indent = []
  /-- The name is one. -/
  name : IsName a.name
  /-- Nothing but spaces stands between the name and the operator. -/
  gap : a.gap.isBlank = true
  /-- The value has at least one character. -/
  value : a.value ≠ []

theorem isSpace_of_head?_operator (d : Dialect) (s : Text) :
    ∀ c ∈ (d.operator ++ s).head?, Text.isSpace c = false := by
  cases d with
  | python =>
    rintro c ⟨⟩
    decide
  | go =>
    rintro c ⟨⟩
    decide

/-- A name ends where the spaces or the operator begin. -/
theorem isNameChar_of_head?_operator {gap : Text} (h : gap.isBlank = true) (d : Dialect)
    (s : Text) : ∀ c ∈ (gap ++ (d.operator ++ s)).head?, isNameChar c = false := by
  rcases gap with _ | ⟨c, gap⟩
  · cases d with
    | python =>
      rintro c ⟨⟩
      decide
    | go =>
      rintro c ⟨⟩
      decide
  · intro c' hc'
    obtain rfl : c = c' := Option.some.inj hc'
    have hspace : Text.isSpace c = true := List.all_eq_true.1 h c List.mem_cons_self
    rw [← Bool.not_eq_true]
    intro hname
    rw [isSpace_of_isNameChar hname] at hspace
    exact Bool.noConfusion hspace

/-- The parts behind the indent are read as they are written. -/
theorem readName?_append (d : Dialect) (indent : Text) {name gap value : Text} (hname : IsName name)
    (hgap : gap.isBlank = true) (hvalue : value ≠ []) :
    readName? d indent (name ++ (gap ++ (d.operator ++ value)))
      = some ⟨indent, name, gap, value⟩ := by
  have hstop := isNameChar_of_head?_operator hgap d value
  have hoperator := isSpace_of_head?_operator d value
  have hspaces : ∀ c ∈ gap, Text.isSpace c = true := List.all_eq_true.1 hgap
  unfold readName?
  dsimp only
  rw [if_pos (startsName_append hname _), Text.takeWhile_append_stop hname.chars hstop,
    Text.dropWhile_append_stop hname.chars hstop, Text.takeWhile_append_stop hspaces hoperator,
    Text.dropWhile_append_stop hspaces hoperator, Text.after?_eq_some_iff.2 rfl]
  dsimp only
  rw [if_neg hvalue]

/-- What is read behind an indent is a name, spaces and a value. -/
theorem isSplit_of_readName? {d : Dialect} {indent s : Text} {a : AssignmentLine}
    (h : readName? d indent s = some a) (hindent : indent.isBlank = true)
    (hmargin : d.indents = false → indent = []) : IsSplit d (indent ++ s) a := by
  have hwhole := toText_of_readName? h
  unfold readName? at h
  dsimp only at h
  split at h
  · next hstarts =>
    split at h
    · next value hvalue =>
      split at h
      · exact nomatch h
      · next hne =>
        obtain rfl := Option.some.inj h
        refine ⟨hwhole, hindent, hmargin, isName_takeWhile hstarts, ?_, hne⟩
        exact List.all_takeWhile
    · exact nomatch h
  · exact nomatch h

/-- **What is read from a line** are the parts that it is written in, and there are no others. -/
theorem read?_eq_some_iff {d : Dialect} {line : Text} {a : AssignmentLine} :
    read? d line = some a ↔ IsSplit d line a := by
  unfold read?
  constructor
  · intro h
    split at h
    · next hindents =>
      rw [← List.takeWhile_append_dropWhile (p := Text.isSpace) (l := line)]
      refine isSplit_of_readName? h List.all_takeWhile fun hmargin => ?_
      rw [hindents] at hmargin
      exact Bool.noConfusion hmargin
    · exact isSplit_of_readName? h rfl fun _ => rfl
  · obtain ⟨indent, name, gap, value⟩ := a
    rintro ⟨rfl, hindent, hmargin, hname, hgap, hvalue⟩
    have hread := readName?_append d indent hname hgap hvalue
    unfold toText
    simp only [List.append_assoc]
    split
    · have hspaces : ∀ c ∈ indent, Text.isSpace c = true := List.all_eq_true.1 hindent
      have hstop := isSpace_of_head? hname (gap ++ (d.operator ++ value))
      rw [Text.takeWhile_append_stop hspaces hstop, Text.dropWhile_append_stop hspaces hstop, hread]
    · next hindents =>
      obtain rfl : indent = [] := hmargin (Bool.eq_false_iff.2 hindents)
      exact hread

/-- In Python a line is a name, spaces, an equals sign and a value. -/
theorem isSplit_python_iff {line indent name gap value : Text} :
    IsSplit .python line ⟨indent, name, gap, value⟩ ↔ indent = [] ∧ IsName name
      ∧ gap.isBlank = true ∧ value ≠ [] ∧ line = name ++ gap ++ '=' :: value := by
  have hwhole : toText .python ⟨[], name, gap, value⟩ = name ++ gap ++ '=' :: value := by
    unfold toText
    rw [List.append_assoc _ Dialect.python.operator]
    rfl
  constructor
  · rintro ⟨rfl, -, hmargin, hname, hgap, hvalue⟩
    obtain rfl : indent = [] := hmargin rfl
    exact ⟨rfl, hname, hgap, hvalue, hwhole⟩
  · rintro ⟨rfl, hname, hgap, hvalue, rfl⟩
    exact ⟨hwhole, rfl, fun _ => rfl, hname, hgap, hvalue⟩

/-! ## Lines in the plain form -/

/-- A call is no assignment. -/
theorem read?_opener (d : Dialect) (s : Text) : read? d (d.opener ++ s) = none := by
  cases d <;> rfl

/-- A line with single spaces around its operator is read as it is. -/
theorem read?_line (d : Dialect) {name : Text} (h : IsName name) (value : Text) :
    read? d (name ++ ' ' :: d.operator ++ ' ' :: value)
      = some ⟨[], name, [' '], ' ' :: value⟩ := by
  have hgap : Text.isBlank [' '] = true := by decide
  rw [read?_eq_some_iff]
  refine ⟨?_, rfl, fun _ => rfl, h, hgap, List.cons_ne_nil _ _⟩
  unfold toText
  simp only [List.append_assoc]
  rfl

end AssignmentLine

end Playground
