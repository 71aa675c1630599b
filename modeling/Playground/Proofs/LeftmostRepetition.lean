/-
# The leftmost repetition

An expression may hold several repetitions, and openers from which none can be read, inside of texts as
well.  The places where a repetition stands are given here as the data of the expression: what is in
front of it, its text, the spaces behind its comma, the digits of its count and what is behind it.  At
each place a repetition stands in one way at most, and the search, whether it tries every place or
only openers one behind the other, finds the one that has the least in front of it.

* `Repetition.start?_eq_some_iff` : the repetition that is read at the start of a text.
* `Repetition.Occurrence.ext_before` : a place determines its repetition.
* `Repetition.exists_leftmost_of_find?` : what is found is leftmost.
* `Repetition.find?_leftmost_exact` : the search of an expression.
-/
import Playground.Proofs.Offsets.Readers

namespace Playground

namespace Repetition

/-! ## Places where a repetition stands -/

/-- A place of a text where a repetition stands, with its parts. -/
@[ext]
structure Occurrence (s : Text) where
  /-- What stands in front of the repetition. -/
  before : Text
  /-- The text between the quotes. -/
  text : Text
  /-- What stands between the comma and the count. -/
  space : Text
  /-- The count. -/
  count : Text
  /-- What stands behind the repetition. -/
  behind : Text
  /-- The text has at least one character. -/
  text_ne_nil : text ≠ []
  /-- No quote is in the text. -/
  text_unquoted : '"' ∉ text
  /-- Between the comma and the count there are spaces only. -/
  space_spaces : ∀ c ∈ space, Text.isSpace c = true
  /-- The count has at least one digit. -/
  count_ne_nil : count ≠ []
  /-- The count is made of digits. -/
  count_digits : ∀ c ∈ count, c.isDigit = true
  /-- Put together, the parts are the whole text. -/
  whole : before ++ (opener ++ (text ++ ['"', ','] ++ space ++ count ++ ')' :: behind)) = s

/-- The repetition at the start of a text. -/
def start? (s : Text) : Option Repetition := (Text.after? opener s).bind readArguments?

theorem find?_cons (c : Char) (s : Text) : find? (c :: s) = (start? (c :: s)).or (find? s) := by
  rcases hstart : start? (c :: s) with _ | r
  · exact find?_cons_of_eq_none hstart
  · obtain ⟨rest, hafter, hread⟩ := Option.bind_eq_some_iff.1 hstart
    rw [Text.after?_eq_some_iff.1 hafter, find?_append hread]
    rfl

namespace Occurrence

variable {s : Text}

/-- What is repeated, and how often. -/
def repetition (o : Occurrence s) : Repetition := ⟨o.text, o.count⟩

/-- A place has no place to its left. -/
def IsLeftmost (o : Occurrence s) : Prop := ∀ o' : Occurrence s, o.before.length ≤ o'.before.length

theorem readable (o : Occurrence s) : o.repetition.Readable :=
  ⟨o.text_ne_nil, o.text_unquoted, Text.isDigits_iff.2 ⟨o.count_ne_nil, o.count_digits⟩⟩

theorem space_isBlank (o : Occurrence s) : o.space.isBlank = true := List.all_eq_true.2 o.space_spaces

/-- The arguments of the repetition and what stands behind it. -/
def arguments (o : Occurrence s) : Text :=
  o.text ++ ['"', ','] ++ o.space ++ o.count ++ ')' :: o.behind

theorem readArguments?_arguments (o : Occurrence s) :
    readArguments? o.arguments = some o.repetition :=
  readArguments?_append o.readable o.space_isBlank o.behind

/-- The spaces behind the comma end where the count begins. -/
theorem takeWhile_space (o : Occurrence s) :
    (o.space ++ (o.count ++ ')' :: o.behind)).takeWhile Text.isSpace = o.space := by
  refine Text.takeWhile_append_stop o.space_spaces fun c hc => ?_
  obtain ⟨digit, others, hcount⟩ := List.exists_cons_of_ne_nil o.count_ne_nil
  rw [hcount] at hc
  obtain rfl : digit = c := Option.some.inj hc
  exact Text.isSpace_of_isDigit (o.count_digits digit (hcount ▸ List.mem_cons_self))

/-- **A place determines** what stands there. -/
theorem ext_before {o o' : Occurrence s} (h : o.before = o'.before) : o = o' := by
  have hwhole : o.before ++ (opener ++ o.arguments) = o'.before ++ (opener ++ o'.arguments) :=
    o.whole.trans o'.whole.symm
  rw [h, List.append_cancel_left_eq, List.append_cancel_left_eq] at hwhole
  have hread : some o.repetition = some o'.repetition := by
    rw [← o.readArguments?_arguments, hwhole, o'.readArguments?_arguments]
  obtain ⟨htext, hcount⟩ := Repetition.mk.inj (Option.some.inj hread)
  unfold arguments at hwhole
  simp only [List.append_assoc] at hwhole
  rw [htext, List.append_cancel_left_eq, List.append_cancel_left_eq] at hwhole
  have hspace : o.space = o'.space := by rw [← o.takeWhile_space, hwhole, o'.takeWhile_space]
  rw [hspace, hcount, List.append_cancel_left_eq, List.append_cancel_left_eq] at hwhole
  exact Occurrence.ext h htext hspace hcount (List.cons.inj hwhole).2

/-- What stands in front of a place is a part of the text that its length determines. -/
theorem before_eq_take (o : Occurrence s) : o.before = s.take o.before.length := by
  have hprefix : o.before <+: s := ⟨_, o.whole⟩
  exact List.prefix_iff_eq_take.1 hprefix

/-- Two places are the same if as much stands in front of them. -/
theorem length_before_injective : Function.Injective fun o : Occurrence s => o.before.length := by
  intro o o' h
  have hlength : o.before.length = o'.before.length := h
  apply ext_before
  rw [o.before_eq_take, hlength, ← o'.before_eq_take]

/-- A place with one more character in front of it. -/
def cons (c : Char) (o : Occurrence s) : Occurrence (c :: s) :=
  { o with before := c :: o.before, whole := congrArg (c :: ·) o.whole }

/-- A place that is not at the start stands in the text behind the first character. -/
theorem exists_eq_cons {c : Char} (o : Occurrence (c :: s)) (h : o.before ≠ []) :
    ∃ o' : Occurrence s, o = o'.cons c := by
  obtain ⟨first, before, hbefore⟩ := List.exists_cons_of_ne_nil h
  have hwhole : first :: (before ++ (opener ++ o.arguments)) = c :: s := by
    have := o.whole
    rwa [hbefore] at this
  obtain ⟨rfl, htail⟩ := List.cons.inj hwhole
  exact ⟨{ o with before := before, whole := htail }, ext_before hbefore⟩

/-- No repetition stands in the empty text. -/
theorem isEmpty_nil : IsEmpty (Occurrence []) := by
  refine ⟨fun o => ?_⟩
  obtain ⟨-, hbehind⟩ := List.append_eq_nil_iff.1 o.whole
  obtain ⟨hopener, -⟩ := List.append_eq_nil_iff.1 hbehind
  exact absurd hopener (by decide)

end Occurrence

/-! ## The search -/

/-- **What is read at the start** of a text is a repetition that stands there. -/
theorem start?_eq_some_iff {s : Text} {r : Repetition} :
    start? s = some r ↔ ∃ o : Occurrence s, o.before = [] ∧ o.repetition = r := by
  unfold start?
  rw [Option.bind_eq_some_iff]
  constructor
  · rintro ⟨rest, hafter, hread⟩
    obtain ⟨hr, space, behind, hspace, rfl⟩ := readArguments?_eq_some_iff.1 hread
    obtain ⟨hcount, hdigits⟩ := Text.isDigits_iff.1 hr.digits
    exact ⟨⟨[], r.text, space, r.count, behind, hr.nonempty, hr.unquoted, List.all_eq_true.1 hspace,
      hcount, hdigits, (Text.after?_eq_some_iff.1 hafter).symm⟩, rfl, rfl⟩
  · rintro ⟨o, hbefore, rfl⟩
    have hwhole : s = opener ++ o.arguments := by
      rw [← List.nil_append (opener ++ o.arguments), ← hbefore]
      exact o.whole.symm
    exact ⟨o.arguments, Text.after?_eq_some_iff.2 hwhole, o.readArguments?_arguments⟩

/-- Where nothing is read at the start, all places lie behind the first character. -/
theorem before_ne_nil_of_start? {s : Text} (h : start? s = none) (o : Occurrence s) :
    o.before ≠ [] := by
  intro hbefore
  have hread : start? s = some o.repetition := start?_eq_some_iff.2 ⟨o, hbefore, rfl⟩
  rw [h] at hread
  exact nomatch hread

/-- **What is found** stands leftmost. -/
theorem exists_leftmost_of_find? {s : Text} {r : Repetition} (h : find? s = some r) :
    ∃ o : Occurrence s, o.IsLeftmost ∧ o.repetition = r := by
  induction s with
  | nil => exact nomatch h
  | cons c s ih =>
    rw [find?_cons] at h
    rcases hstart : start? (c :: s) with _ | call
    · rw [hstart, Option.none_or] at h
      obtain ⟨o, hleftmost, hr⟩ := ih h
      refine ⟨o.cons c, fun place => ?_, hr⟩
      obtain ⟨place, rfl⟩ := place.exists_eq_cons (before_ne_nil_of_start? hstart place)
      exact Nat.succ_le_succ (hleftmost place)
    · rw [hstart, Option.some_or] at h
      obtain ⟨o, hbefore, hr⟩ := start?_eq_some_iff.1 (hstart.trans h)
      refine ⟨o, fun place => ?_, hr⟩
      rw [hbefore]
      exact Nat.zero_le _

/-- Where nothing is found, no repetition stands. -/
theorem isEmpty_of_find? {s : Text} (h : find? s = none) : IsEmpty (Occurrence s) := by
  induction s with
  | nil => exact Occurrence.isEmpty_nil
  | cons c s ih =>
    rw [find?_cons, Option.or_eq_none_iff] at h
    obtain ⟨hstart, hrest⟩ := h
    refine ⟨fun o => ?_⟩
    obtain ⟨o, rfl⟩ := o.exists_eq_cons (before_ne_nil_of_start? hstart o)
    exact (ih hrest).false o

/-- **The search of an expression** finds the repetition that stands leftmost, and finds none just if
none stands in it.  As much stands in front of two places only if they are the same, so that the
leftmost one is the only one.  Trying the openers one behind the other, by byte offsets, finds the
same. -/
theorem find?_leftmost_exact (s : Text) :
    (∀ r, find? s = some r ↔ ∃ o : Occurrence s, o.IsLeftmost ∧ o.repetition = r)
      ∧ (find? s = none ↔ IsEmpty (Occurrence s))
      ∧ (Function.Injective fun o : Occurrence s => o.before.length)
      ∧ Scan.repeatCall? s = some (find? s) := by
  have hempty : find? s = none ↔ IsEmpty (Occurrence s) := by
    refine ⟨isEmpty_of_find?, fun hnone => ?_⟩
    rw [Option.eq_none_iff_forall_ne_some]
    intro r hr
    obtain ⟨o, -, -⟩ := exists_leftmost_of_find? hr
    exact hnone.false o
  refine ⟨fun r => ⟨exists_leftmost_of_find?, ?_⟩, hempty, Occurrence.length_before_injective,
    Scan.repeatCall?_eq s⟩
  rintro ⟨o, hleftmost, rfl⟩
  rcases hfind : find? s with _ | r
  · exact ((hempty.1 hfind).false o).elim
  · obtain ⟨o', hleftmost', rfl⟩ := exists_leftmost_of_find? hfind
    have hlength : o.before.length = o'.before.length :=
      Nat.le_antisymm (hleftmost o') (hleftmost' o)
    rw [Occurrence.length_before_injective hlength]

/-- A quote ends the text of the first opener early, and the second opener stands inside of it. -/
example : find? "strings.Repeat(\"x strings.Repeat(\"y\", 3)".toList = some ⟨['y'], ['3']⟩ := by
  decide

end Repetition

end Playground
