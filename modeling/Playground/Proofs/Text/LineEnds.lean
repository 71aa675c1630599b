/-
# Lines and their ends

A newline ends a line, and with it goes a carriage return that stands just before it.

* `Text.lines_append_newline` : the first line of a text ends at the first newline.
* `Text.lines_of_not_mem` : a text without newlines is a single line, or none if it is empty.
* `Text.lines_append` : behind a text that ends with a newline, the lines of another one go on.
* `Text.infix_of_mem_lines` : a line is a part of its text.
* `Text.infix_iff_exists_line` : what holds no line end is a part of a text if a line has it.
* `Text.isBlank_iff_forall_line` : a text is blank if its lines are.
* `Text.mem_countedLines_iff` : the number of a line is the number of lines before it and one.
* `Text.lines_joined` : lines that are joined are the lines again.
-/
import Mathlib.Algebra.Order.Ring.Nat
import Playground.Proofs.Text.Occurrence
import Playground.Proofs.Text.Trim
import Playground.Text.Lines

namespace Playground

namespace Text

/-- A line without the carriage return that belongs to its ending. -/
def withoutReturn (line : Text) : Text := if line.getLast? = some '\r' then line.dropLast else line

theorem withoutReturn_cons {c : Char} {line : Text} (h : c ≠ '\r' ∨ line ≠ []) :
    withoutReturn (c :: line) = c :: withoutReturn line := by
  unfold withoutReturn
  rcases line with _ | ⟨d, line⟩
  · rcases h with h | h
    · simp [h]
    · exact absurd rfl h
  · rw [List.getLast?_cons_cons]
    split <;> rfl

theorem withoutReturn_append {s t : Text} (h : t ≠ []) :
    withoutReturn (s ++ t) = s ++ withoutReturn t := by
  unfold withoutReturn
  rw [List.getLast?_append_of_ne_nil s h]
  split
  · exact List.dropLast_append_of_ne_nil h
  · rfl

/-- A line that does not end with a carriage return stays as it is. -/
theorem withoutReturn_eq_self {line : Text} (h : line.getLast? ≠ some '\r') :
    withoutReturn line = line := by
  unfold withoutReturn
  rw [if_neg h]

/-- A carriage return behind a line goes with its newline. -/
theorem withoutReturn_concat_return (line : Text) : withoutReturn (line ++ ['\r']) = line := by
  unfold withoutReturn
  rw [List.getLast?_concat, if_pos rfl, List.dropLast_concat]

theorem withoutReturn_concat {s : Text} {c : Char} (h : c ≠ '\r') :
    withoutReturn (s ++ [c]) = s ++ [c] := by
  unfold withoutReturn
  rw [List.getLast?_concat, if_neg fun heq => h (Option.some.inj heq)]

/-- A carriage return is a space, so that trimmed text does not depend on it. -/
theorem trim_withoutReturn (line : Text) : (withoutReturn line).trim = line.trim := by
  unfold withoutReturn
  split
  · next h =>
    obtain ⟨s, rfl⟩ := List.getLast?_eq_some_iff.1 h
    rw [List.dropLast_concat, trim_concat_of_isSpace s (by decide)]
  · rfl

theorem withoutReturn_prefix (line : Text) : withoutReturn line <+: line := by
  unfold withoutReturn
  split
  · exact List.dropLast_prefix line
  · exact List.prefix_rfl

theorem isBlank_withoutReturn (line : Text) : (withoutReturn line).isBlank = line.isBlank := by
  unfold withoutReturn
  split
  · next h =>
    obtain ⟨s, rfl⟩ := List.getLast?_eq_some_iff.1 h
    have hreturn : isSpace '\r' = true := by decide
    unfold isBlank
    rw [List.dropLast_concat, List.all_append, List.all_cons, hreturn]
    simp
  · rfl

/-- A character that starts no line ending stands at the front of the first line. -/
theorem lines_cons {c : Char} {s : Text} (h : c ≠ '\n') (h' : c ≠ '\r' ∨ s.head? ≠ some '\n') :
    lines (c :: s) = consFirst c (lines s) := by
  show (if c = '\n' then _ else if c = '\r' ∧ s.head? = some '\n' then _ else _) = _
  rw [if_neg h, if_neg]
  rintro ⟨hc, hs⟩
  exact h'.elim (absurd hc) (absurd hs)

/-- The first line of a text ends at the first newline. -/
theorem lines_append_newline {line : Text} (h : '\n' ∉ line) (s : Text) :
    lines (line ++ '\n' :: s) = withoutReturn line :: lines s := by
  induction line with
  | nil => rfl
  | cons c line ih =>
    rw [List.mem_cons, not_or] at h
    by_cases hreturn : c = '\r' ∧ line = []
    · obtain ⟨rfl, rfl⟩ := hreturn
      rfl
    · rw [not_and_or] at hreturn
      have hhead : c ≠ '\r' ∨ (line ++ '\n' :: s).head? ≠ some '\n' := by
        refine hreturn.imp_right fun hline => ?_
        obtain ⟨d, line, rfl⟩ := List.exists_cons_of_ne_nil hline
        rw [List.cons_append, List.head?_cons]
        rintro heq
        exact h.2 (by simp [Option.some.inj heq])
      rw [List.cons_append, lines_cons (Ne.symm h.1) hhead, ih h.2, withoutReturn_cons hreturn]
      rfl

/-- A text without newlines is a single line, or none if it is empty. -/
theorem lines_of_not_mem {s : Text} (h : '\n' ∉ s) : lines s = if s = [] then [] else [s] := by
  induction s with
  | nil => rfl
  | cons c s ih =>
    rw [List.mem_cons, not_or] at h
    have hhead : s.head? ≠ some '\n' := fun heq => h.2 (List.mem_of_head? heq)
    rw [lines_cons (Ne.symm h.1) (Or.inr hhead), ih h.2]
    split
    · next hnil =>
      rw [hnil]
      rfl
    · rfl

/-! ## Lines in their text -/

/-- What holds of a text of at most one line, and of a text with one more line in front, holds of
every text. -/
@[elab_as_elim]
theorem inductionOnLines {motive : Text → Prop} (single : ∀ s, '\n' ∉ s → motive s)
    (more : ∀ line s, '\n' ∉ line → motive s → motive (line ++ '\n' :: s)) (s : Text) :
    motive s := by
  -- What has been passed of the first line stands in front of the rest of the text.
  have hpassed : ∀ line, '\n' ∉ line → motive (line ++ s) := by
    induction s with
    | nil =>
      intro line hline
      rw [List.append_nil]
      exact single line hline
    | cons c s ih =>
      intro line hline
      by_cases hc : c = '\n'
      · rw [hc]
        exact more line s hline (ih [] List.not_mem_nil)
      · rw [← List.singleton_append, ← List.append_assoc]
        apply ih
        simp [hline, Ne.symm hc]
  exact hpassed [] List.not_mem_nil

/-- **Lines of two texts.**  Behind a text that is empty or ends with a newline, the lines of
another one go on. -/
theorem lines_append {s : Text} (h : s = [] ∨ s.getLast? = some '\n') (t : Text) :
    lines (s ++ t) = lines s ++ lines t := by
  induction s using inductionOnLines with
  | single s hs =>
    rcases h with rfl | hlast
    · rfl
    · exact absurd (List.mem_of_getLast? hlast) hs
  | more line s hline ih =>
    have hs : s = [] ∨ s.getLast? = some '\n' := by
      rw [or_iff_not_imp_left]
      intro hne
      have hlast := h.resolve_left (by simp)
      rwa [List.getLast?_append_of_ne_nil line (List.cons_ne_nil _ _),
        ← List.singleton_append, List.getLast?_append_of_ne_nil _ hne] at hlast
    rw [List.append_assoc, List.cons_append, lines_append_newline hline,
      lines_append_newline hline, ih hs, List.cons_append]

/-- **A line is a part of its text.** -/
theorem infix_of_mem_lines {s line : Text} (h : line ∈ s.lines) : line <:+: s := by
  induction s using inductionOnLines with
  | single s hs =>
    rw [lines_of_not_mem hs] at h
    split at h
    · exact absurd h List.not_mem_nil
    · obtain rfl := List.mem_singleton.1 h
      exact List.infix_rfl
  | more first s hfirst ih =>
    rw [lines_append_newline hfirst] at h
    rcases List.mem_cons.1 h with rfl | hmem
    · have hstart := withoutReturn_prefix first
      exact (hstart.trans (List.prefix_append first _)).isInfix
    · have hsuffix : s <:+ first ++ '\n' :: s := ⟨first ++ ['\n'], by simp⟩
      exact (ih hmem).trans hsuffix.isInfix

/-- What holds no line end is a part of a line if it is one without the carriage return. -/
theorem infix_withoutReturn_iff {key line : Text} (hkey : key ≠ []) (hreturn : '\r' ∉ key) :
    key <:+: withoutReturn line ↔ key <:+: line := by
  have hstart := withoutReturn_prefix line
  constructor
  · exact fun h => h.trans hstart.isInfix
  · unfold withoutReturn
    split
    · next hlast =>
      obtain ⟨s, rfl⟩ := List.getLast?_eq_some_iff.1 hlast
      intro h
      rw [List.dropLast_concat]
      refine (infix_of_infix_append_cons hreturn h).resolve_right ?_
      rw [List.infix_nil]
      exact hkey
    · exact id

/-- **What holds no line end** is a part of a text if some line has it. -/
theorem infix_iff_exists_line {key s : Text} (hkey : key ≠ []) (hnewline : '\n' ∉ key)
    (hreturn : '\r' ∉ key) : key <:+: s ↔ ∃ line ∈ s.lines, key <:+: line := by
  refine ⟨?_, fun ⟨line, hline, h⟩ => h.trans (infix_of_mem_lines hline)⟩
  induction s using inductionOnLines with
  | single s hs =>
    rw [lines_of_not_mem hs]
    intro h
    split
    · next hnil =>
      rw [hnil, List.infix_nil] at h
      exact absurd h hkey
    · exact ⟨s, List.mem_singleton_self s, h⟩
  | more line s hline ih =>
    rw [lines_append_newline hline]
    intro h
    rcases infix_of_infix_append_cons hnewline h with hfirst | hrest
    · exact ⟨_, List.mem_cons_self, (infix_withoutReturn_iff hkey hreturn).2 hfirst⟩
    · obtain ⟨l, hl, hpart⟩ := ih hrest
      exact ⟨l, List.mem_cons_of_mem _ hl, hpart⟩

/-- **A text is blank** if its lines are. -/
theorem isBlank_iff_forall_line {s : Text} :
    s.isBlank = true ↔ ∀ line ∈ s.lines, line.isBlank = true := by
  induction s using inductionOnLines with
  | single s hs =>
    rw [lines_of_not_mem hs]
    split
    · next hnil =>
      rw [hnil]
      exact iff_of_true rfl fun line hline => absurd hline List.not_mem_nil
    · rw [List.forall_mem_singleton]
  | more line s hline ih =>
    have hnewline : isSpace '\n' = true := by decide
    rw [lines_append_newline hline, List.forall_mem_cons, isBlank_withoutReturn, ← ih]
    unfold isBlank
    rw [List.all_append, List.all_cons, hnewline, Bool.true_and, Bool.and_eq_true]

/-- **The number of a line** is the number of lines before it and one. -/
theorem mem_countedLines_iff {s line : Text} {number : UInt32} :
    (number, line) ∈ s.countedLines ↔
      ∃ before after, s.lines = before ++ line :: after
        ∧ number = UInt32.ofNat (before.length + 1) := by
  unfold countedLines
  rw [List.mem_map]
  constructor
  · rintro ⟨⟨l, i⟩, hmem, heq⟩
    obtain ⟨rfl, rfl⟩ := Prod.mk.inj heq
    obtain ⟨hone, hget⟩ := List.mk_mem_zipIdx_iff_le_and_getElem?_sub.1 hmem
    obtain ⟨hlt, hl⟩ := List.getElem?_eq_some_iff.1 hget
    refine ⟨s.lines.take (i - 1), s.lines.drop (i - 1 + 1), ?_, ?_⟩
    · rw [← hl, ← List.drop_eq_getElem_cons hlt, List.take_append_drop]
    · rw [List.length_take, Nat.min_eq_left (by omega), Nat.sub_add_cancel hone]
  · rintro ⟨before, after, hlines, rfl⟩
    refine ⟨(line, before.length + 1), ?_, rfl⟩
    rw [List.mk_mem_zipIdx_iff_le_and_getElem?_sub, hlines]
    exact ⟨by omega, by simp⟩

/-- The numbered lines without their numbers. -/
theorem map_snd_countedLines (s : Text) : s.countedLines.map Prod.snd = s.lines := by
  unfold countedLines
  rw [List.map_map]
  exact List.zipIdx_map_fst 1 s.lines

theorem mem_lines_of_mem_countedLines {s line : Text} {number : UInt32}
    (h : (number, line) ∈ s.countedLines) : line ∈ s.lines := by
  obtain ⟨before, after, hlines, -⟩ := mem_countedLines_iff.1 h
  rw [hlines]
  exact List.mem_append_right _ List.mem_cons_self

/-- No number is beyond the number of lines, if there are numbers for all of them. -/
theorem toNat_le_of_mem_countedLines {s line : Text} {number : UInt32}
    (hcount : s.lines.length < UInt32.size) (h : (number, line) ∈ s.countedLines) :
    number.toNat ≤ s.lines.length := by
  obtain ⟨before, after, hlines, rfl⟩ := mem_countedLines_iff.1 h
  rw [hlines, List.length_append, List.length_cons] at hcount ⊢
  rw [UInt32.toNat_ofNat_of_lt' (by omega)]
  omega

/-- The lines of a text take up no more than the text. -/
theorem sum_utf8Size_lines_le (s : Text) : (s.lines.map utf8Size).sum ≤ s.utf8Size := by
  induction s with
  | nil => exact le_rfl
  | cons c s ih =>
    rw [lines, utf8Size_cons]
    split
    · rw [List.map_cons, List.sum_cons, utf8Size_nil]
      omega
    · split
      · omega
      · have hfirst : ∀ lines : List Text,
            ((consFirst c lines).map utf8Size).sum = c.utf8Size + (lines.map utf8Size).sum := by
          rintro (_ | ⟨line, rest⟩)
          · rfl
          · exact Nat.add_assoc _ _ _
        rw [hfirst]
        omega

/-! ## Joining lines -/

/-- Lines with newlines between them, and behind the last one if it is closed. -/
def joined (closed : Bool) : List Text → Text
  | [] => []
  | [line] => if closed then line ++ ['\n'] else line
  | line :: line' :: rest => line ++ '\n' :: joined closed (line' :: rest)

theorem joined_cons (closed : Bool) (line : Text) {rest : List Text} (h : rest ≠ []) :
    joined closed (line :: rest) = line ++ '\n' :: joined closed rest := by
  obtain ⟨line', rest, rfl⟩ := List.exists_cons_of_ne_nil h
  rfl

/-- Every line is a part of the joined text. -/
theorem infix_joined (closed : Bool) {line : Text} {lines : List Text} (h : line ∈ lines) :
    line <:+: joined closed lines := by
  induction lines with
  | nil => exact absurd h List.not_mem_nil
  | cons first rest ih =>
    by_cases hrest : rest = []
    · rw [hrest, List.mem_singleton] at h
      rw [h, hrest, joined]
      split
      · exact List.infix_append [] first ['\n']
      · exact List.infix_rfl
    · rw [joined_cons closed first hrest]
      rcases List.mem_cons.1 h with rfl | hmem
      · exact List.infix_append [] line _
      · have hsuffix : joined closed rest <:+ first ++ '\n' :: joined closed rest :=
          ⟨first ++ ['\n'], by rw [List.append_assoc]; rfl⟩
        exact (ih hmem).trans hsuffix.isInfix

/-- Lines that a newline does not change stay in front of others. -/
theorem lines_joined_append (closed : Bool) {front lines : List Text}
    (hfront : ∀ line ∈ front, '\n' ∉ line ∧ withoutReturn line = line) (h : lines ≠ []) :
    Text.lines (joined closed (front ++ lines)) = front ++ Text.lines (joined closed lines) := by
  induction front with
  | nil => rfl
  | cons line front ih =>
    rw [List.forall_mem_cons] at hfront
    have hne : front ++ lines ≠ [] := fun heq => h (List.append_eq_nil_iff.1 heq).2
    rw [List.cons_append, joined_cons closed line hne, lines_append_newline hfront.1.1,
      hfront.1.2, ih hfront.2]
    rfl

/-- **Lines that are joined** are the lines again, if each holds something and a newline does not
change it. -/
theorem lines_joined (closed : Bool) {lines : List Text}
    (h : ∀ line ∈ lines, line ≠ [] ∧ '\n' ∉ line ∧ withoutReturn line = line) :
    Text.lines (joined closed lines) = lines := by
  rcases List.eq_nil_or_concat' lines with rfl | ⟨front, last, rfl⟩
  · rfl
  · rw [List.forall_mem_append, List.forall_mem_singleton] at h
    obtain ⟨hfront, hne, hnewline, hreturn⟩ := h
    have hlast : Text.lines (joined closed [last]) = [last] := by
      cases closed with
      | true =>
        show Text.lines (last ++ '\n' :: []) = [last]
        rw [lines_append_newline hnewline, hreturn]
        rfl
      | false =>
        show Text.lines last = [last]
        rw [lines_of_not_mem hnewline, if_neg hne]
    rw [lines_joined_append closed (fun line hline => (hfront line hline).2)
      (List.cons_ne_nil last []), hlast]

end Text

end Playground
