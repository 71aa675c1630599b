/-
# Spaces around text

Reading ahead takes a run of characters and stops at the first one that is not of their kind.
Trimming drops such runs of spaces at both ends, and text without spaces at its ends stays.

* `Text.takeWhile_append_stop` : a run ends where a character of another kind follows.
* `Text.trim_eq_self` : text that neither begins nor ends with a space is trimmed already.
* `Text.infix_trim_iff` : a part that neither begins nor ends with a space stays.
-/
import Mathlib.Data.List.DropRight
import Mathlib.Data.List.Infix
import Mathlib.Tactic.Common
import Playground.Text.Blank

namespace Playground

namespace Text

/-! ## Runs of characters -/

/-- A run of characters ends where one of another kind follows. -/
theorem takeWhile_append_stop {p : Char → Bool} {s rest : Text} (hs : ∀ c ∈ s, p c = true)
    (hrest : ∀ c ∈ rest.head?, p c = false) : (s ++ rest).takeWhile p = s := by
  rw [List.takeWhile_append_of_pos hs]
  rcases rest with _ | ⟨c, rest⟩
  · rw [List.takeWhile_nil, List.append_nil]
  · have hc : ¬ p c = true := by simp [hrest c rfl]
    rw [List.takeWhile_cons_of_neg hc, List.append_nil]

/-- Behind a run of characters the text goes on where one of another kind follows. -/
theorem dropWhile_append_stop {p : Char → Bool} {s rest : Text} (hs : ∀ c ∈ s, p c = true)
    (hrest : ∀ c ∈ rest.head?, p c = false) : (s ++ rest).dropWhile p = rest := by
  rw [List.dropWhile_append_of_pos hs]
  rcases rest with _ | ⟨c, rest⟩
  · rfl
  · have hc : ¬ p c = true := by simp [hrest c rfl]
    rw [List.dropWhile_cons_of_neg hc]

/-! ## Spaces -/

/-- The ASCII characters that are seen are no spaces. -/
theorem isSpace_eq_false {c : Char} (hlow : 0x20 < c.toNat) (hhigh : c.toNat < 0x85) :
    isSpace c = false := by
  rw [← Bool.not_eq_true]
  intro h
  obtain ⟨range, hrange, hc⟩ := List.any_eq_true.1 h
  rw [Bool.and_eq_true, decide_eq_true_iff, decide_eq_true_iff] at hc
  have hgap : ∀ range ∈ spaceRanges, range.2 ≤ 0x20 ∨ 0x85 ≤ range.1 := by decide
  rcases hgap range hrange with hend | hstart
  · omega
  · omega

theorem isSpace_of_isDigit {c : Char} (h : c.isDigit = true) : isSpace c = false := by
  have hdigit := Char.isDigit_iff_toNat.1 h
  have h0 : '0'.toNat = 48 := rfl
  have h9 : '9'.toNat = 57 := rfl
  exact isSpace_eq_false (by omega) (by omega)

/-- Blank text holds nothing but spaces. -/
theorem not_mem_of_isBlank {s : Text} {c : Char} (h : s.isBlank = true)
    (hc : isSpace c = false) : c ∉ s := by
  intro hmem
  rw [List.all_eq_true.1 h c hmem] at hc
  exact Bool.noConfusion hc

/-- Text that is not blank is not empty. -/
theorem ne_nil_of_isBlank {s : Text} (h : s.isBlank = false) : s ≠ [] := by
  rintro rfl
  exact Bool.noConfusion h

/-! ## Trimming -/

theorem trimStart_eq_self {s : Text} (h : ∀ c ∈ s.head?, isSpace c = false) : s.trimStart = s :=
  @dropWhile_append_stop isSpace [] s (fun _ hc => absurd hc List.not_mem_nil) h

theorem trimEnd_eq_self {s : Text} (h : ∀ c ∈ s.getLast?, isSpace c = false) : s.trimEnd = s := by
  unfold trimEnd
  rw [← List.head?_reverse] at h
  have hstart := trimStart_eq_self h
  unfold trimStart at hstart
  rw [hstart, List.reverse_reverse]

/-- Text that neither begins nor ends with a space is trimmed already. -/
theorem trim_eq_self {s : Text} (hhead : ∀ c ∈ s.head?, isSpace c = false)
    (hlast : ∀ c ∈ s.getLast?, isSpace c = false) : s.trim = s := by
  unfold trim
  rw [trimStart_eq_self hhead, trimEnd_eq_self hlast]

theorem trim_of_no_space {s : Text} (h : ∀ c ∈ s, isSpace c = false) : s.trim = s :=
  trim_eq_self (fun c hc => h c (List.mem_of_head? hc)) fun c hc => h c (List.mem_of_getLast? hc)

/-- Trimming an end goes no further than text that is not blank. -/
theorem trimEnd_append {s t : Text} (h : t.isBlank = false) :
    (s ++ t).trimEnd = s ++ t.trimEnd := by
  unfold trimEnd
  have hne : (t.reverse.dropWhile isSpace).isEmpty = false := by
    rw [List.isEmpty_eq_false_iff, Ne, List.dropWhile_eq_nil_iff]
    intro hall
    have hblank : t.isBlank = true := by
      unfold isBlank
      rw [List.all_eq_true]
      exact fun c hc => hall c (List.mem_reverse.2 hc)
    rw [h] at hblank
    exact Bool.false_ne_true hblank
  rw [List.reverse_append, List.dropWhile_append, hne, if_neg Bool.false_ne_true,
    List.reverse_append, List.reverse_reverse]

/-- Spaces at the end of a text are dropped with those in front of them. -/
theorem trimEnd_append_of_isBlank (s : Text) {t : Text} (h : t.isBlank = true) :
    (s ++ t).trimEnd = s.trimEnd := by
  have hspaces : ∀ c ∈ t.reverse, isSpace c = true :=
    fun c hc => List.all_eq_true.1 h c (List.mem_reverse.1 hc)
  unfold trimEnd
  rw [List.reverse_append, List.dropWhile_append_of_pos hspaces]

/-- Only blank text is trimmed to nothing. -/
theorem trimEnd_eq_nil_iff {s : Text} : s.trimEnd = [] ↔ s.isBlank = true := by
  unfold trimEnd isBlank
  rw [List.reverse_eq_nil_iff, List.dropWhile_eq_nil_iff, List.all_eq_true]
  simp only [List.mem_reverse]

theorem trim_cons_of_isSpace {c : Char} (s : Text) (h : isSpace c = true) :
    trim (c :: s) = s.trim := by
  unfold trim trimStart
  rw [List.dropWhile_cons_of_pos h]

theorem trimEnd_concat_of_isSpace {c : Char} (s : Text) (h : isSpace c = true) :
    (s ++ [c]).trimEnd = s.trimEnd := by
  unfold trimEnd
  rw [List.reverse_append, List.reverse_singleton, List.singleton_append,
    List.dropWhile_cons_of_pos h]

theorem trim_concat_of_isSpace {c : Char} (s : Text) (h : isSpace c = true) :
    (s ++ [c]).trim = s.trim := by
  unfold trim trimStart
  rw [List.dropWhile_append]
  split
  · next hempty =>
    rw [List.isEmpty_iff.1 hempty, List.dropWhile_cons_of_pos h]
    rfl
  · exact trimEnd_concat_of_isSpace _ h

/-- Trimming takes characters away and adds none. -/
theorem trim_infix (s : Text) : s.trim <:+: s := by
  unfold trim trimStart trimEnd
  have hsuffix : s.dropWhile isSpace <:+ s := List.dropWhile_suffix _
  have hprefix := List.reverse_prefix.2
    (List.dropWhile_suffix (l := (s.dropWhile isSpace).reverse) isSpace)
  rw [List.reverse_reverse] at hprefix
  exact hprefix.isInfix.trans hsuffix.isInfix

/-- Text that does not begin with a space is no part of the spaces in front. -/
theorem infix_trimStart {key s : Text} (hhead : ∀ c ∈ key.head?, isSpace c = false)
    (h : key <:+: s) : key <:+: s.trimStart := by
  obtain ⟨before, after, rfl⟩ := h
  unfold trimStart
  rw [List.append_assoc, List.dropWhile_append]
  split
  · rcases key with _ | ⟨c, key⟩
    · exact List.nil_infix
    · have hc : ¬ isSpace c = true := by simp [hhead c rfl]
      rw [List.cons_append, List.dropWhile_cons_of_neg hc]
      exact (List.prefix_append (c :: key) after).isInfix
  · exact ⟨_, after, List.append_assoc _ _ _⟩

/-- **Only spaces are taken away**: a part that neither begins nor ends with a space stays. -/
theorem infix_trim_iff {key s : Text} (hhead : ∀ c ∈ key.head?, isSpace c = false)
    (hlast : ∀ c ∈ key.getLast?, isSpace c = false) : key <:+: s.trim ↔ key <:+: s := by
  constructor
  · intro h
    have hpart := trim_infix s
    exact h.trans hpart
  · intro h
    -- The spaces at the end are those in front of the reversed text.
    rw [← List.head?_reverse] at hlast
    have hend := infix_trimStart hlast (List.reverse_infix.2 (infix_trimStart hhead h))
    rw [← List.reverse_infix, List.reverse_reverse] at hend
    exact hend

theorem mem_trim {s : Text} {c : Char} (hmem : c ∈ s) (hc : isSpace c = false) : c ∈ s.trim := by
  have hspace : ∀ d ∈ ([c] : Text).head?, isSpace d = false := by
    rintro d ⟨⟩
    exact hc
  rw [← List.singleton_infix_iff, infix_trim_iff hspace hspace, List.singleton_infix_iff]
  exact hmem

theorem trim_of_isBlank {s : Text} (h : s.isBlank = true) : s.trim = [] := by
  unfold isBlank at h
  unfold trim trimStart
  rw [List.dropWhile_eq_nil_iff.2 (List.all_eq_true.1 h)]
  rfl

/-- Trimming leaves nothing of a text just if it is blank. -/
theorem trim_eq_nil_iff {s : Text} : s.trim = [] ↔ s.isBlank = true := by
  refine ⟨fun h => List.all_eq_true.2 fun c hc => ?_, trim_of_isBlank⟩
  rw [← Bool.not_eq_false]
  intro hspace
  have hmem := mem_trim hc hspace
  rw [h] at hmem
  exact absurd hmem List.not_mem_nil

end Text

end Playground
