/-
# Where a key occurs

Searching answers with the leftmost occurrence of a key.  A key of which no proper part stands at
both of its ends cannot overlap with itself, and then the leftmost occurrence is the only one with
no other occurrence in front of it.

* `Text.includes_iff` : a text includes a key just if the key is a part of it.
* `Text.length_le_of_cut?` : no occurrence begins before the one at which a text is cut.
* `Text.cut?_eq_some_iff` : a cut at a key that does not overlap with itself.
-/
import Mathlib.Data.List.Infix
import Mathlib.Tactic.Common
import Playground.Text.Search

namespace Playground

namespace Text

/-! ## The leftmost occurrence -/

theorem after?_append (key rest : Text) : after? key (key ++ rest) = some rest :=
  after?_eq_some_iff.2 rfl

theorem after?_eq_none_iff {key s : Text} : after? key s = none ↔ ¬ key <+: s := by
  rw [Option.eq_none_iff_forall_ne_some]
  constructor
  · rintro h ⟨rest, rfl⟩
    exact h rest (after?_append key rest)
  · rintro h rest hrest
    exact h ⟨rest, (after?_eq_some_iff.1 hrest).symm⟩

theorem startsWith_iff {s key : Text} : s.startsWith key = true ↔ key <+: s := by
  unfold startsWith
  rw [← not_iff_not, ← after?_eq_none_iff]
  simp

/-- A key is looked for at the first place and then behind it. -/
theorem cut?_cons (key : Text) (c : Char) (s : Text) :
    cut? key (c :: s) = match after? key (c :: s) with
      | some rest => some ([], rest)
      | none => (cut? key s).map fun around => (c :: around.1, around.2) := rfl

/-- A text cannot be cut at a key that is no part of it. -/
theorem cut?_eq_none_iff {key s : Text} : cut? key s = none ↔ ¬ key <:+: s := by
  induction s with
  | nil =>
    unfold cut?
    rw [Option.map_eq_none_iff, after?_eq_none_iff, List.prefix_nil, List.infix_nil]
  | cons c s ih =>
    rw [List.infix_cons_iff, not_or, ← ih, ← after?_eq_none_iff]
    rw [cut?_cons]
    rcases after? key (c :: s) with _ | rest
    · simp
    · simp

/-- A text includes a key just if the key is a part of it. -/
theorem includes_iff {s key : Text} : s.includes key = true ↔ key <:+: s := by
  unfold includes
  rw [← not_iff_not, ← cut?_eq_none_iff]
  simp

theorem includes_eq_false_iff {s key : Text} : s.includes key = false ↔ ¬ key <:+: s := by
  rw [← includes_iff, Bool.not_eq_true]

/-- No occurrence of a key begins before the one at which a text is cut. -/
theorem length_le_of_cut? {key s before rest a b : Text} (h : cut? key s = some (before, rest))
    (hs : s = a ++ key ++ b) : before.length ≤ a.length := by
  induction s generalizing before a with
  | nil =>
    have hlen := congrArg List.length (append_of_cut? h)
    simp only [List.length_append, List.length_nil] at hlen
    omega
  | cons c s ih =>
    rw [cut?_cons] at h
    split at h
    · obtain ⟨rfl, -⟩ := Prod.mk.inj (Option.some.inj h)
      exact Nat.zero_le _
    · next hnone =>
      obtain ⟨around, haround, heq⟩ := Option.map_eq_some_iff.1 h
      obtain ⟨rfl, rfl⟩ := Prod.mk.inj heq
      rcases a with _ | ⟨d, a⟩
      · exact absurd ⟨b, hs.symm⟩ (after?_eq_none_iff.1 hnone)
      · exact Nat.succ_le_succ (ih haround (List.cons.inj hs).2)

/-- In front of a cut the key does not occur. -/
theorem not_infix_of_cut? {key s before rest : Text} (hkey : key ≠ [])
    (h : cut? key s = some (before, rest)) : ¬ key <:+: before := by
  rintro ⟨a, b, rfl⟩
  have hs : s = a ++ key ++ (b ++ key ++ rest) := by
    rw [append_of_cut? h]
    simp only [List.append_assoc]
  have hle := length_le_of_cut? h hs
  have hpos := List.length_pos_iff.2 hkey
  simp only [List.length_append] at hle
  omega

/-- Whatever follows some occurrence of a key is the end of what follows the leftmost one. -/
theorem suffix_of_cut? {key s before rest a b : Text} (h : cut? key s = some (before, rest))
    (hs : s = a ++ key ++ b) : b <:+ rest := by
  have hle := length_le_of_cut? h hs
  have hb : b <:+ s := ⟨a ++ key, hs.symm⟩
  have hrest : rest <:+ s := ⟨before ++ key, (append_of_cut? h).symm⟩
  apply List.suffix_of_suffix_length_le hb hrest
  have hlen := congrArg List.length (append_of_cut? h)
  rw [hs] at hlen
  simp only [List.length_append] at hlen
  omega

/-- A key that lacks a character lies in front of that character or behind it. -/
theorem infix_of_infix_append_cons {key a b : Text} {c : Char} (hc : c ∉ key)
    (h : key <:+: a ++ c :: b) : key <:+: a ∨ key <:+: b := by
  obtain ⟨s, t, h⟩ := h
  rcases List.append_eq_append_iff.1 h with ⟨as, rfl, -⟩ | ⟨bs, hbs, hrest⟩
  · exact Or.inl ⟨s, as, rfl⟩
  · rcases bs with _ | ⟨c', bs⟩
    · rw [List.append_nil] at hbs
      exact Or.inl ⟨s, [], by rw [hbs, List.append_nil]⟩
    · obtain ⟨rfl, rfl⟩ := List.cons.inj hrest
      -- The part of the text in front of the key ends before the character or with it.
      rcases List.append_eq_append_iff.1 hbs with ⟨as, -, hkey⟩ | ⟨cs, -, hcs⟩
      · exact absurd (by rw [hkey]; simp) hc
      · rcases cs with _ | ⟨c', cs⟩
        · exact absurd (by rw [← List.nil_append key, ← hcs]; simp) hc
        · obtain ⟨-, rfl⟩ := List.cons.inj hcs
          exact Or.inr ⟨cs, t, rfl⟩

/-! ## Keys that do not overlap with themselves -/

/-- No part of a key but the whole stands both at its start and at its end. -/
def Unbordered (key : Text) : Prop := ∀ k, k ≠ [] → k <+: key → k <:+ key → k = key

/-- A key whose last character occurs nowhere else in it does not overlap with itself. -/
theorem unbordered_concat {key : Text} {c : Char} (h : c ∉ key) : Unbordered (key ++ [c]) := by
  intro k hk hprefix hsuffix
  rcases List.prefix_concat_iff.1 hprefix with heq | hpre
  · exact heq
  · obtain ⟨k', rfl⟩ : ∃ k', k = k' ++ [c] := by
      rcases List.suffix_concat_iff.1 hsuffix with rfl | ⟨k', rfl, -⟩
      · exact absurd rfl hk
      · exact ⟨k', rfl⟩
    exact absurd (hpre.subset (by simp)) h

/-- Such a key does not begin in front of an occurrence and end in it. -/
theorem after?_eq_none_of_unbordered {key before : Text} (hkey : Unbordered key)
    (hbefore : before ≠ []) (h : ¬ key <+: before) (rest : Text) :
    after? key (before ++ key ++ rest) = none := by
  rw [after?_eq_none_iff, List.append_assoc]
  intro hpart
  obtain ⟨t, ht⟩ := hpart
  rcases List.append_eq_append_iff.1 ht with ⟨as, has, -⟩ | ⟨k, hk, hrest⟩
  · exact h ⟨as, has.symm⟩
  · -- The part of the key behind `before` stands at both ends of the key.
    have hstart : k <+: key := by
      refine List.prefix_of_prefix_length_le ⟨t, hrest.symm⟩ (List.prefix_append key rest) ?_
      rw [hk, List.length_append]
      exact Nat.le_add_left _ _
    by_cases hnil : k = []
    · exact h ⟨[], by rw [hk, hnil]; simp⟩
    · have heq := hkey k hnil hstart ⟨before, hk.symm⟩
      have hlen := congrArg List.length hk
      have hpos := List.length_pos_iff.2 hbefore
      rw [heq, List.length_append] at hlen
      omega

/-- A text is cut at an occurrence of such a key if there is no other one in front of it. -/
theorem cut?_append {key before : Text} (hkey : Unbordered key) (h : ¬ key <:+: before)
    (rest : Text) : cut? key (before ++ key ++ rest) = some (before, rest) := by
  induction before with
  | nil =>
    have hafter := after?_append key rest
    rw [List.nil_append]
    rcases hs : key ++ rest with _ | ⟨c, s⟩
    · obtain ⟨rfl, rfl⟩ := List.append_eq_nil_iff.1 hs
      rfl
    · rw [hs] at hafter
      rw [cut?_cons, hafter]
  | cons c before ih =>
    rw [List.infix_cons_iff, not_or] at h
    have hnone : after? key (c :: (before ++ key ++ rest)) = none :=
      after?_eq_none_of_unbordered hkey (List.cons_ne_nil c before) h.1 rest
    show cut? key (c :: (before ++ key ++ rest)) = _
    rw [cut?_cons, hnone, ih h.2]
    rfl

/-- A text is cut at such a key into the two parts around its only occurrence with no other one in
front of it. -/
theorem cut?_eq_some_iff {key s before rest : Text} (hkey : Unbordered key) (hne : key ≠ []) :
    cut? key s = some (before, rest) ↔ s = before ++ key ++ rest ∧ ¬ key <:+: before := by
  constructor
  · intro h
    exact ⟨append_of_cut? h, not_infix_of_cut? hne h⟩
  · rintro ⟨rfl, h⟩
    exact cut?_append hkey h rest

/-- A text is cut at a character into the two parts around its first occurrence. -/
theorem cut?_char_eq_some_iff {c : Char} {s before rest : Text} :
    cut? [c] s = some (before, rest) ↔ s = before ++ c :: rest ∧ c ∉ before := by
  have hkey : Unbordered [c] := @unbordered_concat [] c List.not_mem_nil
  rw [cut?_eq_some_iff hkey (List.cons_ne_nil c []), List.singleton_infix_iff, List.append_assoc,
    List.singleton_append]

/-- A text is in one way only written with a character that does not occur in front. -/
theorem append_cons_inj {c : Char} {a a' b b' : Text} (ha : c ∉ a) (ha' : c ∉ a') :
    a ++ c :: b = a' ++ c :: b' ↔ a = a' ∧ b = b' := by
  constructor
  · intro h
    have hcut : cut? [c] (a ++ c :: b) = some (a, b) := cut?_char_eq_some_iff.2 ⟨rfl, ha⟩
    have hcut' : cut? [c] (a ++ c :: b) = some (a', b') := cut?_char_eq_some_iff.2 ⟨h, ha'⟩
    exact Prod.mk.inj (Option.some.inj (hcut.symm.trans hcut'))
  · rintro ⟨rfl, rfl⟩
    rfl

theorem cut?_char_eq_none_iff {c : Char} {s : Text} : cut? [c] s = none ↔ c ∉ s := by
  rw [cut?_eq_none_iff, List.singleton_infix_iff]

end Text

end Playground
