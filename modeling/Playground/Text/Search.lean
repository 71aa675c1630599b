/-
# Searching text

Two questions are asked of a text: what follows a key at its very start, and where the key
occurs first.

* `Text.after?_eq_some_iff` : `after?` answers with the rest behind the key.
* `Text.append_of_cut?` : a cut loses nothing but the key itself.
-/
import Playground.Text.Basic

namespace Playground

namespace Text

/-- What follows `key` at the start of `s`, or `none` if `s` does not start with it. -/
def after? : (key s : Text) → Option Text
  | [], s => some s
  | _ :: _, [] => none
  | k :: key, c :: s => if k = c then after? key s else none

/-- The text around the first occurrence of `key` in `s`: what stands before it and what
follows it. -/
def cut? (key : Text) : Text → Option (Text × Text)
  | [] => (after? key []).map fun rest => ([], rest)
  | c :: s =>
    match after? key (c :: s) with
    | some rest => some ([], rest)
    | none => (cut? key s).map fun around => (c :: around.1, around.2)

/-- Whether `s` starts with `key`. -/
def startsWith (s key : Text) : Bool := (after? key s).isSome

/-- Whether `key` occurs in `s`. -/
def includes (s key : Text) : Bool := (cut? key s).isSome

/-! ## What an answer says -/

/-- `after?` answers with the rest behind the key. -/
theorem after?_eq_some_iff {key s rest : Text} : after? key s = some rest ↔ s = key ++ rest := by
  induction key generalizing s with
  | nil => simp [after?]
  | cons k key ih =>
    cases s with
    | nil => simp [after?]
    | cons c s =>
      by_cases h : k = c
      · simp [after?, h, ih]
      · simp [after?, h, Ne.symm h]

/-- A cut loses nothing but the key itself. -/
theorem append_of_cut? {key s before rest : Text} (h : cut? key s = some (before, rest)) :
    s = before ++ key ++ rest := by
  induction s generalizing before with
  | nil =>
    obtain ⟨r, hr, heq⟩ := Option.map_eq_some_iff.1 h
    obtain ⟨rfl, rfl⟩ := Prod.mk.inj heq
    simpa using after?_eq_some_iff.1 hr
  | cons c s ih =>
    unfold cut? at h
    split at h
    · next r hr =>
      obtain ⟨rfl, rfl⟩ := Prod.mk.inj (Option.some.inj h)
      simpa using after?_eq_some_iff.1 hr
    · obtain ⟨around, ha, heq⟩ := Option.map_eq_some_iff.1 h
      obtain ⟨rfl, rfl⟩ := Prod.mk.inj heq
      simp [ih ha]

end Text

end Playground
