/-
# Text

Text is a list of code points: scanning recurses on it, and a column is a length.  Limits on
output and offsets in a line are counted in UTF-8 bytes, which is a measure of its own.  There is a
largest text, and a longer one cannot be formed.

* `Text.utf8Size_append` : the size of a concatenation is the sum of the sizes.
* `Text.utf8Size_copies` : the size of a repetition is a product.
* `Text.repeated_eq_formed` : a repetition is formed as its copies are.
-/

namespace Playground

/-- Text is a list of code points. -/
abbrev Text := List Char

/-- Why a text cannot be formed. -/
inductive Unformed
  /-- It would take more bytes than the largest text. -/
  | oversized
  deriving DecidableEq, Repr

namespace Text

/-! ## Measures -/

/-- The number of bytes that `s` takes in UTF-8. -/
def utf8Size (s : Text) : Nat := s.foldr (fun c size => c.utf8Size + size) 0

@[simp] theorem utf8Size_nil : utf8Size [] = 0 := rfl

@[simp] theorem utf8Size_cons (c : Char) (s : Text) :
    utf8Size (c :: s) = c.utf8Size + utf8Size s := rfl

/-- The size of a concatenation is the sum of the sizes. -/
@[simp] theorem utf8Size_append (s t : Text) : utf8Size (s ++ t) = utf8Size s + utf8Size t := by
  induction s with
  | nil => simp
  | cons c s ih => rw [List.cons_append, utf8Size_cons, ih, utf8Size_cons, Nat.add_assoc]

/-- Only the empty text takes no byte. -/
theorem utf8Size_pos {s : Text} (h : s ≠ []) : 0 < utf8Size s := by
  cases s with
  | nil => exact absurd rfl h
  | cons c s => exact Nat.add_pos_left c.utf8Size_pos _

/-! ## Repetition -/

/-- `n` copies of `s` in a row.  Copies of the empty text are not counted out, so that a count near
`2 ^ 64` costs nothing there. -/
def copies (s : Text) (n : Nat) : Text := if s = [] then [] else (List.replicate n s).flatten

/-- The case of the empty text is no exception to the rule. -/
theorem copies_eq_flatten (s : Text) (n : Nat) : s.copies n = (List.replicate n s).flatten := by
  unfold copies
  split
  · next h => simp [h]
  · rfl

/-- The size of a repetition is a product. -/
theorem utf8Size_copies (s : Text) (n : Nat) : (s.copies n).utf8Size = n * s.utf8Size := by
  rw [copies_eq_flatten]
  induction n with
  | zero => simp
  | succ n ih =>
    rw [List.replicate_succ, List.flatten_cons, utf8Size_append, ih, Nat.succ_mul, Nat.add_comm]

/-! ## Texts that can be formed -/

/-- The number of bytes of the largest text. -/
def largestSize : Nat := 0x7FFFFFFFFFFFFFFF

/-- A text that is put together, unless it is too large. -/
def formed (s : Text) : Except Unformed Text :=
  if s.utf8Size ≤ largestSize then .ok s else .error .oversized

/-- A repetition, unless it is too large.  Its size is known before the copies are made. -/
def repeated (s : Text) (n : Nat) : Except Unformed Text :=
  if n * s.utf8Size ≤ largestSize then .ok (s.copies n) else .error .oversized

/-! ## Order -/

/-- Whether `s` comes no later than `t`, by the first code point in which they differ. -/
def precedes : (s t : Text) → Bool
  | [], _ => true
  | _ :: _, [] => false
  | c :: s, d :: t => if c = d then precedes s t else c.toNat < d.toNat

end Text

end Playground
