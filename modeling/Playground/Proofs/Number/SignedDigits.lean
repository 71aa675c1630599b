/-
# Digits with a sign

Whole numbers are written as digits, and a sign may stand in front of them.  A count is read from such
a text in two ways: as the number that the text begins with, or as a numeral.  Both come to the same
number, however many digits there are.

* `SignedDigits.leading?_append` : the number in front of a text.
* `SignedDigits.leading?_toText` : the number that signed digits begin with.
* `SignedDigits.read?_toText` : the number that the text denotes as a numeral.
-/
import Playground.Evaluation.Count
import Playground.Proofs.Number.Numerals

namespace Playground

/-- Digits, and a sign in front of them if there is one. -/
structure SignedDigits where
  /-- Whether the sign is a minus, if there is a sign. -/
  sign : Option Bool
  /-- The digits. -/
  digits : Text
  /-- There is a digit, and nothing else stands among them. -/
  isDigits : Text.isDigits digits = true

namespace SignedDigits

/-- The sign as it is written. -/
def signText : Option Bool → Text
  | none => []
  | some false => ['+']
  | some true => ['-']

/-- The text of signed digits. -/
def toText (n : SignedDigits) : Text := signText n.sign ++ n.digits

/-- Whether a minus stands in front. -/
def negative (n : SignedDigits) : Bool := n.sign.getD false

/-- The number that is nearest to what the digits denote, with their sign. -/
def number (n : SignedDigits) : Binary64 := Decimal.nearest n.negative ⟨Text.toNat n.digits, 0⟩

/-- Digits without a sign. -/
def ofDigits {digits : Text} (h : Text.isDigits digits = true) : SignedDigits := ⟨none, digits, h⟩

end SignedDigits

/-! ## Signs -/

namespace Numeral

/-- A sign is split off, if what follows it does not begin with one. -/
theorem splitSign_append (sign : Option Bool) {s : Text}
    (hs : ∀ c ∈ s.head?, c ≠ '-' ∧ c ≠ '+') :
    splitSign (SignedDigits.signText sign ++ s) = (sign.getD false, s) := by
  rcases sign with _ | ⟨_ | _⟩
  · show splitSign s = (false, s)
    unfold splitSign
    split
    · exact absurd rfl (hs '-' rfl).1
    · exact absurd rfl (hs '+' rfl).2
    · rfl
  · rfl
  · rfl

/-- What is split off is a sign. -/
theorem exists_sign (s : Text) :
    ∃ sign, s = SignedDigits.signText sign ++ (splitSign s).2 ∧ (splitSign s).1 = sign.getD false := by
  unfold splitSign
  split
  · exact ⟨some true, rfl, rfl⟩
  · exact ⟨some false, rfl, rfl⟩
  · exact ⟨none, rfl, rfl⟩

theorem ne_sign_of_isDigit {c : Char} (h : c.isDigit = true) : c ≠ '-' ∧ c ≠ '+' := by
  constructor <;>
  · rintro rfl
    exact absurd h (by decide)

end Numeral

/-! ## Reading -/

namespace SignedDigits

variable (n : SignedDigits)

/-- The digits begin with one. -/
theorem exists_digit : ∃ c s, n.digits = c :: s ∧ c.isDigit = true := by
  obtain ⟨hne, hdigits⟩ := Text.isDigits_iff.1 n.isDigits
  obtain ⟨c, s, hcons⟩ := List.exists_cons_of_ne_nil hne
  exact ⟨c, s, hcons, hdigits c (hcons ▸ List.mem_cons_self)⟩

theorem toText_ne_nil : n.toText ≠ [] := fun h =>
  (Text.isDigits_iff.1 n.isDigits).1 (List.append_eq_nil_iff.1 h).2

/-- Signed digits hold digits and signs. -/
theorem mem_toText {c : Char} (h : c ∈ n.toText) : c.isDigit = true ∨ c = '+' ∨ c = '-' := by
  rcases List.mem_append.1 h with hsign | hdigit
  · unfold signText at hsign
    split at hsign
    · exact absurd hsign List.not_mem_nil
    · exact Or.inr (Or.inl (List.mem_singleton.1 hsign))
    · exact Or.inr (Or.inr (List.mem_singleton.1 hsign))
  · exact Or.inl ((Text.isDigits_iff.1 n.isDigits).2 c hdigit)

/-- So they hold no spaces. -/
theorem isSpace_of_mem {c : Char} (h : c ∈ n.toText) : Text.isSpace c = false := by
  rcases n.mem_toText h with hdigit | rfl | rfl
  · exact Text.isSpace_of_isDigit hdigit
  · decide
  · decide

/-- Nor do they hold letters of a base. -/
theorem baseOf?_of_mem {c : Char} (h : c ∈ n.toText) : Numeral.baseOf? c = none := by
  rcases n.mem_toText h with hdigit | rfl | rfl
  · have htoNat := Text.isDigit_iff_toNat.1 hdigit
    have hB : 'B'.toNat = 66 := rfl
    exact Numeral.baseOf?_eq_none (Or.inl (by omega))
  · decide
  · decide

/-- The sign is split off, whatever stands behind the digits. -/
theorem splitSign_append (rest : Text) :
    Numeral.splitSign (n.toText ++ rest) = (n.negative, n.digits ++ rest) := by
  obtain ⟨hne, hdigits⟩ := Text.isDigits_iff.1 n.isDigits
  have hhead : ∀ c ∈ (n.digits ++ rest).head?, c ≠ '-' ∧ c ≠ '+' := by
    intro c hc
    rw [List.head?_append_of_ne_nil _ hne] at hc
    exact Numeral.ne_sign_of_isDigit (hdigits c (List.mem_of_head? hc))
  unfold toText
  rw [List.append_assoc, Numeral.splitSign_append n.sign hhead]
  rfl

theorem splitSign_toText : Numeral.splitSign n.toText = (n.negative, n.digits) := by
  have hsplit := n.splitSign_append []
  rwa [List.append_nil, List.append_nil] at hsplit

/-- **The number in front** of a text is the one that signed digits denote there, behind spaces and up
to where the digits end. -/
theorem leading?_append {space rest : Text} (hspace : ∀ c ∈ space, Text.isSpace c = true)
    (hrest : ∀ c ∈ rest.head?, c.isDigit = false) :
    Binary64.leading? (space ++ (n.toText ++ rest)) = some n.number := by
  obtain ⟨hne, hdigits⟩ := Text.isDigits_iff.1 n.isDigits
  have hstart : Text.trimStart (space ++ (n.toText ++ rest)) = n.toText ++ rest := by
    refine Text.dropWhile_append_stop hspace fun c hc => ?_
    rw [List.head?_append_of_ne_nil _ n.toText_ne_nil] at hc
    exact n.isSpace_of_mem (List.mem_of_head? hc)
  have htake : (n.digits ++ rest).takeWhile Char.isDigit = n.digits :=
    Text.takeWhile_append_stop hdigits hrest
  unfold Binary64.leading?
  rw [hstart, n.splitSign_append]
  dsimp only
  rw [htake, if_neg hne]
  rfl

/-- **The number that signed digits begin with** is the one that they denote. -/
theorem leading?_toText : Binary64.leading? n.toText = some n.number := by
  have hleading := @leading?_append n [] [] (fun _ hc => absurd hc List.not_mem_nil)
    (fun _ hc => absurd hc (by simp))
  rwa [List.nil_append, List.append_nil] at hleading

/-- **As a numeral** they denote the same number. -/
theorem read?_toText : Binary64.read? n.toText = some n.number := by
  obtain ⟨hne, hdigits⟩ := Text.isDigits_iff.1 n.isDigits
  -- The digits are a decimal without a fraction and an exponent.
  let w : Written := ⟨n.digits, [], none, hne, hdigits, fun _ hc => absurd hc List.not_mem_nil⟩
  have htext : w.toText = n.digits := by
    show n.digits ++ [] ++ [] = n.digits
    rw [List.append_nil, List.append_nil]
  have hdecimal : w.decimal = ⟨Text.toNat n.digits, 0⟩ := by
    show (⟨Text.toNat (n.digits ++ []), 0 - (0 : Nat)⟩ : Decimal) = _
    rw [List.append_nil]
    rfl
  have hsplit : Numeral.splitSign n.toText = (n.negative, w.toText) := by
    rw [htext, n.splitSign_toText]
  have hread := Numeral.read?_of_splitSign (fun c hc => n.baseOf?_of_mem hc) hsplit
  unfold Binary64.read?
  rw [Text.trim_of_no_space fun c hc => n.isSpace_of_mem hc, hread]
  show some (Decimal.nearest n.negative w.decimal) = some n.number
  rw [hdecimal]
  rfl

end SignedDigits

end Playground
