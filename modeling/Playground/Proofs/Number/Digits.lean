/-
# Digits and the numbers they denote

The decimal digits of a number denote that number, and how many there are bounds it between two
powers of ten.

* `Text.toNat_ofNat` : reading the digits of a number gives the number.
* `Decimal.digitCount_eq_iff` : a number between two powers of ten by the count of its digits.
* `Decimal.digits_eq_significant` : the digits of a decimal without the zeros at their end.
-/
import Mathlib.Tactic
import Playground.Number.Layout

namespace Playground

namespace Text

/-! ## Letters and digits -/

theorem isDigit_iff_toNat {c : Char} : c.isDigit = true ↔ 48 ≤ c.toNat ∧ c.toNat ≤ 57 :=
  Char.isDigit_iff_toNat

theorem isUpper_iff_toNat {c : Char} : c.isUpper = true ↔ 65 ≤ c.toNat ∧ c.toNat ≤ 90 := by
  show decide (65 ≤ c.val ∧ c.val ≤ 90) = true ↔ _
  rw [decide_eq_true_iff]
  exact Iff.rfl

theorem isLower_iff_toNat {c : Char} : c.isLower = true ↔ 97 ≤ c.toNat ∧ c.toNat ≤ 122 := by
  show (decide (97 ≤ c.val) && decide (c.val ≤ 122)) = true ↔ _
  rw [Bool.and_eq_true, decide_eq_true_iff, decide_eq_true_iff]
  exact Iff.rfl

/-- Letters are of one of two cases. -/
theorem isAlpha_iff {c : Char} : c.isAlpha = true ↔ c.isUpper = true ∨ c.isLower = true := by
  show (c.isUpper || c.isLower) = true ↔ _
  rw [Bool.or_eq_true]

theorem isAlphanum_iff {c : Char} : c.isAlphanum = true ↔ c.isAlpha = true ∨ c.isDigit = true := by
  show (c.isAlpha || c.isDigit) = true ↔ _
  rw [Bool.or_eq_true]

/-! ## Reading digits -/

theorem toNat_eq_ofDigitChars (s : Text) : toNat s = Nat.ofDigitChars 10 s 0 := rfl

/-- Reading the digits of a number gives the number. -/
theorem toNat_ofNat (n : Nat) : toNat (ofNat n) = n := Nat.ofDigitChars_ten_toDigits

theorem toNat_append (s t : Text) : toNat (s ++ t) = toNat s * 10 ^ t.length + toNat t := by
  rw [toNat_eq_ofDigitChars, toNat_eq_ofDigitChars, toNat_eq_ofDigitChars, Nat.ofDigitChars_append,
    Nat.ofDigitChars_eq_ofDigitChars_zero, Nat.mul_comm]

theorem toNat_replicate_zero (n : Nat) : toNat (List.replicate n '0') = 0 := by
  rw [toNat_eq_ofDigitChars, Nat.ofDigitChars_replicate_zero, Nat.mul_zero]

theorem isDigit_of_mem_ofNat {n : Nat} {c : Char} (h : c ∈ ofNat n) : c.isDigit = true :=
  Nat.isDigit_of_mem_toDigits (by decide) (by decide) h

theorem ofNat_ne_nil (n : Nat) : ofNat n ≠ [] := Nat.toDigits_ne_nil

theorem isDigits_iff {s : Text} : isDigits s = true ↔ s ≠ [] ∧ ∀ c ∈ s, c.isDigit = true := by
  unfold isDigits
  rw [Bool.and_eq_true, List.all_eq_true, Bool.not_eq_true', List.isEmpty_eq_false_iff]

/-- The digits of a number are a text of digits. -/
theorem isDigits_ofNat (n : Nat) : isDigits (ofNat n) = true :=
  isDigits_iff.2 ⟨ofNat_ne_nil n, fun _ hc => isDigit_of_mem_ofNat hc⟩

theorem not_mem_of_isDigits {s : Text} {c : Char} (h : isDigits s = true)
    (hc : c.isDigit = false) : c ∉ s := by
  intro hmem
  rw [(isDigits_iff.1 h).2 c hmem] at hc
  exact Bool.noConfusion hc

end Text

namespace Decimal

/-! ## The count of digits -/

theorem digitCount_le_iff {n k : Nat} (hk : 0 < k) : digitCount n ≤ k ↔ n < 10 ^ k :=
  Nat.length_toDigits_le_iff (by decide) hk

theorem digitCount_pos (n : Nat) : 0 < digitCount n := Nat.length_toDigits_pos

theorem lt_pow_digitCount (n : Nat) : n < 10 ^ digitCount n :=
  (digitCount_le_iff (digitCount_pos n)).1 le_rfl

theorem pow_le_of_digitCount {n : Nat} (hn : 0 < n) : 10 ^ (digitCount n - 1) ≤ n := by
  rcases Nat.eq_zero_or_pos (digitCount n - 1) with h | h
  · rw [h, pow_zero]
    exact hn
  · by_contra hlt
    have hle := (digitCount_le_iff h).2 (not_le.1 hlt)
    omega

/-- The count of digits tells between which powers of ten a number lies. -/
theorem digitCount_eq_iff {n k : Nat} (hn : 0 < n) :
    digitCount n = k + 1 ↔ 10 ^ k ≤ n ∧ n < 10 ^ (k + 1) := by
  constructor
  · intro h
    have hlower := pow_le_of_digitCount hn
    have hupper := lt_pow_digitCount n
    rw [h] at hlower hupper
    exact ⟨hlower, hupper⟩
  · rintro ⟨hlower, hupper⟩
    have hle := (digitCount_le_iff (Nat.succ_pos k)).2 hupper
    by_contra hne
    have hpos := digitCount_pos n
    have hlt : digitCount n ≤ k := by omega
    have := (digitCount_le_iff (by omega)).1 hlt
    omega

/-- Zeros behind the digits are counted with them. -/
theorem digitCount_mul_pow {n : Nat} (hn : 0 < n) (k : Nat) :
    digitCount (n * 10 ^ k) = digitCount n + k := by
  obtain ⟨j, hj⟩ := Nat.exists_eq_add_one_of_ne_zero (digitCount_pos n).ne'
  obtain ⟨hlower, hupper⟩ := (digitCount_eq_iff hn).1 hj
  have hpos : 0 < 10 ^ k := by positivity
  rw [hj, show j + 1 + k = (j + k) + 1 by omega, digitCount_eq_iff (Nat.mul_pos hn hpos)]
  constructor
  · rw [pow_add]
    exact Nat.mul_le_mul_right _ hlower
  · rw [show j + k + 1 = (j + 1) + k by omega, pow_add]
    exact Nat.mul_lt_mul_of_pos_right hupper hpos

/-! ## Digits without the zeros at their end -/

/-- The digits of a decimal are its significant digits and the zeros behind them. -/
theorem ofNat_eq_significant (d : Decimal) :
    ∃ zeros, Text.ofNat d.digits = d.significant ++ List.replicate zeros '0' := by
  refine ⟨((Text.ofNat d.digits).reverse.takeWhile (· = '0')).length, ?_⟩
  have hzeros : ((Text.ofNat d.digits).reverse.takeWhile (· = '0')).reverse
      = List.replicate ((Text.ofNat d.digits).reverse.takeWhile (· = '0')).length '0' := by
    rw [List.eq_replicate_iff]
    refine ⟨List.length_reverse, fun c hc => ?_⟩
    exact of_decide_eq_true (List.all_eq_true.1 List.all_takeWhile c (List.mem_reverse.1 hc))
  rw [← hzeros, significant, ← List.reverse_append, List.takeWhile_append_dropWhile,
    List.reverse_reverse]

theorem isDigit_of_mem_significant {d : Decimal} {c : Char} (h : c ∈ d.significant) :
    c.isDigit = true := by
  obtain ⟨zeros, heq⟩ := ofNat_eq_significant d
  apply Text.isDigit_of_mem_ofNat (n := d.digits)
  rw [heq]
  exact List.mem_append_left _ h

/-- A decimal other than zero has its significant digits, and some count of zeros behind them makes
up for its digits and its point. -/
theorem digits_eq_significant {d : Decimal} (hd : d.digits ≠ 0) :
    ∃ zeros : Nat, d.digits = Text.toNat d.significant * 10 ^ zeros
      ∧ d.point = d.significant.length + zeros + d.exponent
      ∧ Text.toNat d.significant ≠ 0 ∧ d.significant ≠ [] := by
  obtain ⟨zeros, heq⟩ := ofNat_eq_significant d
  have hdigits : d.digits = Text.toNat d.significant * 10 ^ zeros := by
    have h := congrArg Text.toNat heq
    rw [Text.toNat_ofNat, Text.toNat_append, Text.toNat_replicate_zero, List.length_replicate] at h
    exact h
  have hne : Text.toNat d.significant ≠ 0 := by
    intro h
    rw [h, Nat.zero_mul] at hdigits
    exact hd hdigits
  refine ⟨zeros, hdigits, ?_, hne, ?_⟩
  · unfold point digitCount
    rw [heq, List.length_append, List.length_replicate]
    push_cast
    ring
  · rintro hnil
    exact hne (by rw [hnil]; rfl)

end Decimal

end Playground
