/-
# Truncation

The whole part of a number needs no rounding.  Either the shift of its significand is so large that it
has no fraction, or what stands in front of its fraction has no more than 53 bits.  So the whole part of a
magnitude is the floor of a rational, and truncation goes toward zero and no further.

* `Binary64.wholePart_eq_floor` : the whole part of a magnitude.
* `Binary64.toRat?_truncated` : truncation as an operation on rationals.
* `Binary64.eq_of_toRat?` : a rational other than zero is at most one number.
* `Binary64.isRefused_iff` : the finite numbers that are refused as counts.
-/
import Mathlib.Algebra.Order.Floor.Semifield
import Playground.Proofs.DigitCounts

namespace Playground

/-- The whole number next to a rational on the side of zero. -/
def towardZero (q : ℚ) : ℤ := if q < 0 then ⌈q⌉ else ⌊q⌋

/-- From minus one down something is left. -/
theorem towardZero_ne_zero {q : ℚ} (h : q ≤ -1) : towardZero q ≠ 0 := by
  have hle : towardZero q ≤ -1 := by
    rw [towardZero, if_pos (by linarith), Int.ceil_le]
    push_cast
    exact h
  omega

namespace Binary64

/-! ## Whole parts -/

/-- Toward zero a rational goes by the floor of its magnitude. -/
theorem towardZero_signed (negative : Bool) {q : ℚ} (hq : 0 ≤ q) :
    (towardZero (signed negative q) : ℚ) = signed negative ⌊q⌋₊ := by
  have hfloor : (⌊q⌋₊ : ℚ) = ⌊q⌋ := natCast_floor_eq_intCast_floor hq
  rw [hfloor]
  unfold signed towardZero
  cases negative with
  | false => rw [if_neg Bool.false_ne_true, if_neg Bool.false_ne_true, if_neg (not_lt.2 hq)]
  | true =>
    rw [if_pos rfl, if_pos rfl]
    rcases hq.eq_or_lt with rfl | hpos
    · simp
    · rw [if_pos (neg_lt_zero.2 hpos), Int.ceil_neg, Int.cast_neg]

theorem floor_magnitude (code : Nat) : ⌊magnitude code⌋₊ = units code / unitsPerOne := by
  rw [magnitude, ← Decimal.unitsPerOne_cast, Nat.floor_div_eq_div]

variable {x y : Binary64} {q : ℚ}

theorem meaning_of_lt (h : x.code < infinityCode) :
    x.meaning = .finite x.isNegative (units x.code) := if_pos h

theorem abs_of_toRat? (h : x.toRat? = some q) : |q| = magnitude x.code := by
  obtain ⟨-, rfl⟩ := toRat?_eq_some_iff.1 h
  have hnonneg := magnitude_nonneg x.code
  unfold signed
  split_ifs
  · rw [abs_neg, abs_of_nonneg hnonneg]
  · exact abs_of_nonneg hnonneg

/-- **The whole part of a magnitude** is its floor. -/
theorem wholePart_eq_floor (h : x.toRat? = some q) : x.wholePart = ⌊|q|⌋₊ := by
  obtain ⟨hcode, -⟩ := toRat?_eq_some_iff.1 h
  rw [wholePart_of_meaning (meaning_of_lt hcode), abs_of_toRat? h, floor_magnitude]

/-- The whole part of a magnitude is a magnitude of the format. -/
theorem units_nearestCode_wholePart {code : Nat} (h : code < infinityCode) :
    units (nearestCode (units code / unitsPerOne * unitsPerOne) 1)
      = units code / unitsPerOne * unitsPerOne := by
  obtain ⟨one, hone, hunits⟩ := Numeral.exists_unitsPerOne_eq
  rw [hunits]
  rcases Nat.lt_or_ge (shift code) one with hlt | hge
  · -- What stands in front of the fraction is no longer than the significand.
    have hbits : units code / 2 ^ one ≤ 2 ^ 53 := by
      have hsignificand := significand_lt code
      rw [fractions_eq] at hsignificand
      calc units code / 2 ^ one = significand code * 2 ^ shift code / 2 ^ one := by rw [units_eq]
        _ ≤ significand code * 2 ^ one / 2 ^ one :=
            Nat.div_le_div_right (Nat.mul_le_mul_left _ (Nat.pow_le_pow_right Nat.two_pos hlt.le))
        _ = significand code := Nat.mul_div_cancel _ (by positivity)
        _ ≤ 2 ^ 53 := by omega
    exact units_nearestCode hbits (by omega)
  · -- There is no fraction.
    have hdvd : 2 ^ one ∣ units code := by
      rw [units_eq]
      exact (pow_dvd_pow 2 hge).mul_left _
    rw [Nat.div_mul_cancel hdvd, nearestCode_units h]

/-- **Truncation** goes to the next whole number on the side of zero. -/
theorem toRat?_truncated (h : x.toRat? = some q) : x.truncated.toRat? = some (towardZero q : ℚ) := by
  obtain ⟨hcode, rfl⟩ := toRat?_eq_some_iff.1 h
  have hexact := units_nearestCode_wholePart hcode
  have htruncated : x.truncated
      = ofCode x.isNegative (nearestCode (units x.code / unitsPerOne * unitsPerOne) 1) := by
    unfold truncated
    rw [meaning_of_lt hcode]
    rfl
  generalize nearestCode (units x.code / unitsPerOne * unitsPerOne) 1 = code at hexact htruncated
  have hfinite : code < infinityCode := by
    have hle : units code ≤ units x.code := hexact ▸ Nat.div_mul_le_self _ _
    by_contra hlarge
    have hlt := units_lt_units (lt_of_lt_of_le hcode (not_lt.1 hlarge))
    omega
  rw [htruncated, toRat?_ofCode _ hfinite, towardZero_signed _ (magnitude_nonneg _), floor_magnitude,
    magnitude_eq_ofUnits, hexact, ofUnits_mul_unitsPerOne]

/-! ## Signs -/

/-- A number is negative as its rational is, unless that is zero. -/
theorem isNegative_of_toRat? (h : x.toRat? = some q) (hq : q ≠ 0) :
    x.isNegative = decide (q < 0) := by
  obtain ⟨-, rfl⟩ := toRat?_eq_some_iff.1 h
  have hnonneg := magnitude_nonneg x.code
  unfold signed at hq ⊢
  cases hsign : x.isNegative with
  | false =>
    rw [if_neg Bool.false_ne_true]
    exact (decide_eq_false (not_lt.2 hnonneg)).symm
  | true =>
    rw [hsign, if_pos rfl, neg_ne_zero] at hq
    rw [if_pos rfl]
    exact (decide_eq_true (neg_lt_zero.2 (lt_of_le_of_ne hnonneg hq.symm))).symm

/-- **A rational other than zero** is at most one number. -/
theorem eq_of_toRat? (hx : x.toRat? = some q) (hy : y.toRat? = some q) (hq : q ≠ 0) : x = y := by
  have hmagnitude : magnitude x.code = magnitude y.code := by
    rw [← abs_of_toRat? hx, ← abs_of_toRat? hy]
  rw [← ofCode_isNegative_code x, ← ofCode_isNegative_code y, isNegative_of_toRat? hx hq,
    isNegative_of_toRat? hy hq, magnitude_inj hmagnitude]

/-! ## Refused numbers -/

/-- **A finite number is refused** as a count from minus one down. -/
theorem isRefused_iff (h : x.toRat? = some q) : x.isRefused = true ↔ q ≤ -1 := by
  have hrefused : x.isRefused = (x.isNegative && x.wholePart != 0) := by
    unfold isRefused
    rw [meaning_of_lt (toRat?_eq_some_iff.1 h).1]
  have hone : ⌊|q|⌋₊ ≠ 0 ↔ 1 ≤ |q| := by rw [← Nat.pos_iff_ne_zero, Nat.floor_pos]
  rw [hrefused, Bool.and_eq_true, bne_iff_ne, wholePart_eq_floor h, hone]
  constructor
  · rintro ⟨hnegative, hlarge⟩
    have hq : q ≠ 0 := by
      rintro rfl
      rw [abs_zero] at hlarge
      linarith
    rw [isNegative_of_toRat? h hq, decide_eq_true_iff] at hnegative
    rw [abs_of_neg hnegative] at hlarge
    linarith
  · intro hbelow
    rw [isNegative_of_toRat? h (by linarith), abs_of_neg (by linarith)]
    exact ⟨decide_eq_true (by linarith), by linarith⟩

end Binary64

end Playground
