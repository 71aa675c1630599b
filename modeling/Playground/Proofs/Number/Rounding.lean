/-
# Rounding to a given number

A code stands for a significand of 53 bits times a power of two.  Whatever lies closer to it than
half of that power is rounded to it, except that below a power of two the numbers stand twice as
close, so that there only a quarter is left.

* `Binary64.nearestCode_congr` : rounding depends on the value of a fraction alone.
* `Binary64.nearestCode_eq_of_close` : a fraction close to a code is rounded to it.
* `Binary64.nearestCode_units` : a finite number is nearest to itself.
-/
import Mathlib.Tactic
import Playground.Number.Nearest

namespace Playground

/-! ## The nearest whole number -/

theorem divNearest_mul_right (num den : Nat) {k : Nat} (hk : 0 < k) :
    divNearest (num * k) (den * k) = divNearest num den := by
  unfold divNearest
  dsimp only
  rw [Nat.mul_div_mul_right _ _ hk, Nat.mul_mod_mul_right, ← Nat.mul_assoc]
  have hlt : ∀ a b : Nat, a * k < b * k ↔ a < b := fun a b => Nat.mul_lt_mul_right hk
  simp only [hlt]

/-- A fraction less than a half away from a whole number is rounded to it. -/
theorem divNearest_eq {num den m : Nat} (hlower : 2 * (m * den) < 2 * num + den)
    (hupper : 2 * num < 2 * (m * den) + den) : divNearest num den = m := by
  have hden : 0 < den := by omega
  have hnum := Nat.div_add_mod' num den
  have hrem := Nat.mod_lt num hden
  -- The quotient is `m`, or one less if the remainder is more than a half.
  have hle : num / den ≤ m := by
    by_contra h
    have hmul : (m + 1) * den ≤ num / den * den := Nat.mul_le_mul_right _ (by omega)
    rw [Nat.succ_mul] at hmul
    omega
  have hge : m ≤ num / den + 1 := by
    by_contra h
    have hmul : (num / den + 2) * den ≤ m * den := Nat.mul_le_mul_right _ (by omega)
    rw [Nat.add_mul] at hmul
    omega
  unfold divNearest
  dsimp only
  rcases Nat.lt_or_ge (num / den) m with hlt | hge'
  · have heq : m = num / den + 1 := by omega
    have hmul : m * den = num / den * den + den := by rw [heq, Nat.succ_mul]
    rw [if_neg (by omega), if_pos (by omega)]
    exact heq.symm
  · have heq : m = num / den := by omega
    have hmul : m * den = num / den * den := by rw [heq]
    rw [if_pos (by omega)]
    exact heq.symm

namespace Binary64

/-! ## Rounding depends on the value alone -/

theorem nearestCode_mul_right (num den : Nat) {k : Nat} (hk : 0 < k) :
    nearestCode (num * k) (den * k) = nearestCode num den := by
  unfold nearestCode
  dsimp only
  rw [Nat.mul_div_mul_right _ _ hk, Nat.mul_right_comm den k, divNearest_mul_right _ _ hk]

/-- Two fractions of the same value are rounded to the same number. -/
theorem nearestCode_congr {num den num' den' : Nat} (hden : 0 < den) (hden' : 0 < den')
    (h : num * den' = num' * den) : nearestCode num den = nearestCode num' den' := by
  rw [← nearestCode_mul_right num den hden', h, Nat.mul_comm den den',
    nearestCode_mul_right num' den' hden]

theorem nearestCode_le (num den : Nat) : nearestCode num den ≤ infinityCode := Nat.min_le_left _ _

/-! ## Significand and shift of a code -/

/-- How often the significand of a code is doubled. -/
def shift (code : Nat) : Nat := code / fractions - 1

/-- The significand of a code, of 53 bits; with the least exponent it may have fewer. -/
def significand (code : Nat) : Nat := code - shift code * fractions

theorem fractions_eq : fractions = 2 ^ 52 := by decide

/-- A code is its shift and its significand put together. -/
theorem shift_significand (code : Nat) : code = shift code * fractions + significand code := by
  have hle : code / fractions * fractions ≤ code := Nat.div_mul_le_self code fractions
  have hmul : shift code * fractions ≤ code / fractions * fractions :=
    Nat.mul_le_mul_right _ (Nat.sub_le _ _)
  unfold significand
  omega

theorem significand_lt (code : Nat) : significand code < 2 * fractions := by
  have hmod := Nat.div_add_mod' code fractions
  have hlt := Nat.mod_lt code (show 0 < fractions by decide)
  have hsub := Nat.sub_mul (code / fractions) 1 fractions
  unfold significand shift
  omega

/-- A significand that is doubled at all has its full length. -/
theorem fractions_le_significand {code : Nat} (h : 0 < shift code) :
    fractions ≤ significand code := by
  have hmod := Nat.div_add_mod' code fractions
  have hsub := Nat.sub_mul (code / fractions) 1 fractions
  have hmul : 2 * fractions ≤ code / fractions * fractions :=
    Nat.mul_le_mul_right _ (by unfold shift at h; omega)
  unfold significand shift
  omega

/-- The units of a code are its significand, doubled as often as the shift says. -/
theorem units_eq (code : Nat) : units code = significand code * 2 ^ shift code := by
  have hmod := Nat.div_add_mod' code fractions
  have hpos : 0 < fractions := by decide
  unfold units
  split
  · next h =>
    have hshift : shift code = 0 := by rw [shift, Nat.div_eq_of_lt h]
    rw [significand, hshift, Nat.zero_mul, Nat.sub_zero, pow_zero, Nat.mul_one]
  · next h =>
    have hdiv : 1 ≤ code / fractions := (Nat.one_le_div_iff hpos).2 (not_lt.1 h)
    have hsig : significand code = fractions + code % fractions := by
      have hsub := Nat.sub_mul (code / fractions) 1 fractions
      have hmul : 1 * fractions ≤ code / fractions * fractions := Nat.mul_le_mul_right _ hdiv
      unfold significand shift
      omega
    rw [hsig]
    rfl

/-! ## The numbers that are rounded to a code -/

theorem log2_div_le {num den k : Nat} (hden : 0 < den) (h : num < 2 ^ (k + 1) * den) :
    (num / den).log2 ≤ k := by
  rcases Nat.eq_zero_or_pos (num / den) with hzero | hpos
  · rw [hzero, Nat.log2_zero]
    exact Nat.zero_le k
  · have hlt : num / den < 2 ^ (k + 1) := (Nat.div_lt_iff_lt_mul hden).2 h
    exact Nat.le_of_lt_succ ((Nat.log2_lt (Nat.pos_iff_ne_zero.1 hpos)).2 hlt)

theorem le_log2_div {num den k : Nat} (hden : 0 < den) (h : 2 ^ k * den ≤ num) :
    k ≤ (num / den).log2 := by
  have hle : 2 ^ k ≤ num / den := (Nat.le_div_iff_mul_le hden).2 h
  have hne : num / den ≠ 0 := by
    have := Nat.pos_of_ne_zero (pow_ne_zero k (two_ne_zero' ℕ))
    omega
  exact (Nat.le_log2 hne).2 hle

/-- The code of a significand at a shift, if the fraction rounds to it there. -/
theorem nearestCode_of_shift {num den k m : Nat} (hshift : (num / den).log2 - 52 = k)
    (hround : divNearest num (den * 2 ^ k) = m) (hfinite : k * fractions + m < infinityCode) :
    nearestCode num den = k * fractions + m := by
  unfold nearestCode
  dsimp only
  rw [hshift, show Nat.pow 2 k = 2 ^ k from rfl, hround]
  exact Nat.min_eq_right hfinite.le

/-- A fraction less than a quarter of a step below a power of two is rounded up to it. -/
theorem nearestCode_below_power {num den j : Nat} (hden : 0 < den)
    (hbelow : num < 2 ^ (52 + (j + 1)) * den)
    (hclose : 4 * (2 ^ 52 * (den * 2 ^ (j + 1))) < 4 * num + den * 2 ^ (j + 1))
    (hfinite : (j + 2) * fractions < infinityCode) :
    nearestCode num den = (j + 2) * fractions := by
  have hstep : 0 < den * 2 ^ j := Nat.mul_pos hden (pow_pos Nat.two_pos j)
  have hhalf : den * 2 ^ (j + 1) = 2 * (den * 2 ^ j) := by ring
  have htop : 2 ^ (52 + (j + 1)) * den = 2 ^ 53 * (den * 2 ^ j) := by ring
  have hcode : (j + 2) * fractions = j * fractions + 2 * fractions := by ring
  rw [hhalf] at hclose
  -- The fraction has the exponent below, and its significand is rounded up to `2 ^ 53`.
  have hshift : (num / den).log2 - 52 = j := by
    have hle : 2 ^ (52 + j) * den ≤ num := by
      have hpow : 2 ^ (52 + j) * den = 2 ^ 52 * (den * 2 ^ j) := by ring
      omega
    have hge := le_log2_div hden hle
    have hlt : (num / den).log2 ≤ 52 + j := log2_div_le hden hbelow
    omega
  have hround : divNearest num (den * 2 ^ j) = 2 * fractions := by
    rw [fractions_eq]
    apply divNearest_eq
    · omega
    · omega
  rw [hcode] at hfinite ⊢
  exact nearestCode_of_shift hshift hround hfinite

/-- **A fraction close to a finite code is rounded to it**: less than a half away, counted in
steps of the shift, or less than a quarter below a power of two. -/
theorem nearestCode_eq_of_close {code num den : Nat} (hden : 0 < den) (hcode : code < infinityCode)
    (hlower : 2 * (units code * den) < 2 * num + den * 2 ^ shift code)
    (hupper : 2 * num < 2 * (units code * den) + den * 2 ^ shift code)
    (hpower : significand code = fractions →
      4 * (units code * den) < 4 * num + den * 2 ^ shift code) :
    nearestCode num den = code := by
  have hparts := shift_significand code
  have hsig := significand_lt code
  have hfractions := fractions_eq
  have hunits : units code * den = significand code * (den * 2 ^ shift code) := by
    rw [units_eq]
    ring
  rw [hunits] at hlower hupper hpower
  generalize hk : shift code = k at *
  generalize hm : significand code = m at *
  have hstep : 0 < den * 2 ^ k := by positivity
  have hlog : (num / den).log2 ≤ 52 + k := by
    apply log2_div_le hden
    have hmul : m * (den * 2 ^ k) ≤ (2 ^ 53 - 1) * (den * 2 ^ k) :=
      Nat.mul_le_mul_right _ (by omega)
    have hpow : 2 ^ (52 + k + 1) * den = 2 ^ 53 * (den * 2 ^ k) := by ring
    omega
  by_cases hfull : k = 0 ∨ 2 ^ (52 + k) * den ≤ num
  · -- The fraction has the same exponent as the code.
    have hshift : (num / den).log2 - 52 = k := by
      rcases hfull with rfl | hle
      · omega
      · have := le_log2_div hden hle
        omega
    rw [hparts]
    exact nearestCode_of_shift hshift (divNearest_eq hlower hupper) (hparts ▸ hcode)
  · -- The fraction lies below the least number with that exponent, which is a power of two.
    rw [not_or, not_le] at hfull
    obtain ⟨hne, hbelow⟩ := hfull
    obtain ⟨j, rfl⟩ : ∃ j, k = j + 1 := ⟨k - 1, by omega⟩
    have hsig : m = fractions := by
      have hmin : fractions ≤ m := hm ▸ fractions_le_significand (by omega)
      have hpow : 2 ^ (52 + (j + 1)) * den = 2 ^ 52 * (den * 2 ^ (j + 1)) := by ring
      by_contra h
      have hmul : (2 ^ 52 + 1) * (den * 2 ^ (j + 1)) ≤ m * (den * 2 ^ (j + 1)) :=
        Nat.mul_le_mul_right _ (by omega)
      omega
    have hclose := hpower hsig
    have heq : code = (j + 2) * fractions := by
      rw [hparts, hsig]
      ring
    rw [hsig, fractions_eq] at hclose
    rw [heq] at hcode ⊢
    exact nearestCode_below_power hden hbelow hclose hcode

/-- A finite number is nearest to itself. -/
theorem nearestCode_units {code : Nat} (h : code < infinityCode) :
    nearestCode (units code) 1 = code := by
  have hpos : 0 < 1 * 2 ^ shift code := by positivity
  refine nearestCode_eq_of_close Nat.one_pos h ?_ ?_ fun _ => ?_ <;> omega

end Binary64

end Playground
