/-
# The shortest decimal reads back

A number lies between two neighbours on the grid of the decimals with seventeen digits, and the
closer one of them is rounded to it.  So the search for the shortest decimal finds one, and that
one reads back as the number.

* `Decimal.nearestCode_scale` : zeros behind the digits do not change what a decimal reads as.
* `Decimal.onGrid?_seventeen` : on the grid of seventeen digits one of two neighbours reads back.
* `Decimal.nearestCode_shortest` : the shortest decimal reads back.
-/
import Playground.Proofs.Number.Digits
import Playground.Proofs.Number.Rounding

namespace Playground

namespace Decimal

/-! ## Reading a decimal by its value -/

/-- A decimal other than zero within the range of the format is rounded as the fraction that it
is. -/
theorem nearestCode_eq {d : Decimal} (hd : d.digits ≠ 0) (hlow : -330 ≤ d.point)
    (hhigh : d.point ≤ 330) :
    d.nearestCode = Binary64.nearestCode
      (d.digits * 10 ^ d.exponent.toNat * Binary64.unitsPerOne) (10 ^ (-d.exponent).toNat) := by
  unfold nearestCode
  rw [if_neg (by omega), if_neg (by omega)]
  split
  · next h =>
    rw [show (-d.exponent).toNat = 0 by omega, pow_zero]
    rfl
  · next h =>
    rw [show d.exponent.toNat = 0 by omega, pow_zero, Nat.mul_one]
    rfl

theorem point_scale {n : Nat} (hn : n ≠ 0) (exponent : Int) (k : Nat) :
    (⟨n * 10 ^ k, exponent - k⟩ : Decimal).point = (⟨n, exponent⟩ : Decimal).point := by
  unfold point
  rw [digitCount_mul_pow (Nat.pos_of_ne_zero hn)]
  push_cast
  ring

/-- Zeros behind the digits do not change what a decimal reads as. -/
theorem nearestCode_scale (n : Nat) (exponent : Int) (k : Nat) :
    (⟨n * 10 ^ k, exponent - k⟩ : Decimal).nearestCode = (⟨n, exponent⟩ : Decimal).nearestCode := by
  rcases eq_or_ne n 0 with rfl | hn
  · unfold nearestCode
    rw [if_pos (by simp), if_pos (by simp)]
  have hn' : n * 10 ^ k ≠ 0 := Nat.mul_ne_zero hn (pow_ne_zero k (by decide))
  have hpoint := point_scale hn exponent k
  rcases lt_or_ge (⟨n, exponent⟩ : Decimal).point (-330) with hlow | hlow
  · unfold nearestCode
    rw [if_pos (Or.inr (hpoint ▸ hlow)), if_pos (Or.inr hlow)]
  rcases lt_or_ge 330 (⟨n, exponent⟩ : Decimal).point with hhigh | hhigh
  · unfold nearestCode
    rw [hpoint, if_neg (by simp only [not_or, not_lt]; exact ⟨hn', hlow⟩), if_pos hhigh,
      if_neg (by simp only [not_or, not_lt]; exact ⟨hn, hlow⟩), if_pos hhigh]
  rw [nearestCode_eq hn' (hpoint ▸ hlow) (hpoint ▸ hhigh), nearestCode_eq hn hlow hhigh]
  apply Binary64.nearestCode_congr (by positivity) (by positivity)
  dsimp only
  -- Both sides have the same power of ten behind the digits.
  have hpow : k + (exponent - k).toNat + (-exponent).toNat
      = exponent.toNat + (-(exponent - k)).toNat := by omega
  calc n * 10 ^ k * 10 ^ (exponent - k).toNat * Binary64.unitsPerOne * 10 ^ (-exponent).toNat
      = n * Binary64.unitsPerOne * 10 ^ (k + (exponent - k).toNat + (-exponent).toNat) := by ring
    _ = n * Binary64.unitsPerOne * 10 ^ (exponent.toNat + (-(exponent - k)).toNat) := by rw [hpow]
    _ = n * 10 ^ exponent.toNat * Binary64.unitsPerOne * 10 ^ (-(exponent - k)).toNat := by ring

/-! ## The place of the point -/

-- `Nat.pow_eq` for rewriting where Lean must not try to evaluate the power.
theorem natPow_eq (a b : Nat) : Nat.pow a b = a ^ b := rfl

theorem unitsPerOne_le : Binary64.unitsPerOne ≤ 10 ^ 324 := by decide +kernel

theorem greatest_lt : (2 : Nat) ^ 53 * 2 ^ 2045 ≤ 10 ^ 309 * Binary64.unitsPerOne := by
  decide +kernel

theorem units_lt {code : Nat} (h : code < Binary64.infinityCode) :
    Binary64.units code < 10 ^ 309 * Binary64.unitsPerOne := by
  -- The greatest finite number has this shift and a full significand.
  have hshift : Binary64.shift code ≤ 2045 := by
    have hdiv : code / Binary64.fractions < 0x7FF :=
      (Nat.div_lt_iff_lt_mul (by decide)).2 h
    unfold Binary64.shift
    omega
  have hsig := Binary64.significand_lt code
  rw [Binary64.fractions_eq] at hsig
  have hpow : ∀ k, Binary64.shift code ≤ k → 2 ^ Binary64.shift code ≤ 2 ^ k :=
    fun _ => Nat.pow_le_pow_right Nat.two_pos
  calc Binary64.units code
      = Binary64.significand code * 2 ^ Binary64.shift code := Binary64.units_eq code
    _ < 2 ^ 53 * 2 ^ Binary64.shift code :=
        Nat.mul_lt_mul_of_pos_right (by omega) (by positivity)
    _ ≤ 2 ^ 53 * 2 ^ 2045 := Nat.mul_le_mul_left _ (hpow 2045 hshift)
    _ ≤ 10 ^ 309 * Binary64.unitsPerOne := greatest_lt

theorem units_pos {code : Nat} (h : 0 < code) : 0 < Binary64.units code := by
  have hparts := Binary64.shift_significand code
  rw [Binary64.units_eq]
  refine Nat.mul_pos ?_ (by positivity)
  rcases Nat.eq_zero_or_pos (Binary64.shift code) with hzero | hpos
  · rw [hzero] at hparts
    omega
  · exact lt_of_lt_of_le (by decide) (Binary64.fractions_le_significand hpos)

/-- The place of the decimal point of a positive finite number is in the range of the format, and
the number lies between the two powers of ten that it tells. -/
theorem pointOfCode_spec {code : Nat} (hpos : 0 < code) (hcode : code < Binary64.infinityCode) :
    ∃ places : Nat, places ≤ 632 ∧ pointOfCode code = places + 1 - 324
      ∧ 10 ^ places * Binary64.unitsPerOne ≤ Binary64.units code * 10 ^ 324
      ∧ Binary64.units code * 10 ^ 324 < 10 ^ (places + 1) * Binary64.unitsPerOne := by
  have hone : 0 < Binary64.unitsPerOne := by decide +kernel
  have hunits := units_pos hpos
  generalize hn : Binary64.units code * 10 ^ 324 / Binary64.unitsPerOne = n
  have hnpos : 0 < n := by
    rw [← hn]
    refine Nat.div_pos ?_ hone
    exact unitsPerOne_le.trans (Nat.le_mul_of_pos_left _ hunits)
  obtain ⟨places, hplaces⟩ := Nat.exists_eq_add_one_of_ne_zero (digitCount_pos n).ne'
  obtain ⟨hlower, hupper⟩ := (digitCount_eq_iff hnpos).1 hplaces
  have hle : 10 ^ places * Binary64.unitsPerOne ≤ Binary64.units code * 10 ^ 324 :=
    (Nat.le_div_iff_mul_le hone).1 (hn ▸ hlower)
  have hlt : Binary64.units code * 10 ^ 324 < 10 ^ (places + 1) * Binary64.unitsPerOne :=
    (Nat.div_lt_iff_lt_mul hone).1 (hn ▸ hupper)
  refine ⟨places, ?_, ?_, hle, hlt⟩
  · have hswap : ∀ a b c : Nat, 10 ^ a * c * 10 ^ b = 10 ^ (a + b) * c := fun a b c => by ring
    have hmax : Binary64.units code * 10 ^ 324 < 10 ^ (309 + 324) * Binary64.unitsPerOne := by
      rw [← hswap]
      exact Nat.mul_lt_mul_of_pos_right (units_lt hcode) (pow_pos (by decide) _)
    have hpow : (10 : Nat) ^ places < 10 ^ (309 + 324) :=
      lt_of_mul_lt_mul_right (hle.trans_lt hmax) (Nat.zero_le _)
    have := (Nat.pow_lt_pow_iff_right (by decide)).1 hpow
    omega
  · unfold pointOfCode
    simp only [natPow_eq]
    rw [hn, hplaces]
    exact congrArg (· - 324) (Nat.cast_succ places)

/-! ## The grid of seventeen digits -/

/-- One of the two whole numbers around a fraction is at most a half away from it. -/
theorem exists_near (num : Nat) {den : Nat} (hden : 0 < den) :
    ∃ n, (n = num / den ∨ n = num / den + 1) ∧ 2 * num ≤ 2 * (n * den) + den
      ∧ 2 * (n * den) ≤ 2 * num + den := by
  have hnum := Nat.div_add_mod' num den
  have hrem := Nat.mod_lt num hden
  rcases le_or_gt (2 * (num % den)) den with hle | hlt
  · exact ⟨num / den, Or.inl rfl, by omega, by omega⟩
  · have hmul := Nat.add_mul (num / den) 1 den
    exact ⟨num / den + 1, Or.inr rfl, by omega, by omega⟩

/-- Where the grid has seventeen digits before the point, its steps are shorter than those of the
numbers. -/
theorem step_lt {code num den step : Nat} (hnum : num = Binary64.significand code * step)
    (hstep : 0 < step) (hden : 10 ^ 16 * den ≤ num) :
    den < step ∧ (Binary64.significand code = Binary64.fractions → 2 * den < step) := by
  have hsig := Binary64.significand_lt code
  have hfractions := Binary64.fractions_eq
  constructor
  · have hmul : Binary64.significand code * step ≤ 2 ^ 53 * step :=
      Nat.mul_le_mul_right _ (by omega)
    omega
  · intro hpower
    rw [hpower, hfractions] at hnum
    omega

/-- A decimal close to a finite number reads back as it. -/
theorem nearestCode_of_close {code n : Nat} {exponent : Int} (hn : n ≠ 0)
    (hlow : -330 ≤ (⟨n, exponent⟩ : Decimal).point) (hhigh : (⟨n, exponent⟩ : Decimal).point ≤ 330)
    (hcode : code < Binary64.infinityCode)
    (hden : 10 ^ 16 * (Binary64.unitsPerOne * 10 ^ exponent.toNat)
      ≤ Binary64.units code * 10 ^ (-exponent).toNat)
    (hlower : 2 * (Binary64.units code * 10 ^ (-exponent).toNat)
      ≤ 2 * (n * (Binary64.unitsPerOne * 10 ^ exponent.toNat))
        + Binary64.unitsPerOne * 10 ^ exponent.toNat)
    (hupper : 2 * (n * (Binary64.unitsPerOne * 10 ^ exponent.toNat))
      ≤ 2 * (Binary64.units code * 10 ^ (-exponent).toNat)
        + Binary64.unitsPerOne * 10 ^ exponent.toNat) :
    (⟨n, exponent⟩ : Decimal).nearestCode = code := by
  rw [nearestCode_eq hn hlow hhigh]
  dsimp only
  have hnum : n * 10 ^ exponent.toNat * Binary64.unitsPerOne
      = n * (Binary64.unitsPerOne * 10 ^ exponent.toNat) := by ring
  have hpow : 0 < 10 ^ (-exponent).toNat := pow_pos (by decide) _
  have hstep : 0 < 10 ^ (-exponent).toNat * 2 ^ Binary64.shift code :=
    Nat.mul_pos hpow (pow_pos (by decide) _)
  have hunits : Binary64.units code * 10 ^ (-exponent).toNat
      = Binary64.significand code * (10 ^ (-exponent).toNat * 2 ^ Binary64.shift code) := by
    rw [Binary64.units_eq]
    ring
  obtain ⟨hlt, hpower⟩ := step_lt hunits hstep hden
  rw [hnum]
  -- The decimal is half a step of the grid away at most, and a step of the numbers is longer.
  apply Binary64.nearestCode_eq_of_close hpow hcode (by omega) (by omega)
  intro h
  have := hpower h
  omega

theorem digitCount_of_seventeen {n : Nat} (hlow : 10 ^ 16 ≤ n) (hhigh : n ≤ 10 ^ 17) :
    digitCount n = 17 ∨ digitCount n = 18 := by
  rcases Nat.lt_or_ge n (10 ^ 17) with hlt | hge
  · exact Or.inl ((digitCount_eq_iff (by omega)).2 ⟨hlow, hlt⟩)
  · exact Or.inr ((digitCount_eq_iff (by omega)).2 ⟨hge, by omega⟩)

/-- Powers of ten around a fraction, moved to the grid that leaves seventeen of its digits before
the point. -/
theorem seventeen_bounds {num den places unit j k : Nat} (hgrid : j + places = k + 16 + unit)
    (hlower : 10 ^ places * den ≤ num * 10 ^ unit)
    (hupper : num * 10 ^ unit < 10 ^ (places + 1) * den) :
    10 ^ 16 * (den * 10 ^ k) ≤ num * 10 ^ j ∧ num * 10 ^ j < 10 ^ 17 * (den * 10 ^ k) := by
  have hunit : 0 < 10 ^ unit := pow_pos (by decide) _
  have hnum : num * 10 ^ j * 10 ^ unit = num * 10 ^ unit * 10 ^ j := by ring
  constructor
  · apply Nat.le_of_mul_le_mul_right _ hunit
    calc 10 ^ 16 * (den * 10 ^ k) * 10 ^ unit = den * 10 ^ (k + 16 + unit) := by ring
      _ = 10 ^ places * den * 10 ^ j := by rw [← hgrid]; ring
      _ ≤ num * 10 ^ unit * 10 ^ j := Nat.mul_le_mul_right _ hlower
      _ = num * 10 ^ j * 10 ^ unit := hnum.symm
  · apply Nat.lt_of_mul_lt_mul_right (a := 10 ^ unit)
    calc num * 10 ^ j * 10 ^ unit = num * 10 ^ unit * 10 ^ j := hnum
      _ < 10 ^ (places + 1) * den * 10 ^ j :=
          Nat.mul_lt_mul_of_pos_right hupper (pow_pos (by decide) _)
      _ = den * 10 ^ (j + places) * 10 := by ring
      _ = 10 ^ 17 * (den * 10 ^ k) * 10 ^ unit := by rw [hgrid]; ring

/-- **On the grid of seventeen digits** one of the two decimals around a number reads back. -/
theorem exists_seventeen {code : Nat} (hpos : 0 < code) (hcode : code < Binary64.infinityCode)
    {exponent : Int} (hexponent : exponent = pointOfCode code - 17) :
    ∃ n, (n = Binary64.units code * 10 ^ (-exponent).toNat
          / (Binary64.unitsPerOne * 10 ^ exponent.toNat)
        ∨ n = Binary64.units code * 10 ^ (-exponent).toNat
          / (Binary64.unitsPerOne * 10 ^ exponent.toNat) + 1)
      ∧ (⟨n, exponent⟩ : Decimal).nearestCode = code := by
  obtain ⟨places, hplaces, hpoint, hlower, hupper⟩ := pointOfCode_spec hpos hcode
  have hone : 0 < Binary64.unitsPerOne := by decide +kernel
  have hden : 0 < Binary64.unitsPerOne * 10 ^ exponent.toNat :=
    Nat.mul_pos hone (pow_pos (by decide) _)
  obtain ⟨hlow, hhigh⟩ := seventeen_bounds
    (show (-exponent).toNat + places = exponent.toNat + 16 + 324 by omega) hlower hupper
  obtain ⟨n, hn, hbelow, habove⟩ :=
    exists_near (Binary64.units code * 10 ^ (-exponent).toNat) hden
  refine ⟨n, hn, ?_⟩
  -- The quotient on the grid has seventeen digits, so its successor has at most eighteen.
  have hqlow : 10 ^ 16 ≤ n := by
    have hle := (Nat.le_div_iff_mul_le hden).2 hlow
    rcases hn with rfl | rfl
    · exact hle
    · exact Nat.le_succ_of_le hle
  have hqhigh : n ≤ 10 ^ 17 := by
    have hlt := (Nat.div_lt_iff_lt_mul hden).2 hhigh
    rcases hn with rfl | rfl
    · exact hlt.le
    · exact hlt
  have hcount := digitCount_of_seventeen hqlow hqhigh
  have hplace : -330 ≤ (⟨n, exponent⟩ : Decimal).point
      ∧ (⟨n, exponent⟩ : Decimal).point ≤ 330 := by
    unfold point
    dsimp only
    omega
  exact nearestCode_of_close (by omega) hplace.1 hplace.2 hcode hlow hbelow habove

/-! ## The search -/

/-- What is found on a grid reads back. -/
theorem nearestCode_of_onGrid? {code : Nat} {exponent : Int} {d : Decimal}
    (h : onGrid? code exponent = some d) : d.nearestCode = code := by
  unfold onGrid? at h
  dsimp only at h
  split at h
  · next hbelow habove =>
    have heq := Option.some.inj h
    split at heq
    · exact heq ▸ eq_of_beq hbelow
    · exact heq ▸ eq_of_beq habove
  · next hbelow _ => exact Option.some.inj h ▸ eq_of_beq hbelow
  · next _ habove => exact Option.some.inj h ▸ eq_of_beq habove
  · exact absurd h (by simp)

/-- Where a decimal next to the number reads back, something is found on the grid. -/
theorem onGrid?_ne_none {code n : Nat} {exponent : Int}
    (hn : n = Binary64.units code * 10 ^ (-exponent).toNat
        / (Binary64.unitsPerOne * 10 ^ exponent.toNat)
      ∨ n = Binary64.units code * 10 ^ (-exponent).toNat
        / (Binary64.unitsPerOne * 10 ^ exponent.toNat) + 1)
    (h : (⟨n, exponent⟩ : Decimal).nearestCode = code) : onGrid? code exponent ≠ none := by
  unfold onGrid?
  dsimp only
  simp only [natPow_eq]
  have hback := beq_iff_eq.2 h
  intro hnone
  split at hnone
  · exact Option.some_ne_none _ hnone
  · exact Option.some_ne_none _ hnone
  · exact Option.some_ne_none _ hnone
  · next hbelow habove =>
    rcases hn with rfl | rfl
    · exact Bool.false_ne_true (hbelow.symm.trans hback)
    · exact Bool.false_ne_true (habove.symm.trans hback)

/-- **The shortest decimal reads back.** -/
theorem nearestCode_shortest {code : Nat} (hpos : 0 < code)
    (hcode : code < Binary64.infinityCode) : (shortest code).nearestCode = code := by
  obtain ⟨n, hn, hback⟩ := exists_seventeen hpos hcode rfl
  have hfound : ((List.range' 1 17).findSome? fun (digits : Nat) =>
      onGrid? code (pointOfCode code - digits)) ≠ none := by
    rw [Ne, List.findSome?_eq_none_iff]
    intro h
    exact onGrid?_ne_none hn hback (h 17 (by decide))
  -- What is found, with however few digits, reads back since no other decimal is answered with.
  obtain ⟨d, hd⟩ := Option.ne_none_iff_exists'.1 hfound
  obtain ⟨digits, -, hgrid⟩ := List.exists_of_findSome?_eq_some hd
  unfold shortest
  dsimp only
  rw [hd, Option.getD_some]
  exact nearestCode_of_onGrid? hgrid

theorem digits_shortest_ne_zero {code : Nat} (hpos : 0 < code)
    (hcode : code < Binary64.infinityCode) : (shortest code).digits ≠ 0 := by
  intro h
  have hback := nearestCode_shortest hpos hcode
  rw [nearestCode, if_pos (Or.inl h)] at hback
  omega

end Decimal

end Playground
