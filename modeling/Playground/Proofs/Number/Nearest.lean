/-
# Nearest numbers

Every finite number is a rational, and so it can be said without any algorithm which number is nearest
to a given one: no finite number is closer, and of two equally close ones the even one is taken.  From
halfway between the largest finite number and the power of two behind it, infinity is nearest.  A
magnitude that is rounded keeps its sign, also where it is rounded to zero.

* `Binary64.isNearest_iff` : what rounding answers with is the nearest number, and the only one.
* `Decimal.isNearest_iff` : the number that a decimal is read as is the nearest one.
* `Decimal.nearestCode_mono` : a larger decimal is read as no smaller number.
-/
import Mathlib.Algebra.Order.Field.Power
import Playground.Proofs.Number.Midpoints
import Playground.Proofs.Number.Numerals

namespace Playground

namespace Binary64

/-! ## Numbers as rationals -/

/-- A magnitude with its sign. -/
def signed (negative : Bool) (q : ℚ) : ℚ := if negative then -q else q

/-- The magnitude that a finite code stands for. -/
def magnitude (code : Nat) : ℚ := units code / 2 ^ 1074

/-- A finite number as a rational. -/
def toRat? (x : Binary64) : Option ℚ :=
  match x.meaning with
  | .finite negative units => some (signed negative (units / 2 ^ 1074))
  | _ => none

/-- The least magnitude to which infinity is nearest, halfway between the largest finite number and
the power of two behind it. -/
def overflowBound : ℚ := 2 ^ 1024 - 2 ^ 970

/-- The number `x` is nearest to the magnitude `q` with a sign. -/
structure IsNearest (negative : Bool) (q : ℚ) (x : Binary64) : Prop where
  /-- The sign stays. -/
  sign : x.isNegative = negative
  /-- What is too large is infinite. -/
  overflow : overflowBound ≤ q → x = infinity negative
  /-- Otherwise the number is finite, no other one is closer, and one that is as close is odd. -/
  closest : q < overflowBound → ∃ v, x.toRat? = some v ∧ ∀ (y : Binary64) w, y.toRat? = some w →
    |signed negative q - v| ≤ |signed negative q - w|
      ∧ (|signed negative q - v| = |signed negative q - w| → w ≠ v → x.code % 2 = 0)

theorem toRat?_eq_some_iff {x : Binary64} {v : ℚ} :
    x.toRat? = some v ↔ x.code < infinityCode ∧ v = signed x.isNegative (magnitude x.code) := by
  unfold toRat? meaning
  split_ifs with hfinite hinfinite
  · simp only [Option.some_inj, hfinite, true_and]
    exact eq_comm
  · simp [hfinite]
  · simp [hfinite]

theorem isNegative_ofCode (negative : Bool) {code : Nat} (h : code < signBit) :
    (ofCode negative code).isNegative = negative := by
  have hsign : signBit = 2 ^ 63 := by decide
  unfold ofCode isNegative
  dsimp only
  rw [UInt64.toNat_ofNat', hsign]
  cases negative with
  | true =>
    rw [if_pos rfl]
    exact decide_eq_true (by omega)
  | false =>
    rw [if_neg Bool.false_ne_true]
    exact decide_eq_false (by omega)

theorem lt_signBit {code : Nat} (h : code ≤ infinityCode) : code < signBit :=
  lt_of_le_of_lt h (by decide)

theorem toRat?_ofCode (negative : Bool) {code : Nat} (h : code < infinityCode) :
    (ofCode negative code).toRat? = some (signed negative (magnitude code)) := by
  have hsign := lt_signBit h.le
  rw [toRat?_eq_some_iff, code_ofCode negative hsign, isNegative_ofCode negative hsign]
  exact ⟨h, rfl⟩

/-! ## Distances -/

/-- The smaller of two rationals is at least as close to what does not lie beyond their midpoint. -/
theorem abs_sub_le_abs_sub_iff {r a b : ℚ} (h : a < b) : |r - a| ≤ |r - b| ↔ 2 * r ≤ a + b := by
  rw [← sq_le_sq]
  constructor
  · intro hle
    nlinarith
  · intro hle
    nlinarith

/-- The larger of two rationals is at least as close to what does not lie in front of their
midpoint. -/
theorem abs_sub_le_abs_sub_iff' {r a b : ℚ} (h : a < b) : |r - b| ≤ |r - a| ↔ a + b ≤ 2 * r := by
  -- Below zero the larger one is the smaller one.
  have hmirror := abs_sub_le_abs_sub_iff (r := -r) (neg_lt_neg h)
  rw [neg_sub_neg, neg_sub_neg, abs_sub_comm b, abs_sub_comm a] at hmirror
  rw [hmirror]
  constructor <;> intro hle <;> linarith

theorem signed_sub (negative : Bool) (q a : ℚ) :
    |signed negative q - signed negative a| = |q - a| := by
  unfold signed
  cases negative
  · rfl
  · rw [if_pos rfl, if_pos rfl, neg_sub_neg, abs_sub_comm]

/-- A number with the other sign is as far away as both magnitudes together. -/
theorem signed_sub_not (negative : Bool) {q a : ℚ} (hq : 0 ≤ q) (ha : 0 ≤ a) :
    |signed negative q - signed (!negative) a| = q + a := by
  have hpos : |q + a| = q + a := abs_of_nonneg (add_nonneg hq ha)
  unfold signed
  cases negative
  · rw [if_neg Bool.false_ne_true, Bool.not_false, if_pos rfl, sub_neg_eq_add, hpos]
  · rw [if_pos rfl, Bool.not_true, if_neg Bool.false_ne_true, ← neg_add', abs_neg, hpos]

/-- So it is no closer than its own magnitude. -/
theorem abs_sub_le_signed_sub (negative negative' : Bool) {q a : ℚ} (hq : 0 ≤ q) (ha : 0 ≤ a) :
    |q - a| ≤ |signed negative q - signed negative' a| := by
  rcases Bool.eq_or_eq_not negative' negative with rfl | rfl
  · exact (signed_sub negative' q a).ge
  · rw [signed_sub_not negative hq ha, abs_le]
    constructor <;> linarith

theorem magnitude_lt_iff {a b : Nat} : magnitude a < magnitude b ↔ a < b := by
  unfold magnitude
  rw [div_lt_div_iff_of_pos_right (by positivity), Nat.cast_lt]
  refine ⟨fun h => ?_, units_lt_units⟩
  by_contra hle
  exact absurd (units_le_units (not_lt.1 hle)) (not_le.2 h)

theorem magnitude_nonneg (code : Nat) : 0 ≤ magnitude code := by
  unfold magnitude
  positivity

theorem magnitude_zero : magnitude 0 = 0 := by
  unfold magnitude
  rw [show units 0 = 0 from rfl, Nat.cast_zero, zero_div]

theorem magnitude_inj {a b : Nat} (h : magnitude a = magnitude b) : a = b := by
  rcases lt_trichotomy a b with hlt | heq | hgt
  · exact absurd h (magnitude_lt_iff.2 hlt).ne
  · exact heq
  · exact absurd h (magnitude_lt_iff.2 hgt).ne'

/-! ## Rounding as a choice of the closest -/

section Fraction

variable {num den : Nat}

/-- The magnitude of a fraction of units. -/
def ofUnits (num den : Nat) : ℚ := num / (den * 2 ^ 1074)

theorem magnitude_eq_ofUnits (code : Nat) : magnitude code = ofUnits (units code) 1 := by
  rw [magnitude, ofUnits, Nat.cast_one, one_mul]

/-- Of two fractions the smaller one is found with whole numbers. -/
theorem ofUnits_le_iff {num' den' : Nat} (hden : 0 < den) (hden' : 0 < den') :
    ofUnits num den ≤ ofUnits num' den' ↔ num * den' ≤ num' * den := by
  have hone : (0 : ℚ) < 2 ^ 1074 := by positivity
  have hpos : (0 : ℚ) < den := Nat.cast_pos.2 hden
  have hpos' : (0 : ℚ) < den' := Nat.cast_pos.2 hden'
  unfold ofUnits
  generalize (2 : ℚ) ^ 1074 = one at hone
  rw [div_le_div_iff₀ (by positivity) (by positivity), ← mul_assoc, ← mul_assoc,
    mul_le_mul_iff_left₀ hone]
  exact_mod_cast Iff.rfl

theorem ofUnits_nonneg (num den : Nat) : 0 ≤ ofUnits num den := by
  unfold ofUnits
  positivity

theorem two_mul_ofUnits (num den : Nat) : 2 * ofUnits num den = ofUnits (2 * num) den := by
  rw [ofUnits, ofUnits, ← mul_div_assoc, Nat.cast_mul, Nat.cast_two]

theorem magnitude_add_magnitude (a b : Nat) :
    magnitude a + magnitude b = ofUnits (units a + units b) 1 := by
  rw [magnitude, magnitude, ofUnits, ← add_div, Nat.cast_add, Nat.cast_one, one_mul]

/-- A fraction below a midpoint, in units and as magnitudes. -/
theorem two_mul_ofUnits_le_iff (hden : 0 < den) {a b : Nat} :
    2 * ofUnits num den ≤ magnitude a + magnitude b ↔ 2 * num ≤ (units a + units b) * den := by
  rw [two_mul_ofUnits, magnitude_add_magnitude, ofUnits_le_iff hden Nat.one_pos, Nat.mul_one]

/-- And one above it. -/
theorem le_two_mul_ofUnits_iff (hden : 0 < den) {a b : Nat} :
    magnitude a + magnitude b ≤ 2 * ofUnits num den ↔ (units a + units b) * den ≤ 2 * num := by
  rw [two_mul_ofUnits, magnitude_add_magnitude, ofUnits_le_iff Nat.one_pos hden, Nat.mul_one]

/-- The bound of the finite numbers is the midpoint below infinity. -/
theorem overflowBound_eq :
    2 * overflowBound = magnitude (infinityCode - 1) + magnitude infinityCode := by
  have hlast : units (infinityCode - 1) = (2 ^ 53 - 1) * 2 ^ 2045 := by decide +kernel
  have hinfinity : units infinityCode = 2 ^ 53 * 2 ^ 2045 := by decide +kernel
  have hpow : (2 : ℚ) ^ 2045 = 2 ^ 971 * 2 ^ 1074 := by rw [← pow_add]
  have hpow' : (2 : ℚ) ^ 1024 = 2 ^ 54 * 2 ^ 970 := by rw [← pow_add]
  have htwo : (2 : ℚ) ^ 971 = 2 * 2 ^ 970 := by rw [← pow_succ']
  have hone : (2 : ℚ) ^ 1074 ≠ 0 := by positivity
  unfold overflowBound magnitude
  rw [hlast, hinfinity, hpow']
  simp only [Nat.cast_mul, Nat.cast_pow, Nat.cast_ofNat]
  rw [hpow, ← mul_assoc, ← mul_assoc, mul_div_cancel_right₀ _ hone, mul_div_cancel_right₀ _ hone,
    htwo]
  generalize (2 : ℚ) ^ 970 = step
  push_cast
  ring

theorem infinityCode_pos : 0 < infinityCode := by decide

theorem overflowBound_le_ofUnits_iff (hden : 0 < den) :
    overflowBound ≤ ofUnits num den ↔ twiceMidpoint (infinityCode - 1) * den ≤ 2 * num := by
  rw [← mul_le_mul_iff_right₀ (show (0 : ℚ) < 2 by norm_num), overflowBound_eq,
    le_two_mul_ofUnits_iff hden, twiceMidpoint, Nat.sub_add_cancel infinityCode_pos]

/-- A fraction is rounded to infinity just if it reaches the bound. -/
theorem nearestCode_eq_infinityCode_iff (hden : 0 < den) :
    nearestCode num den = infinityCode ↔ overflowBound ≤ ofUnits num den := by
  have hlast : infinityCode - 1 + 1 = infinityCode := Nat.sub_add_cancel infinityCode_pos
  rw [nearestCode_eq_iff hden, overflowBound_le_ofUnits_iff hden]
  constructor
  · rintro ⟨-, hbetween⟩
    exact (hbetween.above _ hlast).1
  · intro hle
    refine ⟨le_rfl, fun c hc => ?_, fun h => absurd h (lt_irrefl _)⟩
    obtain rfl : c = infinityCode - 1 := by omega
    exact ⟨hle, fun _ => by decide⟩

theorem nearestCode_lt_iff (hden : 0 < den) :
    nearestCode num den < infinityCode ↔ ofUnits num den < overflowBound := by
  rw [← not_le (a := overflowBound), ← nearestCode_eq_infinityCode_iff hden]
  exact ⟨fun h => h.ne, lt_of_le_of_ne (nearestCode_le num den)⟩

/-- Between its midpoints a code is closest. -/
theorem closest_of_between (hden : 0 < den) {code : Nat} (h : Between num den code)
    {c : Nat} (hcode : code < infinityCode) :
    |ofUnits num den - magnitude code| ≤ |ofUnits num den - magnitude c|
      ∧ (|ofUnits num den - magnitude code| = |ofUnits num den - magnitude c| →
        c ≠ code → code % 2 = 0) := by
  rcases lt_trichotomy c code with hlt | rfl | hgt
  · obtain ⟨p, rfl⟩ := Nat.exists_eq_add_one_of_ne_zero (show code ≠ 0 by omega)
    obtain ⟨habove, heven⟩ := h.above p rfl
    have hmid : (units c + units (p + 1)) * den ≤ twiceMidpoint p * den :=
      Nat.mul_le_mul_right _ (Nat.add_le_add_right (units_le_units (by omega)) _)
    refine ⟨(abs_sub_le_abs_sub_iff' (magnitude_lt_iff.2 hlt)).2
      ((le_two_mul_ofUnits_iff hden).2 (hmid.trans habove)), fun heq _ => heven ?_⟩
    have hback := (two_mul_ofUnits_le_iff hden).1
      ((abs_sub_le_abs_sub_iff (magnitude_lt_iff.2 hlt)).1 heq.ge)
    omega
  · exact ⟨le_rfl, fun _ hne => absurd rfl hne⟩
  · obtain ⟨hbelow, heven⟩ := h.below hcode
    have hmid : twiceMidpoint code * den ≤ (units code + units c) * den :=
      Nat.mul_le_mul_right _ (Nat.add_le_add_left (units_le_units hgt) _)
    refine ⟨(abs_sub_le_abs_sub_iff (magnitude_lt_iff.2 hgt)).2
      ((two_mul_ofUnits_le_iff hden).2 (hbelow.trans hmid)), fun heq _ => heven ?_⟩
    have hback := (le_two_mul_ofUnits_iff hden).1
      ((abs_sub_le_abs_sub_iff' (magnitude_lt_iff.2 hgt)).1 heq.ge)
    omega

/-- The closest code lies between its midpoints. -/
theorem between_of_closest (hden : 0 < den) {code : Nat}
    (hbound : ofUnits num den < overflowBound)
    (h : ∀ c < infinityCode, |ofUnits num den - magnitude code| ≤ |ofUnits num den - magnitude c|
      ∧ (|ofUnits num den - magnitude code| = |ofUnits num den - magnitude c| →
        c ≠ code → code % 2 = 0))
    (hcode : code < infinityCode) : Between num den code := by
  constructor
  · rintro c rfl
    have hlt := magnitude_lt_iff.2 (Nat.lt_add_one c)
    obtain ⟨hle, heven⟩ := h c (by omega)
    refine ⟨(le_two_mul_ofUnits_iff hden).1 ((abs_sub_le_abs_sub_iff' hlt).1 hle), fun heq => ?_⟩
    have hback := (abs_sub_le_abs_sub_iff hlt).2 ((two_mul_ofUnits_le_iff hden).2 heq.ge)
    exact heven (le_antisymm hle hback) (by omega)
  · intro _
    have hlt := magnitude_lt_iff.2 (Nat.lt_add_one code)
    by_cases hlast : code + 1 < infinityCode
    · obtain ⟨hle, heven⟩ := h (code + 1) hlast
      refine ⟨(two_mul_ofUnits_le_iff hden).1 ((abs_sub_le_abs_sub_iff hlt).1 hle), fun heq => ?_⟩
      have hback := (abs_sub_le_abs_sub_iff' hlt).2 ((le_two_mul_ofUnits_iff hden).2 heq.ge)
      exact heven (le_antisymm hle hback) (by omega)
    · -- Behind the largest finite number the bound is the midpoint.
      obtain rfl : code = infinityCode - 1 := by omega
      have hmid : 2 * num < twiceMidpoint (infinityCode - 1) * den :=
        not_le.1 (mt (overflowBound_le_ofUnits_iff hden).2 (not_le.2 hbound))
      exact ⟨hmid.le, fun heq => absurd heq hmid.ne⟩

/-- What rounding answers with is nearest. -/
theorem isNearest_nearestCode (num : Nat) (hden : 0 < den) (negative : Bool) :
    IsNearest negative (ofUnits num den) (ofCode negative (nearestCode num den)) := by
  have hsignBit := lt_signBit (nearestCode_le num den)
  have hq := ofUnits_nonneg num den
  refine ⟨isNegative_ofCode negative hsignBit, fun hlarge => ?_, fun hsmall => ?_⟩
  · rw [(nearestCode_eq_infinityCode_iff hden).2 hlarge, infinity]
  · have hfinite := (nearestCode_lt_iff hden).2 hsmall
    have hall := fun c => closest_of_between hden (between_nearestCode num hden) (c := c) hfinite
    refine ⟨_, toRat?_ofCode negative hfinite, fun y w hw => ?_⟩
    obtain ⟨hy, rfl⟩ := toRat?_eq_some_iff.1 hw
    obtain ⟨hclose, heven⟩ := hall y.code
    have ha := magnitude_nonneg y.code
    have hsigned := abs_sub_le_signed_sub negative y.isNegative hq ha
    rw [signed_sub, code_ofCode negative hsignBit]
    refine ⟨hclose.trans hsigned, fun heq hne => ?_⟩
    by_cases hcode : y.code = nearestCode num den
    · -- The same magnitude with the other sign is as close for zero alone, which is even.
      rcases Bool.eq_or_eq_not y.isNegative negative with hneg | hneg
      · rw [hneg, hcode] at hne
        exact absurd rfl hne
      · have hzero := (hall 0).1
        rw [← hcode, hneg, signed_sub_not negative hq ha] at heq
        rw [← hcode, heq, magnitude_zero, sub_zero, abs_of_nonneg hq] at hzero
        have hcode' : y.code = 0 := magnitude_inj (by rw [magnitude_zero]; linarith)
        rw [← hcode, hcode']
    · exact heven (le_antisymm hclose (hsigned.trans heq.ge)) hcode

/-- What is nearest is what rounding answers with. -/
theorem IsNearest.eq_ofCode {negative : Bool} {x : Binary64}
    (h : IsNearest negative (ofUnits num den) x) (hden : 0 < den) :
    x = ofCode negative (nearestCode num den) := by
  obtain ⟨hsign, hoverflow, hclosest⟩ := h
  rcases le_or_gt overflowBound (ofUnits num den) with hlarge | hsmall
  · rw [hoverflow hlarge, infinity, (nearestCode_eq_infinityCode_iff hden).2 hlarge]
  · obtain ⟨v, hv, hall⟩ := hclosest hsmall
    obtain ⟨hfinite, rfl⟩ := toRat?_eq_some_iff.1 hv
    rw [hsign] at hall
    -- The other magnitudes are taken with the same sign.
    have hbetween : Between num den x.code := by
      refine between_of_closest hden hsmall (fun c hc => ?_) hfinite
      obtain ⟨hclose, heven⟩ := hall _ _ (toRat?_ofCode negative hc)
      rw [signed_sub, signed_sub] at hclose heven
      refine ⟨hclose, fun heq hne => heven heq fun hsame => hne ?_⟩
      unfold signed at hsame
      cases negative
      · exact magnitude_inj hsame
      · exact magnitude_inj (neg_injective hsame)
    rw [(nearestCode_eq_iff hden).2 ⟨hfinite.le, hbetween⟩, ← hsign, ofCode_isNegative_code]

/-- **Rounding answers with the nearest number**, and no other number is nearest. -/
theorem isNearest_iff (hden : 0 < den) {negative : Bool} {x : Binary64} :
    IsNearest negative (ofUnits num den) x ↔ x = ofCode negative (nearestCode num den) := by
  refine ⟨fun h => h.eq_ofCode hden, ?_⟩
  rintro rfl
  exact isNearest_nearestCode num hden negative

end Fraction

end Binary64

namespace Decimal

/-! ## Decimals -/

/-- The rational that a decimal is. -/
def toRat (d : Decimal) : ℚ := d.digits * 10 ^ d.exponent

theorem cast_natPow_two (n : Nat) : ((Nat.pow 2 n : Nat) : ℚ) = 2 ^ n := by
  rw [natPow_eq, Nat.cast_pow, Nat.cast_ofNat]

theorem unitsPerOne_cast : (Binary64.unitsPerOne : ℚ) = 2 ^ 1074 := by
  unfold Binary64.unitsPerOne
  generalize 1074 = n
  exact cast_natPow_two n

/-- The count of units in a decimal, and what it is divided by. -/
def fraction (d : Decimal) : Nat × Nat :=
  (d.digits * 10 ^ d.exponent.toNat * Binary64.unitsPerOne, 10 ^ (-d.exponent).toNat)

theorem fraction_pos (d : Decimal) : 0 < d.fraction.2 := pow_pos (by decide) _

/-- A decimal is its fraction of units. -/
theorem toRat_eq (d : Decimal) : d.toRat = Binary64.ofUnits d.fraction.1 d.fraction.2 := by
  have hpow : (10 : ℚ) ^ d.exponent * 10 ^ (-d.exponent).toNat = 10 ^ d.exponent.toNat := by
    rw [← zpow_natCast, ← zpow_natCast, ← zpow_add₀ (by norm_num)]
    congr 1
    omega
  unfold toRat Binary64.ofUnits fraction
  push_cast
  rw [unitsPerOne_cast, mul_div_mul_right _ _ (by positivity), eq_div_iff (by positivity), mul_assoc,
    hpow]

/-- A decimal that lies below the range of the format is rounded to zero. -/
theorem between_zero {d : Decimal} (h : d.digits = 0 ∨ d.point < -330) :
    Binary64.Between d.fraction.1 d.fraction.2 0 := by
  refine ⟨fun c hc => absurd hc (Nat.succ_ne_zero c), fun _ => ?_⟩
  have hmid : Binary64.twiceMidpoint 0 = 1 := rfl
  suffices hlt : 2 * d.fraction.1 < d.fraction.2 by
    rw [hmid, Nat.one_mul]
    exact ⟨hlt.le, fun heq => absurd heq hlt.ne⟩
  unfold fraction
  dsimp only
  rcases h with hzero | hlow
  · rw [hzero, Nat.zero_mul, Nat.zero_mul, Nat.mul_zero]
    exact pow_pos (by decide) _
  · unfold point at hlow
    have hdigits := lt_pow_digitCount d.digits
    have hunits : 2 * Binary64.unitsPerOne ≤ 10 ^ 330 := by decide +kernel
    have hsplit : (-d.exponent).toNat
        = digitCount d.digits + (330 + ((-d.exponent).toNat - digitCount d.digits - 330)) := by omega
    have hone : 1 ≤ 10 ^ ((-d.exponent).toNat - digitCount d.digits - 330) :=
      Nat.one_le_pow _ _ (by decide)
    rw [show d.exponent.toNat = 0 by omega, pow_zero, Nat.mul_one, hsplit, pow_add, pow_add]
    calc 2 * (d.digits * Binary64.unitsPerOne) = d.digits * (2 * Binary64.unitsPerOne) := by ring
      _ ≤ d.digits * 10 ^ 330 := Nat.mul_le_mul_left _ hunits
      _ < 10 ^ digitCount d.digits * 10 ^ 330 :=
          Nat.mul_lt_mul_of_pos_right hdigits (pow_pos (by decide) _)
      _ ≤ 10 ^ digitCount d.digits
          * (10 ^ 330 * 10 ^ ((-d.exponent).toNat - digitCount d.digits - 330)) :=
          Nat.mul_le_mul_left _ (Nat.le_mul_of_pos_right _ hone)

/-- A decimal that lies above the range of the format is rounded to infinity. -/
theorem between_infinity {d : Decimal} (hd : d.digits ≠ 0) (h : 330 < d.point) :
    Binary64.Between d.fraction.1 d.fraction.2 Binary64.infinityCode := by
  refine ⟨fun c hc => ?_, fun h => absurd h (lt_irrefl _)⟩
  suffices hlt : Binary64.twiceMidpoint c * d.fraction.2 < 2 * d.fraction.1 from
    ⟨hlt.le, fun heq => absurd heq hlt.ne⟩
  have hmid : Binary64.twiceMidpoint c < 2 * Binary64.units Binary64.infinityCode := by
    have hlt := Binary64.units_lt_units (Nat.lt_add_one c)
    unfold Binary64.twiceMidpoint
    rw [hc] at hlt ⊢
    omega
  have hunits : Binary64.units Binary64.infinityCode ≤ 10 ^ 330 * Binary64.unitsPerOne := by
    decide +kernel
  have hdigits := pow_le_of_digitCount (Nat.pos_of_ne_zero hd)
  have hcount := digitCount_pos d.digits
  unfold point at h
  have hpow : 10 ^ 330 * 10 ^ (-d.exponent).toNat
      ≤ 10 ^ (digitCount d.digits - 1) * 10 ^ d.exponent.toNat := by
    rw [← pow_add, ← pow_add]
    exact Nat.pow_le_pow_right (by decide) (by omega)
  have hswap : ∀ a b c : Nat, 2 * (a * b) * c = 2 * (a * c * b) := fun a b c => by ring
  unfold fraction
  dsimp only
  calc Binary64.twiceMidpoint c * 10 ^ (-d.exponent).toNat
      < 2 * Binary64.units Binary64.infinityCode * 10 ^ (-d.exponent).toNat :=
        Nat.mul_lt_mul_of_pos_right hmid (pow_pos (by decide) _)
    _ ≤ 2 * (10 ^ 330 * Binary64.unitsPerOne) * 10 ^ (-d.exponent).toNat :=
        Nat.mul_le_mul_right _ (Nat.mul_le_mul_left _ hunits)
    _ = 2 * (10 ^ 330 * 10 ^ (-d.exponent).toNat * Binary64.unitsPerOne) := hswap _ _ _
    _ ≤ 2 * (10 ^ (digitCount d.digits - 1) * 10 ^ d.exponent.toNat * Binary64.unitsPerOne) :=
        Nat.mul_le_mul_left _ (Nat.mul_le_mul_right _ hpow)
    _ ≤ 2 * (d.digits * 10 ^ d.exponent.toNat * Binary64.unitsPerOne) :=
        Nat.mul_le_mul_left _ (Nat.mul_le_mul_right _ (Nat.mul_le_mul_right _ hdigits))

/-- Also out of the range of the format a decimal is rounded as the fraction that it is. -/
theorem nearestCode_eq_fraction (d : Decimal) :
    d.nearestCode = Binary64.nearestCode d.fraction.1 d.fraction.2 := by
  by_cases hzero : d.digits = 0 ∨ d.point < -330
  · rw [(Binary64.nearestCode_eq_iff d.fraction_pos).2 ⟨Nat.zero_le _, between_zero hzero⟩]
    exact if_pos hzero
  · rw [not_or, not_lt] at hzero
    rcases lt_or_ge 330 d.point with hhigh | hhigh
    · rw [(Binary64.nearestCode_eq_iff d.fraction_pos).2 ⟨le_rfl, between_infinity hzero.1 hhigh⟩]
      unfold nearestCode
      rw [if_neg (by omega), if_pos hhigh]
    · exact nearestCode_eq hzero.1 hzero.2 hhigh

/-- **A decimal is read as the nearest number**, and no other number is nearest. -/
theorem isNearest_iff {d : Decimal} {negative : Bool} {x : Binary64} :
    Binary64.IsNearest negative d.toRat x ↔ x = nearest negative d := by
  rw [toRat_eq, Binary64.isNearest_iff d.fraction_pos, nearest, nearestCode_eq_fraction]

/-- **A larger decimal** is read as no smaller number. -/
theorem nearestCode_mono {d e : Decimal} (h : d.toRat ≤ e.toRat) : d.nearestCode ≤ e.nearestCode := by
  rw [toRat_eq, toRat_eq, Binary64.ofUnits_le_iff d.fraction_pos e.fraction_pos] at h
  rw [nearestCode_eq_fraction, nearestCode_eq_fraction]
  exact Binary64.nearestCode_mono d.fraction_pos e.fraction_pos h

end Decimal

end Playground
