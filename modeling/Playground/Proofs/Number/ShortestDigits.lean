/-
# The shortest digits

A number is written with the least count of digits for which some decimal reads back as it, and of the
decimals of that count with the closest one; of two equally close ones the larger is taken.  This is said
of all decimals here, not only of those on the grids that are searched: a decimal of few digits that reads
back has one on a grid of as few digits beside it, which lies at least as close.

* `Decimal.isShortest_shortest` : what is found is shortest, and closest.
* `Binary64.toTextByRange_eq` : to choose the layout by the place of the point and by the size of the
  number comes to the same.
* `Binary64.toText_shortest` : how a number is written, by its shortest digits.
-/
import Playground.Proofs.Number.Nearest
import Playground.Proofs.Text.Occurrence

namespace Playground

namespace Decimal

open Binary64

/-! ## Shortest decimals -/

/-- The decimal `d` reads back as `x`, apart from its sign. -/
def ReadsAs (d : Decimal) (x : Binary64) : Prop := IsNearest x.isNegative d.toRat x

/-- No decimal of fewer digits reads back as `x`, and none of as many is closer. -/
structure IsShortest (d : Decimal) (x : Binary64) : Prop where
  /-- It reads back. -/
  reads : d.ReadsAs x
  /-- No other one that reads back has fewer digits. -/
  least : ∀ e : Decimal, e.ReadsAs x → digitCount d.digits ≤ digitCount e.digits
  /-- And none with as many digits is closer. -/
  closest : ∀ e : Decimal, e.ReadsAs x → digitCount e.digits = digitCount d.digits →
    |d.toRat - magnitude x.code| ≤ |e.toRat - magnitude x.code|

theorem readsAs_iff {d : Decimal} {x : Binary64} : d.ReadsAs x ↔ d.nearestCode = x.code := by
  rw [ReadsAs, isNearest_iff, nearest]
  constructor
  · intro h
    have hcode := congrArg code h
    rw [code_ofCode _ (lt_signBit d.nearestCode_le)] at hcode
    exact hcode.symm
  · intro h
    rw [h, ofCode_isNegative_code]

/-! ## Decimals beside a number -/

section Code

variable {code : Nat}

theorem nearestCode_le_of_le {d : Decimal} (hcode : code < infinityCode)
    (h : d.toRat ≤ magnitude code) : d.nearestCode ≤ code := by
  rw [toRat_eq, magnitude_eq_ofUnits, ofUnits_le_iff d.fraction_pos Nat.one_pos] at h
  rw [nearestCode_eq_fraction, ← nearestCode_units hcode]
  exact Binary64.nearestCode_mono d.fraction_pos Nat.one_pos h

theorem le_nearestCode_of_le {d : Decimal} (hcode : code < infinityCode)
    (h : magnitude code ≤ d.toRat) : code ≤ d.nearestCode := by
  rw [toRat_eq, magnitude_eq_ofUnits, ofUnits_le_iff Nat.one_pos d.fraction_pos] at h
  rw [nearestCode_eq_fraction, ← nearestCode_units hcode]
  exact Binary64.nearestCode_mono Nat.one_pos d.fraction_pos h

/-- The rational `a` lies between `b` and `q`, on either side of `q`. -/
def Beside (q a b : ℚ) : Prop := b ≤ a ∧ a ≤ q ∨ q ≤ a ∧ a ≤ b

theorem Beside.abs_sub_le {q a b : ℚ} (h : Beside q a b) : |a - q| ≤ |b - q| := by
  rcases h with ⟨hlow, hhigh⟩ | ⟨hlow, hhigh⟩
  · rw [abs_of_nonpos (by linarith), abs_of_nonpos (by linarith)]
    linarith
  · rw [abs_of_nonneg (by linarith), abs_of_nonneg (by linarith)]
    linarith

/-- What lies beside something and is as far away is the same. -/
theorem Beside.eq_of_abs_eq {q a b : ℚ} (h : Beside q a b) (heq : |a - q| = |b - q|) : a = b := by
  rcases h with ⟨hlow, hhigh⟩ | ⟨hlow, hhigh⟩
  · rw [abs_of_nonpos (by linarith), abs_of_nonpos (by linarith)] at heq
    linarith
  · rw [abs_of_nonneg (by linarith), abs_of_nonneg (by linarith)] at heq
    linarith

/-- What lies between a number and a decimal that reads back reads back too. -/
theorem nearestCode_of_beside {d e : Decimal} (hcode : code < infinityCode)
    (hd : d.nearestCode = code) (h : Beside (magnitude code) e.toRat d.toRat) :
    e.nearestCode = code := by
  rcases h with ⟨hlow, hhigh⟩ | ⟨hlow, hhigh⟩
  · exact le_antisymm (nearestCode_le_of_le hcode hhigh) (hd ▸ nearestCode_mono hlow)
  · exact le_antisymm (hd ▸ nearestCode_mono hhigh) (le_nearestCode_of_le hcode hlow)

/-! ## The grid around a number -/

/-- The number of steps of the grid up to the number. -/
def gridFloor (code : Nat) (exponent : Int) : Nat :=
  units code * 10 ^ (-exponent).toNat / (unitsPerOne * 10 ^ exponent.toNat)

theorem toRat_le_ofUnits_iff {n a : Nat} {exponent : Int} :
    (⟨n, exponent⟩ : Decimal).toRat ≤ ofUnits a 1
      ↔ n * (unitsPerOne * 10 ^ exponent.toNat) ≤ a * 10 ^ (-exponent).toNat := by
  rw [toRat_eq, ofUnits_le_iff (fraction_pos _) Nat.one_pos, fraction, Nat.mul_one, Nat.mul_assoc,
    Nat.mul_comm unitsPerOne]

/-- The steps up to the number are counted right. -/
theorem toRat_le_magnitude_iff {n : Nat} {exponent : Int} :
    (⟨n, exponent⟩ : Decimal).toRat ≤ magnitude code ↔ n ≤ gridFloor code exponent := by
  have hden : 0 < unitsPerOne * 10 ^ exponent.toNat :=
    Nat.mul_pos unitsPerOne_pos (pow_pos (by decide) _)
  rw [magnitude_eq_ofUnits, toRat_le_ofUnits_iff, gridFloor, Nat.le_div_iff_mul_le hden]

theorem toRat_le_toRat {m n : Nat} (h : m ≤ n) (exponent : Int) :
    (⟨m, exponent⟩ : Decimal).toRat ≤ (⟨n, exponent⟩ : Decimal).toRat :=
  mul_le_mul_of_nonneg_right (Nat.cast_le.2 h) (zpow_nonneg (by norm_num) _)

/-- One of the two decimals around the number lies beside any decimal on the grid. -/
theorem beside_grid (code m : Nat) (exponent : Int) :
    m ≤ gridFloor code exponent ∧ Beside (magnitude code)
        (⟨gridFloor code exponent, exponent⟩ : Decimal).toRat (⟨m, exponent⟩ : Decimal).toRat
      ∨ gridFloor code exponent + 1 ≤ m ∧ Beside (magnitude code)
        (⟨gridFloor code exponent + 1, exponent⟩ : Decimal).toRat
        (⟨m, exponent⟩ : Decimal).toRat := by
  rcases Nat.lt_or_ge (gridFloor code exponent) m with hlt | hle
  · refine Or.inr ⟨hlt, Or.inr ⟨?_, toRat_le_toRat hlt exponent⟩⟩
    exact (not_le.1 (mt toRat_le_magnitude_iff.1 (Nat.not_succ_le_self _))).le
  · exact Or.inl ⟨hle, Or.inl ⟨toRat_le_toRat hle exponent, toRat_le_magnitude_iff.2 le_rfl⟩⟩

/-- Where a decimal on the grid reads back, something is found there. -/
theorem onGrid?_ne_none_of_nearestCode {m : Nat} {exponent : Int} (hcode : code < infinityCode)
    (h : (⟨m, exponent⟩ : Decimal).nearestCode = code) : onGrid? code exponent ≠ none := by
  rcases beside_grid code m exponent with ⟨-, hbeside⟩ | ⟨-, hbeside⟩
  · exact onGrid?_ne_none (Or.inl rfl) (nearestCode_of_beside hcode h hbeside)
  · exact onGrid?_ne_none (Or.inr rfl) (nearestCode_of_beside hcode h hbeside)

/-- The decimal below the number is closer just if less than half a step is left. -/
theorem two_mul_mod_lt_iff (code : Nat) (exponent : Int) :
    2 * (units code * 10 ^ (-exponent).toNat % (unitsPerOne * 10 ^ exponent.toNat))
        < unitsPerOne * 10 ^ exponent.toNat
      ↔ 2 * magnitude code < (⟨gridFloor code exponent, exponent⟩ : Decimal).toRat
        + (⟨gridFloor code exponent + 1, exponent⟩ : Decimal).toRat := by
  have hsum : (⟨gridFloor code exponent, exponent⟩ : Decimal).toRat
      + (⟨gridFloor code exponent + 1, exponent⟩ : Decimal).toRat
      = (⟨2 * gridFloor code exponent + 1, exponent⟩ : Decimal).toRat := by
    unfold toRat
    push_cast
    ring
  have htwice : 2 * magnitude code = ofUnits (2 * units code) 1 := by
    rw [magnitude, ofUnits, Nat.cast_mul, Nat.cast_ofNat, Nat.cast_one, one_mul, mul_div_assoc]
  have hdiv := Nat.div_add_mod' (units code * 10 ^ (-exponent).toNat)
    (unitsPerOne * 10 ^ exponent.toNat)
  rw [hsum, htwice, ← not_le, ← not_le, toRat_le_ofUnits_iff, Nat.mul_assoc 2, Nat.add_mul,
    Nat.mul_assoc 2, Nat.one_mul]
  unfold gridFloor
  generalize unitsPerOne * 10 ^ exponent.toNat = den at *
  generalize units code * 10 ^ (-exponent).toNat = num at *
  omega

/-- What is found on a grid is one of the two decimals around the number: the one that reads back if it
is only one, and otherwise the closer one, which is the one above if both are equally close. -/
theorem onGrid?_eq_some {exponent : Int} {d : Decimal} (h : onGrid? code exponent = some d) :
    d = ⟨gridFloor code exponent, exponent⟩
        ∧ ((⟨gridFloor code exponent + 1, exponent⟩ : Decimal).nearestCode = code →
          2 * magnitude code < (⟨gridFloor code exponent, exponent⟩ : Decimal).toRat
            + (⟨gridFloor code exponent + 1, exponent⟩ : Decimal).toRat)
      ∨ d = ⟨gridFloor code exponent + 1, exponent⟩
        ∧ ((⟨gridFloor code exponent, exponent⟩ : Decimal).nearestCode = code →
          (⟨gridFloor code exponent, exponent⟩ : Decimal).toRat
            + (⟨gridFloor code exponent + 1, exponent⟩ : Decimal).toRat ≤ 2 * magnitude code) := by
  have hcloser := two_mul_mod_lt_iff code exponent
  unfold onGrid? at h
  simp only [natPow_eq] at h
  unfold gridFloor at hcloser ⊢
  split at h
  · next hbelow habove =>
    split at h
    · next hlt => exact Or.inl ⟨(Option.some.inj h).symm, fun _ => hcloser.1 hlt⟩
    · next hge =>
      exact Or.inr ⟨(Option.some.inj h).symm, fun _ => not_lt.1 (mt hcloser.2 hge)⟩
  · next hbelow habove =>
    refine Or.inl ⟨(Option.some.inj h).symm, fun hback => ?_⟩
    exact absurd (beq_iff_eq.2 hback) (Bool.eq_false_iff.1 habove)
  · next hbelow habove =>
    refine Or.inr ⟨(Option.some.inj h).symm, fun hback => ?_⟩
    exact absurd (beq_iff_eq.2 hback) (Bool.eq_false_iff.1 hbelow)
  · exact absurd h (by simp)

/-- **What is found on a grid** is the closest decimal there that reads back, and the larger of two. -/
theorem closest_of_onGrid? {exponent : Int} {d : Decimal} (hcode : code < infinityCode)
    (h : onGrid? code exponent = some d) {m : Nat}
    (hm : (⟨m, exponent⟩ : Decimal).nearestCode = code) :
    |d.toRat - magnitude code| ≤ |(⟨m, exponent⟩ : Decimal).toRat - magnitude code|
      ∧ (|d.toRat - magnitude code| = |(⟨m, exponent⟩ : Decimal).toRat - magnitude code| →
        (⟨m, exponent⟩ : Decimal).toRat ≤ d.toRat) := by
  have hbelow : (⟨gridFloor code exponent, exponent⟩ : Decimal).toRat ≤ magnitude code :=
    toRat_le_magnitude_iff.2 le_rfl
  have habove : magnitude code < (⟨gridFloor code exponent + 1, exponent⟩ : Decimal).toRat :=
    not_le.1 (mt toRat_le_magnitude_iff.1 (Nat.not_succ_le_self _))
  rcases beside_grid code m exponent with ⟨hle, hbeside⟩ | ⟨hle, hbeside⟩
  · have hback := nearestCode_of_beside hcode hm hbeside
    have hfar := hbeside.abs_sub_le
    have hmono := toRat_le_toRat hle exponent
    rcases onGrid?_eq_some h with ⟨rfl, -⟩ | ⟨rfl, hcloser⟩
    · exact ⟨hfar, fun _ => hmono⟩
    · have hcloser' := hcloser hback
      refine ⟨le_trans ?_ hfar, fun _ => by linarith⟩
      rw [abs_of_pos (sub_pos.2 habove), abs_of_nonpos (by linarith)]
      linarith
  · have hback := nearestCode_of_beside hcode hm hbeside
    have hfar := hbeside.abs_sub_le
    rcases onGrid?_eq_some h with ⟨rfl, hcloser⟩ | ⟨rfl, -⟩
    · have hlt : |(⟨gridFloor code exponent, exponent⟩ : Decimal).toRat - magnitude code|
          < |(⟨gridFloor code exponent + 1, exponent⟩ : Decimal).toRat - magnitude code| := by
        have hcloser' := hcloser hback
        rw [abs_of_nonpos (sub_nonpos.2 hbelow), abs_of_pos (sub_pos.2 habove)]
        linarith
      have hlt' := hlt.trans_le hfar
      exact ⟨hlt'.le, fun heq => absurd heq hlt'.ne⟩
    · exact ⟨hfar, fun heq => (hbeside.eq_of_abs_eq heq).ge⟩

/-! ## The search over all decimals -/

theorem toRat_one (exponent : Int) : (⟨1, exponent⟩ : Decimal).toRat = 10 ^ exponent := by
  rw [toRat, Nat.cast_one, one_mul]

/-- A number lies between the two powers of ten around its point. -/
theorem magnitude_bounds (hpos : 0 < code) (hcode : code < infinityCode) :
    (10 : ℚ) ^ (pointOfCode code - 1) ≤ magnitude code
      ∧ magnitude code < (10 : ℚ) ^ pointOfCode code := by
  obtain ⟨places, -, hpoint, hlower, hupper⟩ := pointOfCode_spec hpos hcode
  have hone : (0 : ℚ) < 2 ^ 1074 := by positivity
  have hten : (0 : ℚ) < 10 ^ 324 := by positivity
  have hpow : ∀ n : Nat, (10 : ℚ) ^ ((n : Int) - 324) = 10 ^ n / 10 ^ 324 := fun n => by
    rw [zpow_sub₀ (by norm_num), zpow_natCast]
    rfl
  have hplace : pointOfCode code - 1 = (places : Int) - 324 := by omega
  have hplace' : pointOfCode code = ((places + 1 : Nat) : Int) - 324 := by omega
  have hlower' : ((10 ^ places * unitsPerOne : Nat) : ℚ) ≤ (units code * 10 ^ 324 : Nat) :=
    Nat.cast_le.2 hlower
  have hupper' : ((units code * 10 ^ 324 : Nat) : ℚ) < (10 ^ (places + 1) * unitsPerOne : Nat) :=
    Nat.cast_lt.2 hupper
  rw [hplace, hplace', hpow, hpow, magnitude, div_le_div_iff₀ hten hone, div_lt_div_iff₀ hone hten]
  simp only [Nat.cast_mul, Nat.cast_pow, Nat.cast_ofNat, unitsPerOne_cast] at hlower' hupper'
  exact ⟨hlower', hupper'⟩

/-- So does a decimal between those around its own. -/
theorem toRat_bounds {d : Decimal} (hd : d.digits ≠ 0) :
    (10 : ℚ) ^ (d.point - 1) ≤ d.toRat ∧ d.toRat < (10 : ℚ) ^ d.point := by
  obtain ⟨k, hk⟩ := Nat.exists_eq_add_one_of_ne_zero (digitCount_pos d.digits).ne'
  obtain ⟨hlower, hupper⟩ := (digitCount_eq_iff (Nat.pos_of_ne_zero hd)).1 hk
  have hpow : (0 : ℚ) < 10 ^ d.exponent := zpow_pos (by norm_num) _
  have hplace : d.point = ((k + 1 : Nat) : Int) + d.exponent := by rw [point, hk]
  have hplace' : d.point - 1 = (k : Int) + d.exponent := by omega
  rw [hplace', hplace, zpow_add₀ (by norm_num), zpow_add₀ (by norm_num), zpow_natCast, zpow_natCast,
    toRat, mul_le_mul_iff_left₀ hpow, mul_lt_mul_iff_left₀ hpow]
  exact ⟨by exact_mod_cast hlower, by exact_mod_cast hupper⟩

theorem digits_ne_zero_of_nearestCode {d : Decimal} (hpos : 0 < code) (h : d.nearestCode = code) :
    d.digits ≠ 0 := by
  intro hzero
  rw [nearestCode, if_pos (Or.inl hzero)] at h
  omega

/-- **Beside any decimal that reads back** there is one on a grid around the number of as few digits,
between it and the number. -/
theorem exists_beside {e : Decimal} (hpos : 0 < code) (hcode : code < infinityCode)
    (he : e.nearestCode = code) :
    ∃ m j : Nat, 1 ≤ j ∧ j ≤ digitCount e.digits
      ∧ Beside (magnitude code) (⟨m, pointOfCode code - j⟩ : Decimal).toRat e.toRat := by
  have hcount := digitCount_pos e.digits
  obtain ⟨hlower, hupper⟩ := magnitude_bounds hpos hcode
  obtain ⟨hlower', hupper'⟩ := toRat_bounds (digits_ne_zero_of_nearestCode hpos he)
  rcases lt_trichotomy e.point (pointOfCode code) with hlt | heq | hgt
  · -- A power of ten lies between, of one digit.
    have hpow : (10 : ℚ) ^ e.point ≤ 10 ^ (pointOfCode code - 1) :=
      zpow_le_zpow_right₀ (by norm_num) (by omega)
    refine ⟨1, 1, le_rfl, hcount, Or.inl ⟨?_, ?_⟩⟩
    · rw [toRat_one]
      exact hupper'.le.trans hpow
    · rw [toRat_one]
      exact hlower
  · -- The decimal lies on such a grid itself.
    have hself : (⟨e.digits, pointOfCode code - digitCount e.digits⟩ : Decimal) = e := by
      rw [← heq, point, add_sub_cancel_left]
    refine ⟨e.digits, digitCount e.digits, hcount, le_rfl, ?_⟩
    rw [hself]
    rcases le_total e.toRat (magnitude code) with hle | hge
    · exact Or.inl ⟨le_rfl, hle⟩
    · exact Or.inr ⟨hge, le_rfl⟩
  · have hpow : (10 : ℚ) ^ pointOfCode code ≤ 10 ^ (e.point - 1) :=
      zpow_le_zpow_right₀ (by norm_num) (by omega)
    have hten : (⟨10, pointOfCode code - (1 : Nat)⟩ : Decimal).toRat = 10 ^ pointOfCode code := by
      show ((10 : Nat) : ℚ) * 10 ^ (pointOfCode code - 1) = _
      rw [Nat.cast_ofNat, ← zpow_one_add₀ (by norm_num), add_sub_cancel]
    refine ⟨10, 1, le_rfl, hcount, Or.inr ⟨?_, ?_⟩⟩
    · rw [hten]
      exact hupper.le
    · rw [hten]
      exact hpow.trans hlower'

/-- The search stops at the first grid on which something is found. -/
theorem exists_onGrid?_shortest (hpos : 0 < code) (hcode : code < infinityCode) :
    ∃ count : Nat, 1 ≤ count ∧ count ≤ 17
      ∧ onGrid? code (pointOfCode code - count) = some (shortest code)
      ∧ ∀ j : Nat, 1 ≤ j → j < count → onGrid? code (pointOfCode code - j) = none := by
  obtain ⟨n, hn, hback⟩ := exists_seventeen hpos hcode rfl
  have hfound : ((List.range' 1 17).findSome? fun (digits : Nat) =>
      onGrid? code (pointOfCode code - digits)) ≠ none := by
    rw [Ne, List.findSome?_eq_none_iff]
    intro h
    exact onGrid?_ne_none hn hback (h 17 (by decide))
  obtain ⟨d, hd⟩ := Option.ne_none_iff_exists'.1 hfound
  have hshortest : shortest code = d := by
    unfold shortest
    dsimp only
    rw [hd, Option.getD_some]
  obtain ⟨front, count, back, hrange, hgrid, hnone⟩ := List.findSome?_eq_some_iff.1 hd
  have hsorted : (List.range' 1 17).Pairwise (· < ·) := List.pairwise_lt_range'
  rw [hrange] at hsorted
  have hmem : count ∈ List.range' 1 17 := by
    rw [hrange]
    exact List.mem_append_right _ List.mem_cons_self
  rw [List.mem_range'_1] at hmem
  refine ⟨count, hmem.1, by omega, hshortest ▸ hgrid, fun j hj hlt => hnone j ?_⟩
  have hj' : j ∈ front ++ count :: back := by
    rw [← hrange, List.mem_range'_1]
    omega
  -- The counts are tried in order, so a smaller one was tried before.
  rcases List.mem_append.1 hj' with hfront | hback
  · exact hfront
  · rcases List.mem_cons.1 hback with rfl | hmem'
    · exact absurd hlt (lt_irrefl _)
    · have hlater := List.rel_of_pairwise_cons (List.pairwise_append.1 hsorted).2.1 hmem'
      exact absurd hlater (not_lt.2 hlt.le)

/-- Up to the number there are fewer steps of a grid than the power of ten that its count of digits
makes up. -/
theorem gridFloor_lt (hpos : 0 < code) (hcode : code < infinityCode) (count : Nat) :
    gridFloor code (pointOfCode code - count) < 10 ^ count := by
  obtain ⟨-, hupper⟩ := magnitude_bounds hpos hcode
  have htop : (⟨10 ^ count, pointOfCode code - count⟩ : Decimal).toRat = 10 ^ pointOfCode code := by
    rw [toRat, Nat.cast_pow, Nat.cast_ofNat, ← zpow_natCast, ← zpow_add₀ (by norm_num),
      add_sub_cancel]
  rw [← not_le, ← toRat_le_magnitude_iff, htop]
  exact not_le.2 hupper

/-- **No decimal that reads back has fewer digits** than the grid on which the search stops, and none
that has as many is closer than what is found there. -/
theorem closest_of_first {count : Nat} {d e : Decimal} (hpos : 0 < code) (hcode : code < infinityCode)
    (hgrid : onGrid? code (pointOfCode code - count) = some d)
    (hnone : ∀ j : Nat, 1 ≤ j → j < count → onGrid? code (pointOfCode code - j) = none)
    (he : e.nearestCode = code) :
    count ≤ digitCount e.digits ∧ (digitCount e.digits = count →
      |d.toRat - magnitude code| ≤ |e.toRat - magnitude code|
      ∧ (|d.toRat - magnitude code| = |e.toRat - magnitude code| → e.toRat ≤ d.toRat)) := by
  obtain ⟨m, j, hj, hle, hbeside⟩ := exists_beside hpos hcode he
  have hback := nearestCode_of_beside hcode he hbeside
  have hge : count ≤ j := by
    by_contra hlt
    exact onGrid?_ne_none_of_nearestCode hcode hback (hnone j hj (not_le.1 hlt))
  refine ⟨hge.trans hle, fun hcount => ?_⟩
  obtain rfl : j = count := by omega
  obtain ⟨hclose, hlarger⟩ := closest_of_onGrid? hcode hgrid hback
  refine ⟨hclose.trans hbeside.abs_sub_le, fun heq => ?_⟩
  -- As far away as what lies beside it, the decimal is that one.
  have hsame := hbeside.eq_of_abs_eq (le_antisymm hbeside.abs_sub_le (heq ▸ hclose))
  rw [← hsame] at heq ⊢
  exact hlarger heq

end Code

/-! ## Without the zeros at the end -/

/-- A decimal without the zeros at the end of its digits. -/
def trimmed (d : Decimal) : Decimal :=
  ⟨Text.toNat d.significant, d.point - d.significant.length⟩

/-- Digits with zeros behind them are those of a multiple of a power of ten. -/
theorem ofNat_mul_pow {n : Nat} (hn : 0 < n) (zeros : Nat) :
    Text.ofNat (n * 10 ^ zeros) = Text.ofNat n ++ List.replicate zeros '0' := by
  induction zeros with
  | zero => rw [pow_zero, Nat.mul_one, List.replicate_zero, List.append_nil]
  | succ zeros ih =>
    have happend := Nat.toDigits_append_toDigits (b := 10) (n := n * 10 ^ zeros) (d := 0) (by decide)
      (by positivity) (by decide)
    have hmul : n * 10 ^ (zeros + 1) = 10 * (n * 10 ^ zeros) + 0 := by ring
    rw [hmul, Text.ofNat, ← happend, List.replicate_succ', ← List.append_assoc, ← ih]
    rfl

variable {d : Decimal}

/-- The significant digits are those that the decimal without zeros is written with. -/
theorem ofNat_digits_trimmed (hd : d.digits ≠ 0) : Text.ofNat d.trimmed.digits = d.significant := by
  obtain ⟨zeros, heq⟩ := ofNat_eq_significant d
  obtain ⟨-, -, -, hne, -⟩ := digits_eq_significant hd
  have hdigits := congrArg Text.toNat heq
  rw [Text.toNat_ofNat, Text.toNat_append, Text.toNat_replicate_zero, List.length_replicate,
    Nat.add_zero] at hdigits
  rw [hdigits, ofNat_mul_pow (Nat.pos_of_ne_zero hne)] at heq
  exact List.append_cancel_right heq

theorem point_trimmed (hd : d.digits ≠ 0) : d.trimmed.point = d.point := by
  rw [point, digitCount, ofNat_digits_trimmed hd, trimmed, add_sub_cancel]

theorem toRat_trimmed (hd : d.digits ≠ 0) : d.trimmed.toRat = d.toRat := by
  obtain ⟨zeros, hdigits, hpoint, -, -⟩ := digits_eq_significant hd
  have hplace : d.point - d.significant.length = zeros + d.exponent := by omega
  rw [toRat, toRat, trimmed, hplace, zpow_add₀ (by norm_num), zpow_natCast, hdigits]
  push_cast
  ring

theorem digitCount_trimmed_le (hd : d.digits ≠ 0) :
    digitCount d.trimmed.digits ≤ digitCount d.digits := by
  obtain ⟨zeros, heq⟩ := ofNat_eq_significant d
  rw [digitCount, digitCount, ofNat_digits_trimmed hd, heq, List.length_append]
  exact Nat.le_add_right _ _

theorem nearestCode_congr {d e : Decimal} (h : d.toRat = e.toRat) : d.nearestCode = e.nearestCode :=
  le_antisymm (nearestCode_mono h.le) (nearestCode_mono h.ge)

/-- The grid on which the search stops tells the count of digits that is written. -/
theorem digitCount_shortest {code count : Nat} (hpos : 0 < code) (hcode : code < infinityCode)
    (hgrid : onGrid? code (pointOfCode code - count) = some (shortest code))
    (hnone : ∀ j : Nat, 1 ≤ j → j < count → onGrid? code (pointOfCode code - j) = none)
    (hone : 1 ≤ count) : digitCount (shortest code).trimmed.digits = count := by
  have hback := nearestCode_shortest hpos hcode
  have hd := digits_ne_zero_of_nearestCode hpos hback
  have hfloor := gridFloor_lt hpos hcode count
  have hfewest : ∀ e : Decimal, e.nearestCode = code → count ≤ digitCount e.digits :=
    fun e he => (closest_of_first hpos hcode hgrid hnone he).1
  have hge := hfewest _ ((nearestCode_congr (toRat_trimmed hd)).trans hback)
  refine le_antisymm ?_ hge
  have hle := digitCount_trimmed_le hd
  have hdigits : (shortest code).digits ≤ 10 ^ count := by
    rcases onGrid?_eq_some hgrid with ⟨heq, -⟩ | ⟨heq, -⟩
    · rw [heq]
      exact hfloor.le
    · rw [heq]
      exact hfloor
  rcases Nat.eq_or_lt_of_le hdigits with heq | hlt
  · -- A power of ten is read back from a single digit.
    have hexponent : (shortest code).exponent = pointOfCode code - count := by
      rcases onGrid?_eq_some hgrid with ⟨h, -⟩ | ⟨h, -⟩ <;> rw [h]
    have hpower : (shortest code).toRat = (⟨1, pointOfCode code⟩ : Decimal).toRat := by
      rw [toRat_one, toRat, heq, hexponent, Nat.cast_pow, Nat.cast_ofNat, ← zpow_natCast,
        ← zpow_add₀ (by norm_num), add_sub_cancel]
    have hcount := hfewest _ ((nearestCode_congr hpower).symm.trans hback)
    have hdigit : digitCount 1 = 1 := rfl
    obtain rfl : count = 1 := le_antisymm (hcount.trans hdigit.le) hone
    have hsignificant : (shortest code).significant = ['1'] := by
      rw [significant, heq]
      rfl
    rw [digitCount, ofNat_digits_trimmed hd, hsignificant]
    rfl
  · exact hle.trans ((digitCount_le_iff hone).2 hlt)

/-- No more than seventeen digits are written, and the point is not far from the range of the format. -/
theorem shortest_bounds {code : Nat} (hpos : 0 < code) (hcode : code < infinityCode) :
    (shortest code).significant.length ≤ 17
      ∧ -340 ≤ (shortest code).point ∧ (shortest code).point ≤ 310 := by
  have hd := digits_shortest_ne_zero hpos hcode
  obtain ⟨count, hone, hfew, hgrid, hnone⟩ := exists_onGrid?_shortest hpos hcode
  have hwritten := digitCount_shortest hpos hcode hgrid hnone hone
  rw [digitCount, ofNat_digits_trimmed hd] at hwritten
  have hfloor := gridFloor_lt hpos hcode count
  have hdigits : (shortest code).digits < 10 ^ (count + 1)
      ∧ (shortest code).exponent = pointOfCode code - count := by
    have hpow : (10 : Nat) ^ count < 10 ^ (count + 1) := Nat.pow_lt_pow_succ (by decide)
    rcases onGrid?_eq_some hgrid with ⟨heq, -⟩ | ⟨heq, -⟩ <;> rw [heq] <;>
      exact ⟨by dsimp only; omega, rfl⟩
  have hcount := (digitCount_le_iff (Nat.succ_pos count)).2 hdigits.1
  obtain ⟨places, hplaces, hpoint, -, -⟩ := pointOfCode_spec hpos hcode
  refine ⟨hwritten.trans_le hfew, ?_⟩
  unfold point
  rw [hdigits.2]
  omega

/-- **What is found is shortest**, and of two decimals that are equally short and close the larger
one. -/
theorem isShortest_shortest {x : Binary64} (hpos : 0 < x.code) (hcode : x.code < infinityCode) :
    (shortest x.code).trimmed.IsShortest x
      ∧ ∀ e : Decimal, e.IsShortest x → e.toRat ≤ (shortest x.code).trimmed.toRat := by
  have hback := nearestCode_shortest hpos hcode
  have hd := digits_ne_zero_of_nearestCode hpos hback
  have htoRat := toRat_trimmed hd
  obtain ⟨count, hone, -, hgrid, hnone⟩ := exists_onGrid?_shortest hpos hcode
  have hcount := digitCount_shortest hpos hcode hgrid hnone hone
  have hreads : (shortest x.code).trimmed.ReadsAs x :=
    readsAs_iff.2 ((nearestCode_congr htoRat).trans hback)
  have hall : ∀ e : Decimal, e.ReadsAs x → _ :=
    fun e he => closest_of_first hpos hcode hgrid hnone (readsAs_iff.1 he)
  have hshortest : (shortest x.code).trimmed.IsShortest x := by
    refine ⟨hreads, fun e he => ?_, fun e he hsame => ?_⟩
    · rw [hcount]
      exact (hall e he).1
    · rw [htoRat]
      exact ((hall e he).2 (hsame.trans hcount)).1
  refine ⟨hshortest, fun e he => ?_⟩
  -- Two shortest decimals have as many digits and are as close.
  have hsame : digitCount e.digits = digitCount (shortest x.code).trimmed.digits :=
    le_antisymm (he.least _ hreads) (hshortest.least _ he.reads)
  have hdist := le_antisymm (hshortest.closest e he.reads hsame) (he.closest _ hreads hsame.symm)
  rw [htoRat] at hdist ⊢
  exact ((hall e he.reads).2 (hsame.trans hcount)).2 hdist

/-! ## Layouts -/

/-- The text `s` shows `digits` with the decimal point behind the first `n` of them.  The point is
written out as long as that takes no more than 21 digits in front of it, or six behind it; otherwise it
stands behind the first digit, and an exponent makes up for it. -/
structure IsLaidOut (digits : Text) (n : Int) (s : Text) : Prop where
  /-- Zeros fill up to the point. -/
  whole : digits.length ≤ n → n ≤ 21 →
    s = digits ++ List.replicate (n.toNat - digits.length) '0'
  /-- The point stands among the digits. -/
  among : 0 < n → n < digits.length → n ≤ 21 →
    s = digits.take n.toNat ++ '.' :: digits.drop n.toNat
  /-- Zeros stand behind the point. -/
  below : -6 < n → n ≤ 0 → s = "0.".toList ++ List.replicate (-n).toNat '0' ++ digits
  /-- An exponent stands behind the digits. -/
  exponent : n ≤ -6 ∨ 21 < n →
    s = digits.take 1 ++ (if 1 < digits.length then '.' :: digits.drop 1 else [])
      ++ 'e' :: (if n - 1 < 0 then '-' else '+') :: Text.ofNat (n - 1).natAbs

/-- The text of a decimal shows its significant digits. -/
theorem isLaidOut_toText (hd : d.digits ≠ 0) : IsLaidOut d.significant d.point d.toText := by
  have hlength := List.length_pos_iff.2 (significant_ne_nil hd)
  unfold toText leastPlainPoint greatestPlainPoint
  constructor
  · intro hlow hhigh
    rw [if_pos (by omega), plainText, if_neg (by omega), if_pos hlow]
  · intro hpos hlow hhigh
    rw [if_pos (by omega), plainText, if_neg (by omega), if_neg (by omega)]
  · intro hlow hhigh
    rw [if_pos (by omega), plainText, if_pos hhigh]
  · intro hfar
    rw [if_neg (by omega), exponentText, List.append_assoc, List.append_assoc, List.append_assoc]
    congr 1
    by_cases hone : d.significant.length ≤ 1
    · rw [if_pos hone, if_neg (show ¬ 1 < d.significant.length by omega)]
      rfl
    · rw [if_neg hone, if_pos (show 1 < d.significant.length by omega)]
      rfl

/-- The point of a shortest decimal lies beyond a place just if the number is no smaller than the power
of ten there. -/
theorem IsShortest.lt_point_iff {x : Binary64} (h : d.IsShortest x) (hpos : 0 < x.code) {n : Int}
    (hstep : (⟨9, n - 1⟩ : Decimal).nearestCode < (⟨1, n⟩ : Decimal).nearestCode) :
    n < d.point ↔ (⟨1, n⟩ : Decimal).nearestCode ≤ x.code := by
  have hback := readsAs_iff.1 h.reads
  have hd := digits_ne_zero_of_nearestCode hpos hback
  obtain ⟨hlower, hupper⟩ := toRat_bounds hd
  constructor
  · intro hlt
    rw [← hback]
    refine nearestCode_mono (le_trans ?_ hlower)
    rw [toRat_one]
    exact zpow_le_zpow_right₀ (by norm_num) (by omega)
  · intro hle
    by_contra hnot
    have hlt : d.toRat ≤ (⟨1, n⟩ : Decimal).toRat := by
      rw [toRat_one]
      exact hupper.le.trans (zpow_le_zpow_right₀ (by norm_num) (not_lt.1 hnot))
    -- The power of ten reads back itself, and so the decimal has a single digit.
    have hpower : (⟨1, n⟩ : Decimal).nearestCode = x.code :=
      le_antisymm hle (hback ▸ nearestCode_mono hlt)
    have hcount := h.least _ (readsAs_iff.2 hpower)
    have hdigit : digitCount 1 = 1 := rfl
    have hnine : d.digits < 10 ^ 1 := (digitCount_le_iff Nat.one_pos).1 (hcount.trans hdigit.le)
    have hexponent : d.exponent ≤ n - 1 := by
      have hcount' := digitCount_pos d.digits
      unfold point at hnot
      omega
    have hnext : d.toRat ≤ (⟨9, n - 1⟩ : Decimal).toRat := by
      refine mul_le_mul (Nat.cast_le.2 (Nat.le_of_lt_succ hnine))
        (zpow_le_zpow_right₀ (by norm_num) hexponent) (zpow_nonneg (by norm_num) _) (Nat.cast_nonneg _)
    have hbelow := nearestCode_mono hnext
    omega

/-- The digits with an exponent that has no sign unless it is below zero. -/
def signlessExponentText (digits : Text) (point : Int) : Text :=
  digits.take 1 ++ (if digits.length ≤ 1 then [] else '.' :: digits.drop 1)
    ++ 'e' :: ((if point - 1 < 0 then ['-'] else []) ++ Text.ofNat (point - 1).natAbs)

/-- A plus sign is put behind the first `e` if no minus sign stands there. -/
def withPlus (s : Text) : Text :=
  match Text.cut? ['e'] s with
  | some (mantissa, exponent) =>
    if Text.startsWith exponent ['-'] then s else mantissa ++ "e+".toList ++ exponent
  | none => s

/-- So the exponent gets its sign. -/
theorem withPlus_signlessExponentText {digits front : Text} (hdigits : 'e' ∉ digits)
    (hfront : 'e' ∉ front) (point : Int) :
    withPlus (front ++ signlessExponentText digits point) = front ++ exponentText digits point := by
  have hmantissa : 'e' ∉ front ++ (digits.take 1
      ++ (if digits.length ≤ 1 then [] else '.' :: digits.drop 1)) := by
    simp only [List.mem_append, not_or]
    refine ⟨hfront, fun h => hdigits (List.mem_of_mem_take h), ?_⟩
    split
    · exact List.not_mem_nil
    · rw [List.mem_cons, not_or]
      exact ⟨by decide, fun h => hdigits (List.mem_of_mem_drop h)⟩
  unfold withPlus signlessExponentText exponentText
  dsimp only
  rw [← List.append_assoc, Text.cut?_char_eq_some_iff.2 ⟨rfl, hmantissa⟩]
  dsimp only
  by_cases hneg : point - 1 < 0
  · have hminus : Text.startsWith (['-'] ++ Text.ofNat (point - 1).natAbs) ['-'] = true := by
      rw [Text.startsWith_iff]
      exact List.prefix_append _ _
    rw [if_pos hneg, if_pos hneg, if_pos hminus]
    simp only [List.append_assoc]
    rfl
  · have hminus : ¬ Text.startsWith ([] ++ Text.ofNat (point - 1).natAbs) ['-'] = true := by
      rw [List.nil_append, Text.startsWith_iff]
      intro hstart
      have hdigit := Text.isDigit_of_mem_ofNat (hstart.subset List.mem_cons_self)
      exact absurd hdigit (by decide)
    rw [if_neg hneg, if_neg hneg, if_neg hminus]
    simp only [List.append_assoc, List.nil_append]
    rfl

end Decimal

namespace Binary64

/-- The text of a number with its layout chosen by the size of the number. -/
def toTextByRange (x : Binary64) : Text :=
  match x.meaning with
  | .notANumber => "NaN".toList
  | .infinite negative => signText negative ++ "Infinity".toList
  | .finite negative units =>
    if units = 0 then ['0']
    else
      let d := Decimal.shortest x.code
      if (⟨1, -6⟩ : Decimal).nearestCode ≤ x.code ∧ x.code < (⟨1, 21⟩ : Decimal).nearestCode then
        signText negative ++ Decimal.plainText d.significant d.point
      else
        Decimal.withPlus (signText negative ++ Decimal.signlessExponentText d.significant d.point)

theorem not_mem_signText (negative : Bool) : 'e' ∉ signText negative := by
  cases negative <;> decide

/-- The point is written out just for the numbers from a millionth to below `10 ^ 21`. -/
theorem isPlain_iff {x : Binary64} (hpos : 0 < x.code) (hcode : x.code < infinityCode) :
    Decimal.leastPlainPoint ≤ (Decimal.shortest x.code).point
        ∧ (Decimal.shortest x.code).point ≤ Decimal.greatestPlainPoint
      ↔ (⟨1, -6⟩ : Decimal).nearestCode ≤ x.code ∧ x.code < (⟨1, 21⟩ : Decimal).nearestCode := by
  have hshortest := (Decimal.isShortest_shortest hpos hcode).1
  have hlow := hshortest.lt_point_iff hpos (n := -6) (by decide +kernel)
  have hhigh := hshortest.lt_point_iff hpos (n := 21) (by decide +kernel)
  have hd := Decimal.digits_shortest_ne_zero hpos hcode
  rw [Decimal.point_trimmed hd] at hlow hhigh
  unfold Decimal.leastPlainPoint Decimal.greatestPlainPoint
  rw [← hlow, ← not_le (b := x.code), ← hhigh]
  omega

/-- **The layout by the size of the number** is the layout by the place of the point. -/
theorem toTextByRange_eq (x : Binary64) : x.toTextByRange = x.toText := by
  unfold toTextByRange toText meaning
  by_cases hcode : x.code < infinityCode
  · rw [if_pos hcode]
    dsimp only
    by_cases hzero : units x.code = 0
    · rw [if_pos hzero, if_pos hzero]
    · have hpos : 0 < x.code := Nat.pos_of_ne_zero fun h => hzero (units_eq_zero_iff.2 h)
      have hdigits : 'e' ∉ (Decimal.shortest x.code).significant := fun h =>
        absurd (Decimal.isDigit_of_mem_significant h) (by decide)
      have hplain := isPlain_iff hpos hcode
      rw [if_neg hzero, if_neg hzero, Decimal.toText]
      by_cases hrange : (⟨1, -6⟩ : Decimal).nearestCode ≤ x.code
          ∧ x.code < (⟨1, 21⟩ : Decimal).nearestCode
      · rw [if_pos hrange, if_pos (hplain.2 hrange)]
      · rw [if_neg hrange, if_neg (mt hplain.1 hrange),
          Decimal.withPlus_signlessExponentText hdigits (not_mem_signText _)]
  · rw [if_neg hcode]
    by_cases hinfinite : x.code = infinityCode
    · rw [if_pos hinfinite]
    · rw [if_neg hinfinite]

/-- **How a number is written**: both zeros as `0`, and any other finite number by the digits of its
shortest decimal, the larger one of two, with the point at its place and a minus sign if the number is
below zero. -/
theorem toText_shortest (x : Binary64) :
    x.toText = x.toTextByRange
    ∧ (x.toRat? = some 0 → x.toText = ['0'])
    ∧ ∀ v, x.toRat? = some v → v ≠ 0 → ∃ (d : Decimal) (s : Text),
      d.IsShortest x ∧ (∀ e : Decimal, e.IsShortest x → e.toRat ≤ d.toRat)
      ∧ Decimal.IsLaidOut (Text.ofNat d.digits) d.point s
      ∧ x.toText = (if v < 0 then ['-'] else []) ++ s := by
  refine ⟨(toTextByRange_eq x).symm, fun hzero => ?_, fun v hv hne => ?_⟩
  · obtain ⟨hcode, hvalue⟩ := toRat?_eq_some_iff.1 hzero
    have hmagnitude : magnitude x.code = magnitude 0 := by
      rw [magnitude_zero]
      unfold signed at hvalue
      split at hvalue <;> linarith
    unfold toText meaning
    rw [if_pos hcode]
    exact if_pos (units_eq_zero_iff.2 (magnitude_inj hmagnitude))
  · obtain ⟨hcode, rfl⟩ := toRat?_eq_some_iff.1 hv
    have hpos : 0 < x.code := Nat.pos_of_ne_zero fun hzero => hne (by
      rw [hzero, magnitude_zero, signed, neg_zero, ite_self])
    have hd := Decimal.digits_shortest_ne_zero hpos hcode
    obtain ⟨hshortest, hlarger⟩ := Decimal.isShortest_shortest hpos hcode
    have hlaid := Decimal.isLaidOut_toText hd
    rw [← Decimal.ofNat_digits_trimmed hd, ← Decimal.point_trimmed hd] at hlaid
    have hmagnitude := magnitude_lt_iff.2 hpos
    rw [magnitude_zero] at hmagnitude
    have hsign : (if signed x.isNegative (magnitude x.code) < 0 then ['-'] else [])
        = signText x.isNegative := by
      unfold signed
      cases x.isNegative
      · exact if_neg (not_lt.2 hmagnitude.le)
      · exact if_pos (neg_lt_zero.2 hmagnitude)
    refine ⟨_, _, hshortest, hlarger, hlaid, ?_⟩
    rw [hsign]
    unfold toText meaning
    rw [if_pos hcode]
    exact if_neg (mt units_eq_zero_iff.1 hpos.ne')

/-- A number halfway between two decimals of seventeen digits, which both read back. -/
theorem toText_shortest_halfway :
    (∃ (d : Decimal) (s : Text), d.IsShortest (ofCode false 0x4310000000000001)
      ∧ Decimal.IsLaidOut (Text.ofNat d.digits) d.point s
      ∧ toText (ofCode false 0x4310000000000001) = s)
    ∧ toText (ofCode false 0x4310000000000001) = "1125899906842624.3".toList := by
  have hcode : 0x4310000000000001 < infinityCode := by decide
  have hpos : 0 < magnitude 0x4310000000000001 := by
    rw [← magnitude_zero]
    exact magnitude_lt_iff.2 (by decide)
  obtain ⟨-, -, hwritten⟩ := toText_shortest (ofCode false 0x4310000000000001)
  obtain ⟨d, s, hshortest, -, hlaid, htext⟩ := hwritten _ (toRat?_ofCode false hcode) hpos.ne'
  have hsign : ¬ signed false (magnitude 0x4310000000000001) < 0 := not_lt.2 hpos.le
  rw [if_neg hsign] at htext
  exact ⟨⟨d, s, hshortest, hlaid, htext⟩, by decide +kernel⟩

end Binary64

end Playground
