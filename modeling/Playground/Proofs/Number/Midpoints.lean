/-
# Midpoints between numbers

Larger codes stand for larger magnitudes, and halfway between two neighbours lies their midpoint.  A
fraction is rounded to a code just if it lies between the midpoints on both sides of the code, and on
a midpoint just if the code is even.  Infinity has no midpoint above it.

* `Binary64.units_succ` : the step from one code to the next.
* `Binary64.nearestCode_eq_iff` : the fractions that are rounded to a code.
* `Binary64.nearestCode_mono` : a larger fraction is rounded to no smaller code.
-/
import Playground.Proofs.Number.Rounding

namespace Playground

/-- The whole number nearest to a fraction is at most a half away, and if it is as much as a half away
then it is even. -/
theorem divNearest_spec (num : Nat) {den : Nat} (hden : 0 < den) :
    (2 * num ≤ (2 * divNearest num den + 1) * den
      ∧ (2 * num = (2 * divNearest num den + 1) * den → divNearest num den % 2 = 0))
    ∧ ∀ m, m + 1 = divNearest num den → (2 * m + 1) * den ≤ 2 * num
      ∧ ((2 * m + 1) * den = 2 * num → divNearest num den % 2 = 0) := by
  have hnum := Nat.div_add_mod' num den
  have hrem := Nat.mod_lt num hden
  have hodd : ∀ m : Nat, (2 * m + 1) * den = 2 * (m * den) + den := fun m => by ring
  have hsucc : ∀ m : Nat, (m + 1) * den = m * den + den := fun m => by ring
  have hhalf := Nat.mod_two_eq_zero_or_one (num / den)
  simp only [hodd]
  unfold divNearest
  dsimp only
  split
  · -- Less than a half is left over, and the quotient is the nearest.
    refine ⟨⟨by omega, by omega⟩, fun m hm => ?_⟩
    rw [← hm, hsucc] at hnum
    omega
  · split
    · -- More than a half is left over, and the next whole number is the nearest.
      rw [hsucc]
      refine ⟨⟨by omega, by omega⟩, fun m hm => ?_⟩
      rw [← Nat.succ.inj hm] at hnum
      omega
    · -- A half is left over, and the even one of the two is taken.
      rcases hhalf with heven | hodd'
      · rw [heven, Nat.add_zero]
        refine ⟨⟨by omega, by omega⟩, fun m hm => ?_⟩
        rw [← hm, hsucc] at hnum
        omega
      · rw [hodd', hsucc]
        refine ⟨⟨by omega, by omega⟩, fun m hm => ?_⟩
        rw [← Nat.succ.inj hm] at hnum
        omega

namespace Binary64

/-! ## The order of the codes -/

theorem fractions_pos : 0 < fractions := by decide

theorem unitsPerOne_pos : 0 < unitsPerOne := by decide +kernel

theorem shift_mono {a b : Nat} (h : a ≤ b) : shift a ≤ shift b :=
  Nat.sub_le_sub_right (Nat.div_le_div_right h) 1

/-- A significand at a shift is its own count of units there, also where it runs into the next
exponent. -/
theorem units_of_shift {s m : Nat} (hfull : s = 0 ∨ fractions ≤ m) (hm : m ≤ 2 * fractions) :
    units (s * fractions + m) = m * 2 ^ s := by
  have hpos := fractions_pos
  have hdiv : (s * fractions + m) / fractions = s + m / fractions := by
    rw [Nat.add_comm, Nat.add_mul_div_right _ _ hpos, Nat.add_comm]
  rcases Nat.lt_or_ge m (2 * fractions) with hlt | hge
  · have hshift : shift (s * fractions + m) = s := by
      unfold shift
      rw [hdiv]
      rcases hfull with rfl | hle
      · have hle : m / fractions ≤ 1 := Nat.le_of_lt_succ ((Nat.div_lt_iff_lt_mul hpos).2 hlt)
        omega
      · rw [Nat.div_eq_of_lt_le (show 1 * fractions ≤ m by omega) (by omega)]
        rfl
    rw [units_eq, significand, hshift, Nat.add_sub_cancel_left]
  · obtain rfl : m = 2 * fractions := by omega
    have hshift : shift (s * fractions + 2 * fractions) = s + 1 := by
      unfold shift
      rw [hdiv, Nat.mul_div_cancel _ hpos]
      rfl
    have hsig : s * fractions + 2 * fractions - (s + 1) * fractions = fractions := by
      have hmul := Nat.add_mul s 1 fractions
      omega
    rw [units_eq, significand, hshift, hsig]
    ring

/-- **From one code to the next** it is one step of the shift. -/
theorem units_succ (code : Nat) : units (code + 1) = units code + 2 ^ shift code := by
  have hparts := shift_significand code
  have hsig := significand_lt code
  have hfull : shift code = 0 ∨ fractions ≤ significand code := by
    rcases Nat.eq_zero_or_pos (shift code) with hzero | hpos
    · exact Or.inl hzero
    · exact Or.inr (fractions_le_significand hpos)
  have hnext : code + 1 = shift code * fractions + (significand code + 1) := by omega
  have hunits := units_of_shift (m := significand code + 1) (hfull.imp_right (by omega)) (by omega)
  rw [← hnext] at hunits
  rw [hunits, units_eq]
  ring

theorem units_lt_units {a b : Nat} (h : a < b) : units a < units b := by
  have hmono : StrictMono units := strictMono_nat_of_lt_succ fun code => by
    rw [units_succ]
    exact Nat.lt_add_of_pos_right (by positivity)
  exact hmono h

theorem units_le_units {a b : Nat} (h : a ≤ b) : units a ≤ units b := by
  rcases Nat.eq_or_lt_of_le h with rfl | hlt
  · exact le_rfl
  · exact (units_lt_units hlt).le

/-! ## Between the midpoints -/

/-- Twice the units halfway between a code and the next one. -/
def twiceMidpoint (code : Nat) : Nat := units code + units (code + 1)

theorem twiceMidpoint_le {a b : Nat} (h : a ≤ b) : twiceMidpoint a ≤ twiceMidpoint b :=
  Nat.add_le_add (units_le_units h) (units_le_units (Nat.succ_le_succ h))

theorem twiceMidpoint_lt {a b : Nat} (h : a < b) : twiceMidpoint a < twiceMidpoint b :=
  Nat.add_lt_add (units_lt_units h) (units_lt_units (Nat.succ_lt_succ h))

/-- A fraction of units lies between the midpoints on both sides of a code; a midpoint itself belongs
to the code if it is even. -/
structure Between (num den code : Nat) : Prop where
  /-- The fraction lies above the midpoint below the code. -/
  above : ∀ c, c + 1 = code → twiceMidpoint c * den ≤ 2 * num
    ∧ (twiceMidpoint c * den = 2 * num → code % 2 = 0)
  /-- The fraction lies below the midpoint above the code. -/
  below : code < infinityCode → 2 * num ≤ twiceMidpoint code * den
    ∧ (2 * num = twiceMidpoint code * den → code % 2 = 0)

/-- Within a shift the midpoints lie half a step above the codes. -/
theorem twiceMidpoint_of_shift {s m : Nat} (hfull : s = 0 ∨ fractions ≤ m) (hm : m < 2 * fractions) :
    twiceMidpoint (s * fractions + m) = (2 * m + 1) * 2 ^ s := by
  have hnext : units (s * fractions + m + 1) = (m + 1) * 2 ^ s := by
    rw [Nat.add_assoc]
    exact units_of_shift (hfull.imp_right (by omega)) hm
  unfold twiceMidpoint
  rw [units_of_shift hfull hm.le, hnext]
  ring

/-- A code is even just if its significand is. -/
theorem mod_two_of_shift (s m : Nat) : (s * fractions + m) % 2 = m % 2 := by
  rw [fractions_eq, Nat.add_mod, Nat.mul_mod, Nat.pow_mod]
  norm_num

/-- A significand rounded at a shift has its full length and runs into the next exponent at most. -/
theorem divNearest_full {num step s : Nat} (hstep : 0 < step)
    (hlower : s = 0 ∨ fractions * step ≤ num) (hupper : num < 2 * fractions * step) :
    (s = 0 ∨ fractions ≤ divNearest num step) ∧ divNearest num step ≤ 2 * fractions := by
  obtain ⟨⟨hhigh, -⟩, hlow⟩ := divNearest_spec num hstep
  generalize divNearest num step = m at hhigh hlow
  constructor
  · refine hlower.imp_right fun hle => ?_
    by_contra h
    have hmul : (2 * m + 1) * step < 2 * fractions * step :=
      Nat.mul_lt_mul_of_pos_right (by omega) hstep
    rw [Nat.mul_assoc] at hmul
    omega
  · by_contra h
    obtain ⟨hle, -⟩ := hlow (m - 1) (by omega)
    have hmul : (2 * (2 * fractions) + 1) * step ≤ (2 * (m - 1) + 1) * step :=
      Nat.mul_le_mul_right _ (by omega)
    rw [Nat.add_mul, Nat.mul_assoc] at hmul
    omega

/-- A code rounded at a shift lies between its midpoints, whether or not it is beyond infinity. -/
theorem between_of_shift (num : Nat) {den s : Nat} (hden : 0 < den)
    (hlower : s = 0 ∨ 2 ^ (52 + s) * den ≤ num) (hupper : num < 2 ^ (53 + s) * den) :
    Between num den (s * fractions + divNearest num (den * 2 ^ s)) := by
  have hstep : 0 < den * 2 ^ s := by positivity
  have htop : 2 ^ (53 + s) * den = 2 * fractions * (den * 2 ^ s) := by rw [fractions_eq]; ring
  have hbottom : 2 ^ (52 + s) * den = fractions * (den * 2 ^ s) := by rw [fractions_eq]; ring
  have hmid : ∀ n : Nat, (2 * n + 1) * 2 ^ s * den = (2 * n + 1) * (den * 2 ^ s) := fun n => by ring
  have hflat : ∀ n : Nat, 2 * (n * 2 ^ s) * den = 2 * (n * (den * 2 ^ s)) := fun n => by ring
  rw [htop] at hupper
  rw [hbottom] at hlower
  obtain ⟨hfull, hm⟩ := divNearest_full hstep hlower hupper
  obtain ⟨⟨hhigh, htie⟩, hlow⟩ := divNearest_spec num hstep
  generalize divNearest num (den * 2 ^ s) = m at hhigh htie hlow hfull hm
  have hunits := units_of_shift hfull hm
  constructor
  · intro c hc
    by_cases hmin : 0 < s ∧ m = fractions
    · -- Below a power of two the steps are shorter, and the fraction does not reach that far.
      obtain ⟨hpos, rfl⟩ := hmin
      have hle := hlower.resolve_left (Nat.pos_iff_ne_zero.1 hpos)
      have hlt : units c < fractions * 2 ^ s := hunits ▸ units_lt_units (by omega)
      have hmul : twiceMidpoint c * den < 2 * (fractions * 2 ^ s) * den := by
        refine Nat.mul_lt_mul_of_pos_right ?_ hden
        unfold twiceMidpoint
        rw [hc, hunits]
        omega
      rw [hflat] at hmul
      omega
    · have hpos : m ≠ 0 := by
        have := fractions_pos
        rcases hfull with rfl | hle <;> omega
      obtain ⟨n, rfl⟩ := Nat.exists_eq_add_one_of_ne_zero hpos
      obtain rfl : c = s * fractions + n := by omega
      rw [twiceMidpoint_of_shift (by omega) (by omega), hmid, mod_two_of_shift]
      exact hlow n rfl
  · intro _
    rcases Nat.lt_or_ge m (2 * fractions) with hlt | hge
    · rw [twiceMidpoint_of_shift hfull hlt, hmid, mod_two_of_shift]
      exact ⟨hhigh, htie⟩
    · -- At the next exponent the steps are longer, and the fraction lies below the code itself.
      obtain rfl : m = 2 * fractions := by omega
      have hmul : 2 * (2 * fractions * 2 ^ s) * den
          ≤ twiceMidpoint (s * fractions + 2 * fractions) * den := by
        refine Nat.mul_le_mul_right _ ?_
        have hlt := units_lt_units (Nat.lt_add_one (s * fractions + 2 * fractions))
        unfold twiceMidpoint
        rw [hunits] at hlt ⊢
        omega
      rw [hflat] at hmul
      omega

/-- A fraction lies between the midpoints of the code that it is rounded to. -/
theorem between_nearestCode (num : Nat) {den : Nat} (hden : 0 < den) :
    Between num den (nearestCode num den) := by
  have hlower : (num / den).log2 - 52 = 0 ∨ 2 ^ (52 + ((num / den).log2 - 52)) * den ≤ num := by
    rcases Nat.eq_zero_or_pos ((num / den).log2 - 52) with hzero | hpos
    · exact Or.inl hzero
    · have hne : num / den ≠ 0 := by
        intro h
        rw [h, Nat.log2_zero] at hpos
        omega
      refine Or.inr ((Nat.le_div_iff_mul_le hden).1 ?_)
      rw [show 52 + ((num / den).log2 - 52) = (num / den).log2 by omega]
      exact Nat.log2_self_le hne
  have hupper : num < 2 ^ (53 + ((num / den).log2 - 52)) * den := by
    refine (Nat.div_lt_iff_lt_mul hden).1 (lt_of_lt_of_le Nat.lt_log2_self ?_)
    exact Nat.pow_le_pow_right Nat.two_pos (by omega)
  have hbetween := between_of_shift num hden hlower hupper
  unfold nearestCode
  dsimp only
  rw [show Nat.pow 2 ((num / den).log2 - 52) = 2 ^ ((num / den).log2 - 52) from rfl]
  generalize ((num / den).log2 - 52) * fractions
    + divNearest num (den * 2 ^ ((num / den).log2 - 52)) = code at hbetween
  rcases Nat.lt_or_ge infinityCode code with hlt | hle
  · -- Beyond infinity the fraction lies above the last midpoint all the more.
    rw [Nat.min_eq_left hlt.le]
    refine ⟨fun c hc => ?_, fun h => absurd h (lt_irrefl _)⟩
    obtain ⟨habove, -⟩ := hbetween.above (code - 1) (by omega)
    have hmul : twiceMidpoint c * den < twiceMidpoint (code - 1) * den :=
      Nat.mul_lt_mul_of_pos_right (twiceMidpoint_lt (by omega)) hden
    omega
  · rw [Nat.min_eq_right hle]
    exact hbetween

/-- Of two fractions the larger one does not lie between the midpoints of a smaller code. -/
theorem Between.le_of_le {num den num' den' code code' : Nat} (hden : 0 < den) (hden' : 0 < den')
    (h : Between num den code) (h' : Between num' den' code') (hle : num * den' ≤ num' * den)
    (hcode : code ≤ infinityCode) : code ≤ code' := by
  by_contra hlt
  obtain ⟨c, rfl⟩ := Nat.exists_eq_add_one_of_ne_zero (show code ≠ 0 by omega)
  obtain ⟨habove, heven⟩ := h.above c rfl
  obtain ⟨hbelow, heven'⟩ := h'.below (by omega)
  -- Over the common denominator the midpoints lie as the codes do, which is the wrong way round.
  have hmid : twiceMidpoint code' * (den * den') ≤ twiceMidpoint c * (den * den') :=
    Nat.mul_le_mul_right _ (twiceMidpoint_le (by omega))
  have habove' : twiceMidpoint c * (den * den') ≤ 2 * (num * den') := by
    calc twiceMidpoint c * (den * den') = twiceMidpoint c * den * den' := by ring
      _ ≤ 2 * num * den' := Nat.mul_le_mul_right _ habove
      _ = 2 * (num * den') := by ring
  have hbelow' : 2 * (num' * den) ≤ twiceMidpoint code' * (den * den') := by
    calc 2 * (num' * den) = 2 * num' * den := by ring
      _ ≤ twiceMidpoint code' * den' * den := Nat.mul_le_mul_right _ hbelow
      _ = twiceMidpoint code' * (den * den') := by ring
  have hsame : c = code' := by
    by_contra hne
    have hstrict : twiceMidpoint code' * (den * den') < twiceMidpoint c * (den * den') :=
      Nat.mul_lt_mul_of_pos_right (twiceMidpoint_lt (by omega)) (Nat.mul_pos hden hden')
    omega
  subst hsame
  -- So both fractions are the midpoint between two neighbours, of which only one is even.
  have htie : twiceMidpoint c * den = 2 * num := by
    refine Nat.eq_of_mul_eq_mul_right hden' ?_
    rw [Nat.mul_assoc, Nat.mul_assoc]
    omega
  have htie' : 2 * num' = twiceMidpoint c * den' := by
    refine Nat.eq_of_mul_eq_mul_right hden ?_
    rw [Nat.mul_assoc, Nat.mul_assoc, Nat.mul_comm den' den]
    omega
  have := heven htie
  have := heven' htie'
  omega

/-- **A fraction is rounded to a code** just if it lies between the midpoints of the code. -/
theorem nearestCode_eq_iff {num den code : Nat} (hden : 0 < den) :
    nearestCode num den = code ↔ code ≤ infinityCode ∧ Between num den code := by
  have hbetween := between_nearestCode num hden
  have hle := nearestCode_le num den
  constructor
  · rintro rfl
    exact ⟨hle, hbetween⟩
  · rintro ⟨hcode, h⟩
    exact le_antisymm (hbetween.le_of_le hden hden h le_rfl hle)
      (h.le_of_le hden hden hbetween le_rfl hcode)

/-- **A larger fraction** is rounded to no smaller code. -/
theorem nearestCode_mono {num den num' den' : Nat} (hden : 0 < den) (hden' : 0 < den')
    (hle : num * den' ≤ num' * den) : nearestCode num den ≤ nearestCode num' den' :=
  (between_nearestCode num hden).le_of_le hden hden' (between_nearestCode num' hden') hle
    (nearestCode_le num den)

end Binary64

end Playground
