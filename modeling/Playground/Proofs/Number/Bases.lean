/-
# Whole numbers in another base

Digits in base 16, 8 or 2 are taken up one at a time, and each step rounds.  As long as the number so far
has 53 bits, a step is exact.  The step that goes beyond them rounds the leading digits, and no digit
behind them is enough to move the result.  So the number that is read is the nearest one to the leading
digits with zeros behind them, and not to the number that is spelled: where the leading digits lie
halfway between two numbers, and the lower one is even, what follows is lost.

* `Numeral.foldl_appendDigit` : the leading digits alone decide what is read.
* `Binary64.divNearest_append` : how a tail behind the leading digits changes what is nearest.
* `Binary64.read?_based_exact` : digits in a base and in base ten are read as the same number, except
  where the leading digits end halfway above an even number.
-/
import Mathlib.Data.Nat.Digits.Defs
import Playground.Proofs.Number.NumeralGrammar

namespace Playground

/-! ## Spellings -/

namespace Numeral

/-- The text `s` spells `n` in base 16, 8 or 2: digits behind a zero and the mark of the base. -/
def Spells (base n : Nat) (s : Text) : Prop :=
  ∃ mark digits values, s = '0' :: mark :: digits ∧ digits ≠ [] ∧ baseOf? mark = some base
    ∧ digits.mapM (Text.digitIn base) = some values ∧ Nat.ofDigits base values.reverse = n

/-- The leading digits of `n`, as many as just go beyond 53 bits, are the number
`(4 * half + 1) * 2 ^ step` halfway between two numbers of 53 bits, of which the lower one is even; and
behind them stand `place` more digits that are not all zero. -/
def IsCutShort (base n : Nat) : Prop :=
  ∃ half step place tail, n = (4 * half + 1) * 2 ^ step * base ^ place + tail
    ∧ 2 ^ 51 ≤ half ∧ half < 2 ^ 52 ∧ 2 ^ step < base ∧ 0 < tail ∧ tail < base ^ place

/-- The number `n` in base `2 ^ k` is `lead` with `places` digits behind, which make up `tail`.  No
digit stands behind unless `lead` has more than 53 bits. -/
structure IsLead (k n lead places tail : Nat) : Prop where
  /-- The number by its two parts. -/
  eq : n = lead * 2 ^ (k * places) + tail
  /-- The digits behind make up less than one of the last leading digit. -/
  tail_lt : tail < 2 ^ (k * places)
  /-- One digit less would leave 53 bits. -/
  lead_lt : lead < 2 ^ 53 * 2 ^ k
  /-- Beyond 53 bits no further digit leads. -/
  full : places = 0 ∨ 2 ^ 53 ≤ lead

end Numeral

namespace Binary64

/-! ## Codes that are moved by powers of two -/

theorem shift_add {code : Nat} (h : fractions ≤ code) (t : Nat) :
    shift (code + t * fractions) = shift code + t := by
  have hdiv : 1 ≤ code / fractions := (Nat.one_le_div_iff fractions_pos).2 h
  unfold shift
  rw [Nat.add_mul_div_right _ _ fractions_pos]
  omega

/-- With a full significand each exponent further on doubles the units. -/
theorem units_add {code : Nat} (h : fractions ≤ code) (t : Nat) :
    units (code + t * fractions) = units code * 2 ^ t := by
  have hsig : significand (code + t * fractions) = significand code := by
    have hmul := Nat.add_mul (shift code) t fractions
    unfold significand
    rw [shift_add h]
    omega
  rw [units_eq, units_eq, hsig, shift_add h, pow_add, Nat.mul_assoc]

/-- A significand of 53 bits at any power of two is the count of units of a code. -/
theorem exists_units_eq {m : Nat} (hm : m ≤ 2 * fractions) (t : Nat) :
    ∃ code, units code = m * 2 ^ t := by
  induction t generalizing m with
  | zero => exact ⟨0 * fractions + m, units_of_shift (Or.inl rfl) hm⟩
  | succ t ih =>
    rcases Nat.lt_or_ge m fractions with hlt | hge
    · obtain ⟨code, hcode⟩ := ih (m := 2 * m) (by omega)
      refine ⟨code, ?_⟩
      rw [hcode]
      ring
    · exact ⟨(t + 1) * fractions + m, units_of_shift (Or.inr hge) hm⟩

/-- What lies less than half a step above a code is rounded to the code, and to infinity beyond it. -/
theorem nearestCode_add {code extra : Nat} (h : 2 * extra < 2 ^ shift code) :
    nearestCode (units code + extra) 1 = min infinityCode code := by
  rcases Nat.lt_or_ge code infinityCode with hlt | hge
  · rw [Nat.min_eq_right hlt.le]
    refine nearestCode_eq_of_close Nat.one_pos hlt ?_ ?_ fun _ => ?_ <;> omega
  · rw [Nat.min_eq_left hge, nearestCode_eq_iff Nat.one_pos]
    refine ⟨le_rfl, fun c hc => ?_, fun hlt => absurd hlt (lt_irrefl _)⟩
    have hmid : twiceMidpoint c < 2 * (units code + extra) := by
      have hlow : units c < units code := units_lt_units (by omega)
      have hhigh : units (c + 1) ≤ units code := units_le_units (by omega)
      unfold twiceMidpoint
      omega
    rw [Nat.mul_one]
    exact ⟨hmid.le, fun heq => absurd heq hmid.ne⟩

theorem nearestCode_units_eq_min (code : Nat) :
    nearestCode (units code) 1 = min infinityCode code := by
  have hexact : 2 * 0 < 2 ^ shift code := by positivity
  have hround := nearestCode_add hexact
  rwa [Nat.add_zero] at hround

/-- A number of 53 bits at a power of two has an exact code. -/
theorem units_nearestCode {m t : Nat} (hm : m ≤ 2 ^ 53) (ht : t ≤ 2045) :
    units (nearestCode (m * 2 ^ t) 1) = m * 2 ^ t := by
  have hinfinity : units infinityCode = 2 ^ 53 * 2 ^ 2045 := by decide +kernel
  generalize 2045 = top at ht hinfinity
  obtain ⟨code, hcode⟩ := exists_units_eq (show m ≤ 2 * fractions by rw [fractions_eq]; omega) t
  have hle : code ≤ infinityCode := by
    by_contra h
    have hlt := units_lt_units (not_le.1 h)
    have hmul : m * 2 ^ t ≤ 2 ^ 53 * 2 ^ top :=
      Nat.mul_le_mul hm (Nat.pow_le_pow_right Nat.two_pos ht)
    rw [hinfinity, hcode] at hlt
    exact absurd hmul (not_le.2 hlt)
  rw [← hcode, nearestCode_units_eq_min, Nat.min_eq_right hle]

/-- The code of a fraction with a full significand, moved by a power of two. -/
theorem nearestCode_mul_two_pow {num den s : Nat} (hden : 0 < den) (hlow : 2 ^ (52 + s) * den ≤ num)
    (hhigh : num < 2 ^ (53 + s) * den) (t : Nat) :
    nearestCode (num * 2 ^ t) den
      = min infinityCode ((s + t) * fractions + divNearest num (den * 2 ^ s)) := by
  have hlow' : 2 ^ (52 + s + t) * den ≤ num * 2 ^ t := by
    have hmul := Nat.mul_le_mul_right (2 ^ t) hlow
    rwa [Nat.mul_right_comm, ← pow_add] at hmul
  have hhigh' : num * 2 ^ t < 2 ^ (52 + s + t + 1) * den := by
    have hmul := Nat.mul_lt_mul_of_pos_right hhigh (show 0 < 2 ^ t by positivity)
    rwa [Nat.mul_right_comm, ← pow_add, show 53 + s + t = 52 + s + t + 1 by omega] at hmul
  have hlog : (num * 2 ^ t / den).log2 - 52 = s + t := by
    have hle := log2_div_le hden hhigh'
    have hge := le_log2_div hden hlow'
    omega
  unfold nearestCode
  dsimp only
  rw [hlog, show Nat.pow 2 (s + t) = 2 ^ s * 2 ^ t from pow_add 2 s t, ← Nat.mul_assoc,
    divNearest_mul_right _ _ (by positivity)]

end Binary64

/-- **A tail behind the leading digits** changes which whole number is nearest only where the leading
digits lie halfway above an even one. -/
theorem divNearest_append {den tail : Nat} (h : tail < den) (lead t : Nat) :
    divNearest (lead * den + tail) (den * 2 ^ (t + 1)) = divNearest lead (2 ^ (t + 1))
      + if lead % 2 ^ (t + 1) = 2 ^ t ∧ lead / 2 ^ (t + 1) % 2 = 0 ∧ 0 < tail then 1 else 0 := by
  have hden : 0 < den := by omega
  have hdiv : (lead * den + tail) / den = lead := by
    rw [Nat.add_comm, Nat.add_mul_div_right _ _ hden, Nat.div_eq_of_lt h, Nat.zero_add]
  have hmod : (lead * den + tail) % den = tail := by
    rw [Nat.add_comm, Nat.add_mul_mod_self_right, Nat.mod_eq_of_lt h]
  have hquotient : (lead * den + tail) / (den * 2 ^ (t + 1)) = lead / 2 ^ (t + 1) := by
    rw [← Nat.div_div_eq_div_mul, hdiv]
  have hrest : (lead * den + tail) % (den * 2 ^ (t + 1)) = tail + den * (lead % 2 ^ (t + 1)) := by
    rw [Nat.mod_mul, hdiv, hmod]
  have hhalf : den * 2 ^ (t + 1) = 2 * (den * 2 ^ t) := by ring
  unfold divNearest
  dsimp only
  rw [hquotient, hrest, hhalf, pow_succ']
  generalize lead / (2 * 2 ^ t) = quotient
  generalize lead % (2 * 2 ^ t) = rest
  generalize 2 ^ t = half
  rcases lt_trichotomy rest half with hlt | rfl | hgt
  · -- A tail does not fill up what lacks to a half.
    have hmul : den * (rest + 1) ≤ den * half := Nat.mul_le_mul_left _ hlt
    rw [Nat.mul_add] at hmul
    rw [if_pos (by omega), if_pos (by omega), if_neg (by omega), Nat.add_zero]
  · -- On a half itself any tail is enough.
    have hparity := Nat.mod_two_eq_zero_or_one quotient
    split_ifs <;> omega
  · have hmul : den * (half + 1) ≤ den * rest := Nat.mul_le_mul_left _ hgt
    rw [Nat.mul_add] at hmul
    rw [if_neg (by omega), if_pos (by omega), if_neg (by omega), if_pos (by omega),
      if_neg (by omega), Nat.add_zero]

/-! ## Taking up digits -/

namespace Numeral

open Binary64

/-- The units of one are a power of two, whose exponent is named so that it is not evaluated. -/
theorem exists_unitsPerOne_eq : ∃ one, one = 1074 ∧ unitsPerOne = 2 ^ one := by
  refine ⟨_, rfl, ?_⟩
  unfold unitsPerOne
  generalize 1074 = one
  rfl

/-- Up to 53 bits the product is exact, and a digit is taken up with one rounding. -/
theorem appendDigit_of_small {k m : Nat} (hm : m ≤ 2 ^ 53) (hk : k ≤ 4) (digit : Nat) :
    appendDigit (2 ^ k) (nearestCode (m * unitsPerOne) 1) digit
      = nearestCode ((digit + 2 ^ k * m) * unitsPerOne) 1 := by
  obtain ⟨one, hone, hunits⟩ := exists_unitsPerOne_eq
  have hexact := units_nearestCode (t := one) hm (by omega)
  have hproduct := units_nearestCode (t := one + k) hm (by omega)
  have hsum : m * 2 ^ (one + k) + digit * 2 ^ one = (digit + 2 ^ k * m) * 2 ^ one := by ring
  rw [appendDigit, hunits, hexact, Nat.mul_assoc, ← pow_add, hproduct, hsum]

/-- Beyond 53 bits no digit is enough to move the product, and a digit is taken up as a zero. -/
theorem appendDigit_of_large {k code digit : Nat} (hk : k ≤ 4) (hcode : 1076 * fractions ≤ code)
    (hdigit : digit < 2 ^ k) :
    appendDigit (2 ^ k) (min infinityCode code) digit
      = min infinityCode (code + k * fractions) := by
  have hinfinity : infinityCode = 2047 * fractions := rfl
  have hproduct : nearestCode (units (min infinityCode code) * 2 ^ k) 1
      = min infinityCode (code + k * fractions) := by
    rw [← units_add (by omega), nearestCode_units_eq_min]
    omega
  have hlarge : (1076 + k) * fractions ≤ min infinityCode (code + k * fractions) := by
    have hmul := Nat.mul_le_mul_right fractions hk
    rw [Nat.add_mul, hinfinity]
    omega
  have hmin : min infinityCode (min infinityCode (code + k * fractions))
      = min infinityCode (code + k * fractions) := by omega
  generalize min infinityCode (code + k * fractions) = product at hproduct hlarge hmin ⊢
  have hshift : 1074 + 1 + k ≤ shift product := by
    have hmono := shift_mono hlarge
    rw [shift, Nat.mul_div_cancel _ fractions_pos] at hmono
    omega
  obtain ⟨one, hone, hunits⟩ := exists_unitsPerOne_eq
  rw [← hone] at hshift
  have hsmall : 2 * (digit * 2 ^ one) < 2 ^ shift product := by
    calc 2 * (digit * 2 ^ one) < 2 * (2 ^ k * 2 ^ one) :=
          Nat.mul_lt_mul_of_pos_left (Nat.mul_lt_mul_of_pos_right hdigit (by positivity)) Nat.two_pos
      _ = 2 ^ (one + 1 + k) := by ring
      _ ≤ 2 ^ shift product := Nat.pow_le_pow_right Nat.two_pos hshift
  rw [appendDigit, hunits, hproduct, nearestCode_add hsmall, hmin]

/-- **The leading digits alone** decide what is read: they are rounded, and zeros stand for the digits
behind them. -/
theorem foldl_appendDigit {k : Nat} (hk : k ≤ 4) {values : List Nat} (h : ∀ d ∈ values, d < 2 ^ k) :
    ∃ lead places tail, IsLead k (Nat.ofDigits (2 ^ k) values.reverse) lead places tail
      ∧ values.foldl (appendDigit (2 ^ k)) 0
        = min infinityCode (nearestCode (lead * unitsPerOne) 1 + k * places * fractions) := by
  induction values using List.reverseRecOn with
  | nil =>
    refine ⟨0, 0, 0, ⟨by simp, by simp, by positivity, Or.inl rfl⟩, ?_⟩
    rw [List.foldl_nil, Nat.zero_mul, Nat.mul_zero, Nat.zero_mul]
    decide
  | append_singleton values digit ih =>
    obtain ⟨lead, places, tail, hlead, hfold⟩ := ih fun d hd => h d (List.mem_append_left _ hd)
    have hdigit := h digit (List.mem_append_right _ List.mem_cons_self)
    obtain ⟨hn, htail, hlt, hfull⟩ := hlead
    rw [List.foldl_append, hfold, List.foldl_cons, List.foldl_nil, List.reverse_append,
      List.reverse_singleton, List.singleton_append, Nat.ofDigits_cons, hn]
    rcases Nat.lt_or_ge lead (2 ^ 53) with hsmall | hlarge
    · -- The number so far has 53 bits, and the digit leads too.
      obtain rfl := hfull.resolve_right (by omega)
      rw [Nat.mul_zero, pow_zero] at htail ⊢
      obtain rfl : tail = 0 := by omega
      have hmul : 2 ^ k * (lead + 1) ≤ 2 ^ k * 2 ^ 53 := Nat.mul_le_mul_left _ hsmall
      rw [Nat.mul_add] at hmul
      refine ⟨digit + 2 ^ k * lead, 0, 0, ⟨by simp, by simp, by omega, Or.inl rfl⟩, ?_⟩
      have hle := nearestCode_le (lead * unitsPerOne) 1
      have hle' := nearestCode_le ((digit + 2 ^ k * lead) * unitsPerOne) 1
      rw [Nat.zero_mul, Nat.add_zero, Nat.min_eq_right hle, appendDigit_of_small hsmall.le hk,
        Nat.mul_zero, Nat.zero_mul, Nat.add_zero, Nat.min_eq_right hle']
    · -- Leading digits beyond 53 bits stay, and one more digit stands behind them.
      have hmul : 2 ^ k * (tail + 1) ≤ 2 ^ k * 2 ^ (k * places) := Nat.mul_le_mul_left _ htail
      have hplaces : 2 ^ (k * (places + 1)) = 2 ^ k * 2 ^ (k * places) := by ring
      rw [Nat.mul_add] at hmul
      refine ⟨lead, places + 1, digit + 2 ^ k * tail, ⟨?_, by omega, hlt, Or.inr hlarge⟩, ?_⟩
      · rw [hplaces]
        ring
      · have hcode : 1076 * fractions ≤ nearestCode (lead * unitsPerOne) 1 := by
          have hleast : nearestCode (2 ^ 53 * unitsPerOne) 1 = 1076 * fractions := by decide +kernel
          rw [← hleast]
          refine nearestCode_mono Nat.one_pos Nat.one_pos ?_
          rw [Nat.mul_one, Nat.mul_one]
          exact Nat.mul_le_mul_right _ hlarge
        rw [appendDigit_of_large hk (hcode.trans (Nat.le_add_right _ _)) hdigit, Nat.add_assoc,
          ← Nat.add_mul, ← Nat.mul_succ]

/-! ## What the leading digits leave out -/

section Lead

variable {k n lead places tail lead' places' tail' : Nat}

theorem IsLead.places_le (h : IsLead k n lead places tail) (h' : IsLead k n lead' places' tail')
    (hlarge : 2 ^ 53 ≤ lead) : places ≤ places' := by
  by_contra hlt
  have hpow : 2 ^ (k * (places' + 1)) ≤ 2 ^ (k * places) :=
    Nat.pow_le_pow_right Nat.two_pos (Nat.mul_le_mul_left k (not_le.1 hlt))
  have habove : 2 ^ 53 * 2 ^ (k * places) ≤ n := by
    have hmul := Nat.mul_le_mul_right (2 ^ (k * places)) hlarge
    have heq := h.eq
    omega
  have hbelow : n < 2 ^ 53 * 2 ^ (k * (places' + 1)) := by
    have hmul := Nat.mul_le_mul_right (2 ^ (k * places')) (show lead' + 1 ≤ _ from h'.lead_lt)
    have heq := h'.eq
    have htail := h'.tail_lt
    have hring : 2 ^ 53 * 2 ^ k * 2 ^ (k * places') = 2 ^ 53 * 2 ^ (k * (places' + 1)) := by ring
    rw [Nat.add_mul] at hmul
    omega
  omega

theorem IsLead.div_eq (h : IsLead k n lead places tail) : n / 2 ^ (k * places) = lead := by
  rw [h.eq, Nat.add_comm, Nat.add_mul_div_right _ _ (by positivity), Nat.div_eq_of_lt h.tail_lt,
    Nat.zero_add]

/-- Beyond 53 bits a number has its leading digits in one way only. -/
theorem IsLead.unique (h : IsLead k n lead places tail) (h' : IsLead k n lead' places' tail')
    (hlarge : 2 ^ 53 ≤ lead) (hlarge' : 2 ^ 53 ≤ lead') : lead = lead' ∧ tail = tail' := by
  obtain rfl : places = places' :=
    le_antisymm (h.places_le h' hlarge) (h'.places_le h hlarge')
  obtain rfl : lead = lead' := h.div_eq.symm.trans h'.div_eq
  exact ⟨rfl, Nat.add_left_cancel (h.eq.symm.trans h'.eq)⟩

/-- A number that is cut short has more than 53 bits. -/
theorem IsCutShort.le {base : Nat} (h : IsCutShort base n) : 2 ^ 53 ≤ n := by
  obtain ⟨half, step, place, tail, rfl, hlow, -, -, hpos, hlt⟩ := h
  have hstep : 1 ≤ 2 ^ step := Nat.one_le_two_pow
  have hplace : 1 ≤ base ^ place := by omega
  calc 2 ^ 53 ≤ (4 * half + 1) * 1 * 1 := by omega
    _ ≤ (4 * half + 1) * 2 ^ step * base ^ place :=
        Nat.mul_le_mul (Nat.mul_le_mul_left _ hstep) hplace
    _ ≤ _ := Nat.le_add_right _ _

/-- What is rounded when a number is cut short are its leading digits. -/
theorem isLead_halfway {half step place rest : Nat}
    (hn : n = (4 * half + 1) * 2 ^ step * (2 ^ k) ^ place + rest) (hrest : rest < (2 ^ k) ^ place)
    (hlow : 2 ^ 51 ≤ half) (hhigh : half < 2 ^ 52) (hstep : 2 ^ step < 2 ^ k) :
    IsLead k n ((4 * half + 1) * 2 ^ step) place rest ∧ 2 ^ (53 + step) ≤ (4 * half + 1) * 2 ^ step
      ∧ (4 * half + 1) * 2 ^ step < 2 ^ (54 + step) := by
  have hstep' : step < k := (Nat.pow_lt_pow_iff_right (by decide)).1 hstep
  have hbelow : 2 ^ (53 + step) ≤ (4 * half + 1) * 2 ^ step := by
    rw [pow_add]
    exact Nat.mul_le_mul_right _ (by omega)
  have habove : (4 * half + 1) * 2 ^ step < 2 ^ (54 + step) := by
    rw [pow_add]
    exact Nat.mul_lt_mul_of_pos_right (by omega) (by positivity)
  refine ⟨⟨by rw [pow_mul]; exact hn, by rw [pow_mul]; exact hrest, habove.trans_le ?_, Or.inr ?_⟩,
    hbelow, habove⟩
  · rw [← pow_add]
    exact Nat.pow_le_pow_right Nat.two_pos (by omega)
  · exact le_trans (Nat.pow_le_pow_right Nat.two_pos (by omega)) hbelow

/-- What is left of the leading digits has 53 bits. -/
theorem quotient_bounds {t : Nat} (hlow : 2 ^ (53 + t) ≤ lead) (hhigh : lead < 2 ^ (54 + t)) :
    fractions ≤ lead / 2 ^ (t + 1) ∧ lead / 2 ^ (t + 1) < 2 * fractions := by
  rw [fractions_eq, Nat.le_div_iff_mul_le (by positivity), Nat.div_lt_iff_lt_mul (by positivity),
    ← pow_add, ← pow_succ', ← pow_add, show 52 + (t + 1) = 53 + t by omega,
    show 52 + 1 + (t + 1) = 54 + t by omega]
  exact ⟨hlow, hhigh⟩

/-- Whether a number is cut short, by its leading digits. -/
theorem isCutShort_iff (h : IsLead k n lead places tail) {t : Nat} (hlow : 2 ^ (53 + t) ≤ lead)
    (hhigh : lead < 2 ^ (54 + t)) : IsCutShort (2 ^ k) n
      ↔ lead % 2 ^ (t + 1) = 2 ^ t ∧ lead / 2 ^ (t + 1) % 2 = 0 ∧ 0 < tail := by
  have hpos : 0 < 2 ^ t := by positivity
  have hlarge : 2 ^ 53 ≤ lead := le_trans (Nat.pow_le_pow_right Nat.two_pos (by omega)) hlow
  constructor
  · rintro ⟨half, step, place, rest, hn, hlow', hhigh', hstep, hrest, hlt⟩
    obtain ⟨hlead, hbelow, habove⟩ := isLead_halfway hn hlt hlow' hhigh' hstep
    have hlarge' : 2 ^ 53 ≤ (4 * half + 1) * 2 ^ step :=
      le_trans (Nat.pow_le_pow_right Nat.two_pos (by omega)) hbelow
    obtain ⟨heq, rfl⟩ := h.unique hlead hlarge hlarge'
    rw [← heq] at hbelow habove
    have hsame : step = t := by
      have hle := (Nat.pow_lt_pow_iff_right (by decide)).1 (hlow.trans_lt habove)
      have hge := (Nat.pow_lt_pow_iff_right (by decide)).1 (hbelow.trans_lt hhigh)
      omega
    subst hsame
    have hparts : lead = 2 ^ step + 2 ^ (step + 1) * (2 * half) := by
      rw [heq]
      ring
    have hhalf : 2 ^ step < 2 ^ (step + 1) := Nat.pow_lt_pow_right (by decide) (Nat.lt_succ_self _)
    refine ⟨?_, ?_, hrest⟩
    · rw [hparts, Nat.add_mul_mod_self_left, Nat.mod_eq_of_lt hhalf]
    · rw [hparts, Nat.add_mul_div_left _ _ (by positivity), Nat.div_eq_of_lt hhalf]
      omega
  · rintro ⟨hhalf, heven, htail⟩
    have hparts := Nat.div_add_mod' lead (2 ^ (t + 1))
    have hk : t + 1 ≤ k := by
      have hlt := hlow.trans_lt h.lead_lt
      rw [pow_add] at hlt
      exact (Nat.pow_lt_pow_iff_right (by decide)).1 (Nat.lt_of_mul_lt_mul_left hlt)
    have hquotient := quotient_bounds hlow hhigh
    rw [fractions_eq] at hquotient
    refine ⟨lead / 2 ^ (t + 1) / 2, t, places, tail, ?_, by omega, by omega,
      Nat.pow_lt_pow_right (by decide) hk, htail, by rw [← pow_mul]; exact h.tail_lt⟩
    have hlead : lead = (4 * (lead / 2 ^ (t + 1) / 2) + 1) * 2 ^ t := by
      generalize lead / 2 ^ (t + 1) = quotient at hparts heven
      obtain ⟨half, rfl⟩ : ∃ half, quotient = 2 * half := ⟨quotient / 2, by omega⟩
      rw [← hparts, hhalf, Nat.mul_div_cancel_left _ Nat.two_pos]
      ring
    rw [← pow_mul, ← hlead]
    exact h.eq

theorem IsLead.bounds (h : IsLead k n lead places tail) {t : Nat} (hlow : 2 ^ (53 + t) ≤ lead)
    (hhigh : lead < 2 ^ (54 + t)) :
    2 ^ (53 + t) * 2 ^ (k * places) ≤ n ∧ n < 2 ^ (54 + t) * 2 ^ (k * places) := by
  have hmul := Nat.mul_le_mul_right (2 ^ (k * places)) (show lead + 1 ≤ 2 ^ (54 + t) from hhigh)
  have htail := h.tail_lt
  rw [Nat.add_mul] at hmul
  rw [h.eq]
  exact ⟨(Nat.mul_le_mul_right _ hlow).trans (Nat.le_add_right _ _), by omega⟩

/-- Both numbers that are rounded have the exponent of the leading digits. -/
theorem IsLead.nearestCode_eq (h : IsLead k n lead places tail) {t : Nat}
    (hlow : 2 ^ (53 + t) ≤ lead) (hhigh : lead < 2 ^ (54 + t)) :
    nearestCode (lead * unitsPerOne) 1
        = min infinityCode ((t + 1 + 1074) * fractions + divNearest lead (2 ^ (t + 1)))
      ∧ nearestCode (n * unitsPerOne) 1 = min infinityCode ((t + 1 + (1074 + k * places)) * fractions
        + divNearest n (2 ^ (k * places) * 2 ^ (t + 1))) := by
  have hplaces : 0 < 2 ^ (k * places) := by positivity
  obtain ⟨hbelow, habove⟩ := h.bounds hlow hhigh
  rw [show 53 + t = 52 + (t + 1) by omega] at hlow hbelow
  rw [show 54 + t = 53 + (t + 1) by omega] at hhigh habove
  obtain ⟨one, hone, hunits⟩ := exists_unitsPerOne_eq
  rw [hunits, ← hone]
  constructor
  · rw [nearestCode_mul_two_pow Nat.one_pos (by rwa [Nat.mul_one]) (by rwa [Nat.mul_one]),
      Nat.one_mul]
  · rw [← nearestCode_mul_right (n * 2 ^ one) 1 hplaces, Nat.one_mul, Nat.mul_assoc, ← pow_add,
      nearestCode_mul_two_pow hplaces hbelow habove]

/-- The number is finite just if its exponent is. -/
theorem IsLead.lt_iff (h : IsLead k n lead places tail) {t : Nat} (hlow : 2 ^ (53 + t) ≤ lead)
    (hhigh : lead < 2 ^ (54 + t)) : n < 2 ^ 1024 ↔ t + 1 + 1074 + k * places ≤ 2045 := by
  obtain ⟨hbelow, habove⟩ := h.bounds hlow hhigh
  rw [← pow_add] at hbelow habove
  generalize htop : 1024 = top
  constructor
  · intro hlt
    have := (Nat.pow_lt_pow_iff_right (by decide)).1 (hbelow.trans_lt hlt)
    omega
  · intro hle
    exact habove.trans_le (Nat.pow_le_pow_right Nat.two_pos (by omega))

theorem min_infinityCode_add (a b q : Nat) :
    min infinityCode (min infinityCode (a * fractions + q) + b * fractions)
      = min infinityCode ((a + b) * fractions + q) := by
  rw [Nat.add_mul]
  omega

/-- Of two numbers next to each other with the same exponent both are finite. -/
theorem min_infinityCode_succ {a q : Nat} (ha : a ≤ 2045) (hq : q < 2 * fractions) :
    min infinityCode (a * fractions + (q + 1)) = min infinityCode (a * fractions + q) + 1 := by
  have hmul := Nat.mul_le_mul_right fractions ha
  have hinfinity : infinityCode = 2047 * fractions := rfl
  omega

/-- Or else none of them is. -/
theorem min_infinityCode_of_le {a q : Nat} (ha : 2046 ≤ a) (hq : fractions ≤ q) :
    min infinityCode (a * fractions + q) = infinityCode := by
  have hmul := Nat.mul_le_mul_right fractions ha
  have hinfinity : infinityCode = 2047 * fractions := rfl
  omega

/-- Halfway above an even number the even one is nearest. -/
theorem divNearest_halfway {t : Nat} (hhalf : lead % 2 ^ (t + 1) = 2 ^ t)
    (heven : lead / 2 ^ (t + 1) % 2 = 0) : divNearest lead (2 ^ (t + 1)) = lead / 2 ^ (t + 1) := by
  have hpow : 2 ^ (t + 1) = 2 * 2 ^ t := pow_succ' 2 t
  unfold divNearest
  dsimp only
  rw [hhalf, heven, if_neg (by omega), if_neg (by omega), Nat.add_zero]

/-- **What the leading digits leave out**: the number that is nearest to the whole number is the one
that is read, or the next one if the number is cut short. -/
theorem nearestCode_of_isLead (h : IsLead k n lead places tail) :
    (¬ (IsCutShort (2 ^ k) n ∧ n < 2 ^ 1024) → nearestCode (n * unitsPerOne) 1
      = min infinityCode (nearestCode (lead * unitsPerOne) 1 + k * places * fractions))
    ∧ (IsCutShort (2 ^ k) n ∧ n < 2 ^ 1024 → nearestCode (n * unitsPerOne) 1
      = min infinityCode (nearestCode (lead * unitsPerOne) 1 + k * places * fractions) + 1) := by
  rcases Nat.lt_or_ge lead (2 ^ 53) with hsmall | hlarge
  · -- Up to 53 bits all digits lead.
    obtain rfl := h.full.resolve_right (by omega)
    obtain rfl : n = lead := by
      have heq := h.eq
      have htail := h.tail_lt
      rw [Nat.mul_zero, pow_zero] at heq htail
      omega
    refine ⟨fun _ => ?_, fun hcut => absurd hcut.1.le (not_le.2 hsmall)⟩
    rw [Nat.mul_zero, Nat.zero_mul, Nat.add_zero, Nat.min_eq_right (nearestCode_le _ _)]
  · obtain ⟨t, hlog⟩ : ∃ t, lead.log2 = 53 + t :=
      Nat.exists_eq_add_of_le ((Nat.le_log2 (by omega)).2 hlarge)
    have hlow : 2 ^ (53 + t) ≤ lead := hlog ▸ Nat.log2_self_le (by omega)
    have hhigh : lead < 2 ^ (54 + t) := by
      have hlt := Nat.lt_log2_self (n := lead)
      rwa [hlog, show 53 + t + 1 = 54 + t by omega] at hlt
    have hround := divNearest_append h.tail_lt lead t
    rw [← h.eq] at hround
    by_cases hcut : IsCutShort (2 ^ k) n
    · -- The number above the one that is read is nearest, if both are finite.
      have hparts := (isCutShort_iff h hlow hhigh).1 hcut
      obtain ⟨hfull, hbelow⟩ := quotient_bounds hlow hhigh
      rw [if_pos hparts, divNearest_halfway hparts.1 hparts.2.1] at hround
      obtain ⟨hread, hnearest⟩ := h.nearestCode_eq hlow hhigh
      rw [← Nat.add_assoc (t + 1)] at hnearest
      rw [hread, hnearest, hround, divNearest_halfway hparts.1 hparts.2.1, min_infinityCode_add,
        h.lt_iff hlow hhigh]
      refine ⟨fun hnot => ?_, fun hle => min_infinityCode_succ hle.2 hbelow⟩
      have hover : 2046 ≤ t + 1 + 1074 + k * places := not_le.1 fun hle => hnot ⟨hcut, hle⟩
      rw [min_infinityCode_of_le hover hfull,
        min_infinityCode_of_le hover (Nat.le_succ_of_le hfull)]
    · rw [if_neg (mt (isCutShort_iff h hlow hhigh).2 hcut)] at hround
      obtain ⟨hread, hnearest⟩ := h.nearestCode_eq hlow hhigh
      rw [← Nat.add_assoc (t + 1)] at hnearest
      rw [hread, hnearest, hround, min_infinityCode_add]
      exact ⟨fun _ => rfl, fun h => absurd h.1 hcut⟩

end Lead

/-! ## Reading a spelling -/

theorem lt_of_mem_mapM {base : Nat} {digits : Text} {values : List Nat}
    (h : digits.mapM (Text.digitIn base) = some values) : ∀ d ∈ values, d < base := by
  induction digits generalizing values with
  | nil =>
    obtain rfl : [] = values := Option.some.inj h
    exact fun d hd => absurd hd List.not_mem_nil
  | cons c digits ih =>
    rw [List.mapM_cons] at h
    obtain ⟨d, hd, h⟩ := Option.bind_eq_some_iff.1 h
    obtain ⟨rest, hrest, h⟩ := Option.bind_eq_some_iff.1 h
    obtain rfl : d :: rest = values := Option.some.inj h
    rw [List.forall_mem_cons]
    exact ⟨(Text.digitIn_eq_some_iff.1 hd).1, ih hrest⟩

end Numeral

namespace Binary64

theorem ofUnits_mul_unitsPerOne (n : Nat) : ofUnits (n * unitsPerOne) 1 = n := by
  unfold ofUnits
  rw [Nat.cast_mul, Decimal.unitsPerOne_cast, Nat.cast_one, one_mul,
    mul_div_cancel_right₀ _ (by positivity)]

/-- Digits are read as the number nearest to what they denote. -/
theorem read?_of_isDigits {s : Text} (h : Text.isDigits s = true) :
    read? s = some (ofCode false (nearestCode (Text.toNat s * unitsPerOne) 1)) := by
  have hread := (SignedDigits.ofDigits h).read?_toText
  have hcode : (⟨Text.toNat s, 0⟩ : Decimal).nearestCode
      = nearestCode (Text.toNat s * unitsPerOne) 1 := by
    rw [Decimal.nearestCode_eq_fraction, Decimal.fraction]
    dsimp only
    rw [Int.toNat_zero, pow_zero, Nat.mul_one, neg_zero, Int.toNat_zero, pow_zero]
  rw [← hcode]
  exact hread

/-- The digits of a number are read as the number nearest to it. -/
theorem read?_ofNat (n : Nat) :
    read? (Text.ofNat n) = some (ofCode false (nearestCode (n * unitsPerOne) 1)) := by
  have hread := read?_of_isDigits (Text.isDigits_ofNat n)
  rwa [Text.toNat_ofNat] at hread

/-- **Digits in a base** are read as a number, and so are the digits in base ten of what they spell, as
the number nearest to it.  It is the same number, unless the leading digits in the base end halfway above
an even number and what follows them is lost; then digits in the base are read as the number below. -/
theorem read?_based_exact {base n : Nat} {s : Text} (h : Numeral.Spells base n s.trim) :
    ∃ x y, read? s = some x ∧ read? (Text.ofNat n) = some y ∧ IsNearest false n y
      ∧ (x = y ↔ ¬ (Numeral.IsCutShort base n ∧ n < 2 ^ 1024))
      ∧ (x ≠ y → y.code = x.code + 1) := by
  obtain ⟨mark, digits, values, hs, hne, hmark, hvalues, rfl⟩ := h
  obtain ⟨k, hk, rfl⟩ : ∃ k ≤ 4, base = 2 ^ k := by
    rcases Numeral.baseOf?_eq_some_iff.1 hmark with ⟨rfl, -⟩ | ⟨rfl, -⟩ | ⟨rfl, -⟩
    · exact ⟨4, by decide, rfl⟩
    · exact ⟨3, by decide, rfl⟩
    · exact ⟨1, by decide, rfl⟩
  obtain ⟨lead, places, tail, hlead, hfold⟩ :=
    Numeral.foldl_appendDigit hk (Numeral.lt_of_mem_mapM hvalues)
  obtain ⟨hsame, hnext⟩ := Numeral.nearestCode_of_isLead hlead
  have hread : read? s = some (ofCode false (values.foldl (Numeral.appendDigit (2 ^ k)) 0)) := by
    unfold read? Numeral.read?
    rw [hs, Numeral.readBased?_eq hmark hne, hvalues]
    rfl
  generalize Nat.ofDigits (2 ^ k) values.reverse = n at hlead hsame hnext ⊢
  have hnearest : IsNearest false n (ofCode false (nearestCode (n * unitsPerOne) 1)) := by
    have h := isNearest_nearestCode (n * unitsPerOne) Nat.one_pos false
    rwa [ofUnits_mul_unitsPerOne] at h
  have hle : values.foldl (Numeral.appendDigit (2 ^ k)) 0 ≤ infinityCode :=
    hfold ▸ Nat.min_le_left _ _
  refine ⟨_, _, hread, read?_ofNat n, hnearest, ?_⟩
  rw [← hfold] at hsame hnext
  have hcode := code_ofCode false (lt_signBit hle)
  have hcode' := code_ofCode false (lt_signBit (nearestCode_le (n * unitsPerOne) 1))
  by_cases hcut : Numeral.IsCutShort (2 ^ k) n ∧ n < 2 ^ 1024
  · have hne : ofCode false (values.foldl (Numeral.appendDigit (2 ^ k)) 0)
        ≠ ofCode false (nearestCode (n * unitsPerOne) 1) := by
      intro heq
      have hcodes := congrArg code heq
      rw [hcode, hcode', hnext hcut] at hcodes
      exact absurd hcodes (Nat.lt_succ_self _).ne
    refine ⟨⟨fun heq => absurd heq hne, fun hnot => absurd hcut hnot⟩, fun _ => ?_⟩
    rw [hcode, hcode', hnext hcut]
  · rw [hsame hcut]
    exact ⟨⟨fun _ => hcut, fun _ => rfl⟩, fun hne => absurd rfl hne⟩

/-- A small number is not cut short, whatever the case of its letters. -/
theorem read?_based_thirtyOne : ∃ x, read? " 0X1f".toList = some x ∧ read? (Text.ofNat 31) = some x
    ∧ IsNearest false 31 x := by
  have hspells : Numeral.Spells 16 31 (Text.trim " 0X1f".toList) :=
    ⟨'X', "1f".toList, [1, 15], by decide, by decide, rfl, by decide, by decide⟩
  obtain ⟨x, y, hx, hy, hnearest, hiff, -⟩ := read?_based_exact hspells
  obtain rfl := hiff.2 fun hcut => absurd hcut.1.le (by decide)
  exact ⟨x, hx, hy, hnearest⟩

/-- Not every number is read alike in all bases: `2 ^ 57 + 17` lies above the middle between `2 ^ 57`
and the next number, but its digits in base 16 without the last one lie on that middle. -/
theorem read?_based_cutShort : ¬ ∀ (base n : Nat) (s : Text), Numeral.Spells base n s →
    read? s = read? (Text.ofNat n) := by
  intro h
  have hread := h 16 (2 ^ 57 + 17) "0x200000000000011".toList
    ⟨'x', "200000000000011".toList, [2, 0, 0, 0, 0, 0, 0, 0, 0, 0, 0, 0, 0, 1, 1], by decide,
      by decide, rfl, by decide +kernel, by decide +kernel⟩
  revert hread
  decide +kernel

end Binary64

end Playground
