/-
# Counts of digits

The count of a repetition is given by digits, as many as one likes, and is read as a number of the
format.  Up to `2 ^ 53` it is the number that the digits denote.  Beyond, it is rounded, but to no less
than `2 ^ 53`, so that a limit which is not larger than that is passed by the rounded count just if it
is passed by the exact one.  Where the digits denote so much that they are read as infinity, the count is
refused, and the limit is not asked.

* `Binary64.wholePart_ofWhole` : whole numbers that are read as they are.
* `Binary64.wholePart_ofWhole_mono` : a larger whole number counts for no less.
* `Binary64.exceeds_iff` : the rounded count passes a limit just if the exact one does.
* `printAll_repetition_exact` : the print of a repetition under a limit.
-/
import Playground.Proofs.Number.Bases
import Playground.Proofs.OutputLimit

namespace Playground

namespace Binary64

/-! ## Whole numbers -/

/-- The number nearest to a whole one. -/
def ofWhole (n : Nat) : Binary64 := ofCode false (nearestCode (n * unitsPerOne) 1)

theorem meaning_ofCode_of_lt (negative : Bool) {code : Nat} (h : code < infinityCode) :
    (ofCode negative code).meaning = .finite negative (units code) := by
  have hsign := lt_signBit h.le
  unfold meaning
  rw [code_ofCode negative hsign, isNegative_ofCode negative hsign, if_pos h]

theorem wholePart_of_meaning {x : Binary64} {negative : Bool} {count : Nat}
    (h : x.meaning = .finite negative count) : x.wholePart = count / unitsPerOne := by
  unfold wholePart
  rw [h]

/-- Whole numbers from the bound on are infinite. -/
theorem ofWhole_eq_infinity {n : Nat} (h : overflowBound ≤ n) : ofWhole n = infinity false := by
  rw [← ofUnits_mul_unitsPerOne, ← nearestCode_eq_infinityCode_iff Nat.one_pos] at h
  rw [ofWhole, h, infinity]

/-- Below the bound they are finite, with the units of the nearest code. -/
theorem meaning_ofWhole {n : Nat} (h : (n : ℚ) < overflowBound) :
    (ofWhole n).meaning = .finite false (units (nearestCode (n * unitsPerOne) 1)) := by
  rw [← ofUnits_mul_unitsPerOne, ← nearestCode_lt_iff Nat.one_pos] at h
  exact meaning_ofCode_of_lt false h

/-- The bound lies beyond all whole numbers of 53 bits. -/
theorem lt_overflowBound {n : Nat} (hn : n ≤ 2 ^ 53) : (n : ℚ) < overflowBound := by
  have hcast : (n : ℚ) ≤ 2 ^ 53 := by exact_mod_cast hn
  have hpow : (2 : ℚ) ^ 1024 = 2 ^ 54 * 2 ^ 970 := by rw [← pow_add]
  have hstep : (1 : ℚ) ≤ 2 ^ 970 := one_le_pow₀ (by norm_num)
  unfold overflowBound
  rw [hpow]
  generalize (2 : ℚ) ^ 970 = step at hstep
  linarith

/-- **Whole numbers of 53 bits** are read as they are. -/
theorem wholePart_ofWhole {n : Nat} (hn : n ≤ 2 ^ 53) : (ofWhole n).wholePart = n := by
  obtain ⟨one, hone, hunits⟩ := Numeral.exists_unitsPerOne_eq
  have hexact := units_nearestCode (t := one) hn (by omega)
  have hmeaning := meaning_ofWhole (lt_overflowBound hn)
  rw [← hunits] at hexact
  rw [wholePart_of_meaning hmeaning, hexact, Nat.mul_div_cancel _ unitsPerOne_pos]

/-- **A larger whole number** counts for no less. -/
theorem wholePart_ofWhole_mono {m n : Nat} (hle : m ≤ n) (h : (n : ℚ) < overflowBound) :
    (ofWhole m).wholePart ≤ (ofWhole n).wholePart := by
  have hm : (m : ℚ) < overflowBound := lt_of_le_of_lt (Nat.cast_le.2 hle) h
  have hcode : nearestCode (m * unitsPerOne) 1 ≤ nearestCode (n * unitsPerOne) 1 := by
    apply nearestCode_mono Nat.one_pos Nat.one_pos
    exact Nat.mul_le_mul_right _ (Nat.mul_le_mul_right _ hle)
  rw [wholePart_of_meaning (meaning_ofWhole h), wholePart_of_meaning (meaning_ofWhole hm)]
  exact Nat.div_le_div_right (units_le_units hcode)

/-- **A count that is rounded** passes a limit of no more than `2 ^ 53` just if the exact one does. -/
theorem exceeds_iff {limit size n : Nat} (hlimit : limit ≤ 2 ^ 53) (hsize : 0 < size)
    (h : (n : ℚ) < overflowBound) (used : Nat) :
    limit < used + ((ofWhole n).wholePart * size + 1) ↔ limit < used + (n * size + 1) := by
  rcases Nat.le_total n (2 ^ 53) with hle | hge
  · rw [wholePart_ofWhole hle]
  · -- Whichever of the two counts is taken, its copies pass the limit by themselves.
    have hrounded : 2 ^ 53 ≤ (ofWhole n).wholePart := by
      calc 2 ^ 53 = (ofWhole (2 ^ 53)).wholePart := (wholePart_ofWhole le_rfl).symm
        _ ≤ (ofWhole n).wholePart := wholePart_ofWhole_mono hge h
    have hcopies : (ofWhole n).wholePart ≤ (ofWhole n).wholePart * size :=
      Nat.le_mul_of_pos_right _ hsize
    have hcopies' : n ≤ n * size := Nat.le_mul_of_pos_right n hsize
    exact iff_of_true (by omega) (by omega)

/-- Infinity is refused as a count. -/
theorem countFault?_infinity :
    (infinity false).countFault? = some (.invalidCount "Infinity".toList) := by
  decide

/-- No number from zero on is that is finite. -/
theorem countFault?_of_meaning {x : Binary64} {count : Nat} (h : x.meaning = .finite false count) :
    x.countFault? = none := by
  unfold countFault? isRefused
  rw [h]
  rfl

end Binary64

/-! ## Repetitions under a limit -/

theorem Repetition.number_of_isDigits {r : Repetition} (h : Text.isDigits r.count = true) :
    r.number = Binary64.ofWhole (Text.toNat r.count) := by
  unfold number
  rw [Binary64.read?_of_isDigits h]
  rfl

/-- One step of a run, where a repetition is printed. -/
theorem printAll_repetition {limit : UInt64} (h : limit.toNat < maxWord) (b : Bindings) {used : Nat}
    (hused : used ≤ limit.toNat) (r : Repetition) (span : Span) (prints : List Print) :
    let cost := r.number.wholePart * r.text.utf8Size + 1
    printAll limit b used (⟨.repetition r, span⟩ :: prints) = match r.number.countFault? with
      | some f => .error f
      | none =>
        if limit.toNat < used + cost then .error (.outputLimit limit)
        else (printAll limit b (used + cost) prints).map
          (⟨span, .copies r.text (saturate r.number.wholePart)⟩ :: ·) := by
  intro cost
  have hcost : ((Argument.repetition r).exact b).cost = cost := rfl
  have hfault : Print.faultAfter? limit b used ⟨.repetition r, span⟩ = r.number.countFault?.or
      (if limit.toNat < used + cost then some (.outputLimit limit) else none) := by
    rw [← hcost]
    rfl
  rw [printAll_cons h b hused, hfault, hcost]
  rcases r.number.countFault? with _ | f
  · rw [Option.none_or]
    by_cases hlt : limit.toNat < used + cost
    · rw [if_pos hlt]
      exact (if_pos hlt).symm
    · rw [if_neg hlt]
      exact (if_neg hlt).symm
  · rfl

/-- **A repetition under a limit.**  Behind an output of some bytes, under a limit of at most `2 ^ 53`, a
repetition of a text is printed as often as its digits say, however many there are, if its line keeps
within the limit, and the bytes of the line and of its newline are added.  If the line does not, the
print fails with the limit.  Only a count that is so large that its digits are read as infinity is
refused. -/
theorem printAll_repetition_exact {limit : UInt64} (hlimit : limit.toNat ≤ 2 ^ 53) {used : Nat}
    (hused : used ≤ limit.toNat) (b : Bindings) {r : Repetition} (htext : r.text ≠ [])
    (hcount : Text.isDigits r.count = true) (span : Span) (prints : List Print) :
    let n := Text.toNat r.count
    let total := used + n * r.text.utf8Size + 1
    printAll limit b used (⟨.repetition r, span⟩ :: prints) =
      if Binary64.overflowBound ≤ n then .error (.invalidCount "Infinity".toList)
      else if limit.toNat < total then .error (.outputLimit limit)
      else (printAll limit b total prints).map (⟨span, .copies r.text n⟩ :: ·) := by
  intro n total
  have hword : limit.toNat < maxWord := lt_of_le_of_lt hlimit (by decide)
  have hsize := Text.utf8Size_pos htext
  have hnumber : r.number = Binary64.ofWhole n := Repetition.number_of_isDigits hcount
  rw [printAll_repetition hword b hused, hnumber]
  rcases le_or_gt Binary64.overflowBound n with hlarge | hsmall
  · rw [if_pos hlarge, Binary64.ofWhole_eq_infinity hlarge, Binary64.countFault?_infinity]
  · have hfault := Binary64.countFault?_of_meaning (Binary64.meaning_ofWhole hsmall)
    have hexceeds := Binary64.exceeds_iff hlimit hsize hsmall used
    rw [if_neg (not_le.2 hsmall), hfault]
    dsimp only
    by_cases hlt : limit.toNat < total
    · rw [if_pos (hexceeds.2 hlt), if_pos hlt]
    · -- What keeps within the limit has a count of 53 bits, which is the exact one.
      have hcopies : n ≤ n * r.text.utf8Size := Nat.le_mul_of_pos_right n hsize
      have hexact : (Binary64.ofWhole n).wholePart = n := Binary64.wholePart_ofWhole (by omega)
      have hsaturate : saturate n = n := Nat.min_eq_left (by omega)
      rw [if_neg (mt hexceeds.1 hlt), if_neg hlt, hexact, hsaturate]
      rfl

/-- Three copies of a character of two bytes and the newline just fit behind three bytes of ten, and
not of nine, and `2 ^ 53` copies do not fit in `2 ^ 53` bytes. -/
theorem printAll_repetition_atLimit :
    let print (count : String) : Print := ⟨.repetition ⟨['é'], count.toList⟩, Span.ofPlace 1 1⟩
    printAll 10 .empty 3 [print "003"] = .ok [⟨Span.ofPlace 1 1, .copies ['é'] 3⟩]
      ∧ printAll 9 .empty 3 [print "003"] = .error (.outputLimit 9)
      ∧ printAll 0x20000000000000 .empty 0 [print "9007199254740992"]
        = .error (.outputLimit 0x20000000000000) := by
  intro print
  have htext : (['é'] : Text) ≠ [] := List.cons_ne_nil _ _
  have hthree : ¬ Binary64.overflowBound ≤ (Text.toNat "003".toList : ℚ) :=
    not_le.2 (Binary64.lt_overflowBound (by decide))
  have hlarge : ¬ Binary64.overflowBound ≤ (Text.toNat "9007199254740992".toList : ℚ) :=
    not_le.2 (Binary64.lt_overflowBound (by decide))
  refine ⟨?_, ?_, ?_⟩
  · refine (printAll_repetition_exact (by decide) (by decide) .empty htext (by decide) _ []).trans ?_
    refine (if_neg hthree).trans ?_
    decide
  · refine (printAll_repetition_exact (by decide) (by decide) .empty htext (by decide) _ []).trans ?_
    refine (if_neg hthree).trans ?_
    decide
  · refine (printAll_repetition_exact (by decide) (by decide) .empty htext (by decide) _ []).trans ?_
    refine (if_neg hlarge).trans ?_
    decide

/-- Not every count is caught by the limit: digits from `overflowBound` on are read as infinity. -/
theorem printAll_repetition_overflow :
    ¬ ∀ (limit : UInt64) (used : Nat) (b : Bindings) (r : Repetition) (span : Span)
      (prints : List Print), limit.toNat ≤ 2 ^ 53 → used ≤ limit.toNat → r.text ≠ [] →
      Text.isDigits r.count = true →
      let n := Text.toNat r.count
      let total := used + n * r.text.utf8Size + 1
      printAll limit b used (⟨.repetition r, span⟩ :: prints) =
        if limit.toNat < total then .error (.outputLimit limit)
        else (printAll limit b total prints).map (⟨span, .copies r.text n⟩ :: ·) := by
  intro h
  have hrun := h 1048576 0 .empty ⟨['a', 'b'], '2' :: List.replicate 308 '0'⟩ (Span.ofPlace 1 1) []
    (by decide) (by decide) (by decide) (by decide +kernel)
  revert hrun
  decide +kernel

end Playground
