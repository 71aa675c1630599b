/-
# What a numeral is

A numeral holds letters and digits of ASCII, signs and points, and it denotes a number, which may
be infinite.

* `Numeral.mem_of_read?` : the characters of a numeral.
* `Binary64.meaning_of_read?` : a numeral never denotes what is no number.
-/
import Playground.Proofs.Number.ReadBack

namespace Playground

/-! ## The characters of a numeral -/

namespace Numeral

/-- Whether `c` may stand in a numeral. -/
def isNumeralChar (c : Char) : Bool := c.isAlphanum || c = '+' || c = '-' || c = '.'

theorem isNumeralChar_of_isAlphanum {c : Char} (h : c.isAlphanum = true) :
    isNumeralChar c = true := by
  unfold isNumeralChar
  rw [h]
  rfl

theorem isNumeralChar_of_isDigit {c : Char} (h : c.isDigit = true) : isNumeralChar c = true :=
  isNumeralChar_of_isAlphanum (Text.isAlphanum_iff.2 (Or.inr h))

theorem isNumeralChar_of_digitIn {base n : Nat} {c : Char} (h : Text.digitIn base c = some n) :
    isNumeralChar c = true := by
  apply isNumeralChar_of_isAlphanum
  rw [Text.isAlphanum_iff, Text.isAlpha_iff, Text.isUpper_iff_toNat, Text.isLower_iff_toNat,
    Text.isDigit_iff_toNat]
  by_contra hnot
  rw [not_or, not_or] at hnot
  obtain ⟨⟨hupper, hlower⟩, hdigit⟩ := hnot
  -- A character of none of the three kinds has no value as a digit.
  have hnone : Text.digitValue c = none :=
    (if_neg hdigit).trans ((if_neg hlower).trans (if_neg hupper))
  unfold Text.digitIn at h
  rw [hnone] at h
  exact absurd h (by simp)

theorem isNumeralChar_of_baseOf? {base : Nat} {c : Char} (h : baseOf? c = some base) :
    isNumeralChar c = true := by
  unfold baseOf? at h
  split at h
  · next hc => rcases hc with rfl | rfl <;> decide
  · split at h
    · next hc => rcases hc with rfl | rfl <;> decide
    · split at h
      · next hc => rcases hc with rfl | rfl <;> decide
      · exact absurd h (by simp)

theorem mem_of_mapM_digitIn {base : Nat} {s : Text} {values : List Nat}
    (h : s.mapM (Text.digitIn base) = some values) : ∀ c ∈ s, isNumeralChar c = true := by
  induction s generalizing values with
  | nil => exact fun c hc => absurd hc List.not_mem_nil
  | cons c s ih =>
    rw [List.mapM_cons] at h
    obtain ⟨n, hn, h⟩ := Option.bind_eq_some_iff.1 h
    obtain ⟨rest, hrest, -⟩ := Option.bind_eq_some_iff.1 h
    rw [List.forall_mem_cons]
    exact ⟨isNumeralChar_of_digitIn hn, ih hrest⟩

theorem mem_of_readBased? {s : Text} {n : Numeral} (h : readBased? s = some n) :
    ∀ c ∈ s, isNumeralChar c = true := by
  unfold readBased? at h
  split at h
  · next mark digit digits =>
    obtain ⟨base, hbase, h⟩ := Option.bind_eq_some_iff.1 h
    obtain ⟨values, hvalues, -⟩ := Option.bind_eq_some_iff.1 h
    rw [List.forall_mem_cons, List.forall_mem_cons]
    exact ⟨by decide, isNumeralChar_of_baseOf? hbase, mem_of_mapM_digitIn hvalues⟩
  · exact absurd h (by simp)

/-- A sign is all that stands in front. -/
theorem splitSign_mem {s : Text} {c : Char} (h : c ∈ s) :
    isNumeralChar c = true ∨ c ∈ (splitSign s).2 := by
  unfold splitSign
  split
  · rcases List.mem_cons.1 h with rfl | hmem
    · exact Or.inl (by decide)
    · exact Or.inr hmem
  · rcases List.mem_cons.1 h with rfl | hmem
    · exact Or.inl (by decide)
    · exact Or.inr hmem
  · exact Or.inr h

theorem mem_of_isDigits {s : Text} (h : Text.isDigits s = true) :
    ∀ c ∈ s, isNumeralChar c = true := by
  intro c hc
  exact isNumeralChar_of_isDigit ((Text.isDigits_iff.1 h).2 c hc)

theorem mem_of_readExponent? {s : Text} {exponent : Int} (h : readExponent? s = some exponent) :
    ∀ c ∈ s, isNumeralChar c = true := by
  cases s with
  | nil => exact fun c hc => absurd hc List.not_mem_nil
  | cons mark s =>
    unfold readExponent? at h
    dsimp only at h
    split at h
    · next hparts =>
      rw [List.forall_mem_cons]
      constructor
      · rcases hparts.1 with rfl | rfl <;> decide
      · intro c hc
        rcases splitSign_mem hc with hsign | hdigits
        · exact hsign
        · exact mem_of_isDigits hparts.2 c hdigits
    · exact absurd h (by simp)

theorem mem_takeWhile_isDigit {s : Text} : ∀ c ∈ s.takeWhile Char.isDigit, isNumeralChar c = true :=
  fun _ hc => isNumeralChar_of_isDigit (List.mem_takeWhile_imp hc)

/-- A point and digits are all that stands in front of the exponent. -/
theorem splitFraction_mem {s : Text} {c : Char} (h : c ∈ s) :
    isNumeralChar c = true ∨ c ∈ (splitFraction s).2 := by
  unfold splitFraction
  split
  · next s =>
    rcases List.mem_cons.1 h with rfl | hmem
    · exact Or.inl (by decide)
    · rw [← List.takeWhile_append_dropWhile (p := Char.isDigit) (l := s)] at hmem
      exact (List.mem_append.1 hmem).imp_left (mem_takeWhile_isDigit c)
  · exact Or.inr h

theorem mem_of_readDecimal? {negative : Bool} {s : Text} {n : Numeral}
    (h : readDecimal? negative s = some n) : ∀ c ∈ s, isNumeralChar c = true := by
  unfold readDecimal? at h
  dsimp only at h
  split at h
  · exact absurd h (by simp)
  · obtain ⟨exponent, hexponent, -⟩ := Option.map_eq_some_iff.1 h
    intro c hc
    rw [← List.takeWhile_append_dropWhile (p := Char.isDigit) (l := s)] at hc
    rcases List.mem_append.1 hc with hwhole | hrest
    · exact mem_takeWhile_isDigit c hwhole
    · exact (splitFraction_mem hrest).elim id fun hmem => mem_of_readExponent? hexponent c hmem

theorem mem_of_readSigned? {s : Text} {n : Numeral} (h : readSigned? s = some n) :
    ∀ c ∈ s, isNumeralChar c = true := by
  intro c hc
  rcases splitSign_mem hc with hsign | hrest
  · exact hsign
  · unfold readSigned? at h
    dsimp only at h
    split at h
    · next hinfinity =>
      rw [hinfinity] at hrest
      exact List.all_eq_true.1 (by decide) c hrest
    · exact mem_of_readDecimal? h c hrest

/-- **A numeral** holds letters and digits of ASCII, signs and points. -/
theorem mem_of_read? {s : Text} {n : Numeral} (h : read? s = some n) :
    ∀ c ∈ s, isNumeralChar c = true := by
  unfold read? at h
  rcases Option.or_eq_some_iff.1 h with hbased | ⟨-, hsigned⟩
  · exact mem_of_readBased? hbased
  · exact mem_of_readSigned? hsigned

end Numeral

namespace Binary64

/-! ## The number of a numeral -/

/-- A code up to that of infinity stands for a number. -/
theorem meaning_ofCode (negative : Bool) {code : Nat} (h : code ≤ infinityCode) :
    (ofCode negative code).meaning ≠ .notANumber := by
  have hlt : code < signBit := lt_of_le_of_lt h (by decide)
  unfold meaning
  rw [code_ofCode negative hlt]
  intro hnone
  split at hnone
  · exact Meaning.noConfusion hnone
  · next hfinite =>
    rw [if_pos (by omega)] at hnone
    exact Meaning.noConfusion hnone

end Binary64

theorem Decimal.nearestCode_le (d : Decimal) : d.nearestCode ≤ Binary64.infinityCode := by
  unfold nearestCode
  split
  · exact Nat.zero_le _
  · split
    · exact le_rfl
    · split
      · exact Binary64.nearestCode_le _ _
      · exact Binary64.nearestCode_le _ _

namespace Numeral

theorem foldl_appendDigit_le (base : Nat) (digits : List Nat) {code : Nat}
    (h : code ≤ Binary64.infinityCode) :
    digits.foldl (appendDigit base) code ≤ Binary64.infinityCode := by
  induction digits generalizing code with
  | nil => exact h
  | cons digit digits ih => exact ih (Binary64.nearestCode_le _ _)

/-- A numeral denotes a number. -/
theorem meaning_value (n : Numeral) : n.value.meaning ≠ .notANumber := by
  cases n with
  | based base digits =>
    exact Binary64.meaning_ofCode false (foldl_appendDigit_le base digits (Nat.zero_le _))
  | infinity negative => exact Binary64.meaning_ofCode negative le_rfl
  | decimal negative whole fraction exponent =>
    exact Binary64.meaning_ofCode negative (Decimal.nearestCode_le _)

end Numeral

namespace Binary64

/-- **A numeral never denotes what is no number.** -/
theorem meaning_of_read? {s : Text} {x : Binary64} (h : read? s = some x) :
    x.meaning ≠ .notANumber := by
  obtain ⟨n, -, rfl⟩ := Option.map_eq_some_iff.1 h
  exact n.meaning_value

theorem isNumeralChar_of_mem_trim {s : Text} {x : Binary64} (h : read? s = some x) {c : Char}
    (hc : c ∈ s.trim) : Numeral.isNumeralChar c = true := by
  obtain ⟨n, hn, -⟩ := Option.map_eq_some_iff.1 h
  exact Numeral.mem_of_read? hn c hc

end Binary64

end Playground
