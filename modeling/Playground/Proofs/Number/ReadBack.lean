/-
# Numbers read back

A number is written by its shortest decimal in one of three layouts: digits with zeros around
them, digits with a point among them, and digits with an exponent.  Each of them is a numeral with
the value of the decimal, and so reading gives back the number that was written.

* `Decimal.exists_written` : every layout is a whole part, a fraction and an exponent.
* `Numeral.read?_written` : what is so written is read as a numeral.
* `Binary64.read?_toText` : reading undoes writing.
-/
import Playground.Number.Numeral
import Playground.Proofs.Number.Shortest
import Playground.Proofs.Text.Trim

namespace Playground

/-! ## Written decimals -/

/-- A decimal as it is written: digits, further digits behind a point if there are any, and an
exponent if there is one. -/
structure Written where
  /-- The digits in front of the point. -/
  whole : Text
  /-- The digits behind the point. -/
  fraction : Text
  /-- The exponent of ten. -/
  exponent : Option Int
  /-- Some digit stands in front of the point. -/
  whole_ne_nil : whole ≠ []
  /-- Only digits stand there. -/
  isDigit_whole : ∀ c ∈ whole, c.isDigit = true
  /-- Only digits stand behind the point. -/
  isDigit_fraction : ∀ c ∈ fraction, c.isDigit = true

namespace Written

/-- The point and the digits behind it. -/
def fractionText (w : Written) : Text := if w.fraction = [] then [] else '.' :: w.fraction

/-- An exponent with its sign. -/
def exponentText : Option Int → Text
  | none => []
  | some exponent => ['e', if exponent < 0 then '-' else '+'] ++ Text.ofNat exponent.natAbs

/-- The text of a written decimal. -/
def toText (w : Written) : Text := w.whole ++ w.fractionText ++ exponentText w.exponent

/-- The decimal that is written. -/
def decimal (w : Written) : Decimal :=
  ⟨Text.toNat (w.whole ++ w.fraction), w.exponent.getD 0 - w.fraction.length⟩

theorem fractionText_of_ne_nil {w : Written} (h : w.fraction ≠ []) :
    w.fractionText = '.' :: w.fraction := if_neg h

/-! ## Reading what is written -/

theorem eq_e_of_head? {exponent : Option Int} {c : Char}
    (h : c ∈ (exponentText exponent).head?) : c = 'e' := by
  cases exponent with
  | none => exact absurd h (by simp [exponentText])
  | some exponent => exact (Option.some.inj h).symm

theorem isDigit_eq_false_of_head? {exponent : Option Int} :
    ∀ c ∈ (exponentText exponent).head?, c.isDigit = false := by
  intro c hc
  rw [eq_e_of_head? hc]
  decide

/-- An exponent is read with its sign. -/
theorem readExponent?_exponentText (exponent : Option Int) :
    Numeral.readExponent? (exponentText exponent) = some (exponent.getD 0) := by
  cases exponent with
  | none => rfl
  | some exponent =>
    have hdigits := Text.isDigits_ofNat exponent.natAbs
    have hvalue := Text.toNat_ofNat exponent.natAbs
    rw [exponentText]
    by_cases hneg : exponent < 0
    · rw [if_pos hneg]
      show (if ('e' = 'e' ∨ 'e' = 'E') ∧ Text.isDigits (Text.ofNat exponent.natAbs) = true then
        some (-(Text.toNat (Text.ofNat exponent.natAbs) : Int)) else none) = some exponent
      rw [if_pos ⟨Or.inl rfl, hdigits⟩, hvalue, Option.some_inj]
      omega
    · rw [if_neg hneg]
      show (if ('e' = 'e' ∨ 'e' = 'E') ∧ Text.isDigits (Text.ofNat exponent.natAbs) = true then
        some (Text.toNat (Text.ofNat exponent.natAbs) : Int) else none) = some exponent
      rw [if_pos ⟨Or.inl rfl, hdigits⟩, hvalue, Option.some_inj]
      omega

/-- What stands behind the whole part begins with no digit. -/
theorem isDigit_eq_false_behind (w : Written) :
    ∀ c ∈ (w.fractionText ++ exponentText w.exponent).head?, c.isDigit = false := by
  intro c hc
  unfold fractionText at hc
  split at hc
  · exact isDigit_eq_false_of_head? c hc
  · obtain rfl : '.' = c := Option.some.inj hc
    decide

/-- The fraction ends where the exponent begins. -/
theorem splitFraction_behind (w : Written) :
    Numeral.splitFraction (w.fractionText ++ exponentText w.exponent)
      = (w.fraction, exponentText w.exponent) := by
  unfold fractionText
  split
  · next hnil =>
    rw [hnil, List.nil_append]
    unfold Numeral.splitFraction
    split
    · next s heq =>
      -- An exponent is not taken for a fraction, as it begins with its mark.
      have hhead : '.' = 'e' := eq_e_of_head? (by rw [heq]; rfl)
      exact absurd hhead (by decide)
    · rfl
  · show (List.takeWhile Char.isDigit (w.fraction ++ exponentText w.exponent),
      List.dropWhile Char.isDigit (w.fraction ++ exponentText w.exponent)) = _
    rw [Text.takeWhile_append_stop w.isDigit_fraction isDigit_eq_false_of_head?,
      Text.dropWhile_append_stop w.isDigit_fraction isDigit_eq_false_of_head?]

/-- A written decimal is read by its parts. -/
theorem readDecimal?_toText (w : Written) (negative : Bool) :
    Numeral.readDecimal? negative w.toText
      = some (.decimal negative w.whole w.fraction (w.exponent.getD 0)) := by
  unfold Numeral.readDecimal? toText
  dsimp only
  rw [List.append_assoc, Text.takeWhile_append_stop w.isDigit_whole w.isDigit_eq_false_behind,
    Text.dropWhile_append_stop w.isDigit_whole w.isDigit_eq_false_behind, splitFraction_behind]
  dsimp only
  rw [if_neg fun h => w.whole_ne_nil h.1, readExponent?_exponentText]
  rfl

/-- A written decimal begins with a digit. -/
theorem exists_digit (w : Written) : ∃ c s, w.toText = c :: s ∧ c.isDigit = true := by
  obtain ⟨c, s, hwhole⟩ := List.exists_cons_of_ne_nil w.whole_ne_nil
  refine ⟨c, s ++ w.fractionText ++ exponentText w.exponent, ?_, ?_⟩
  · unfold toText
    rw [hwhole]
    rfl
  · exact w.isDigit_whole c (by rw [hwhole]; exact List.mem_cons_self)

/-- A written decimal holds digits and the marks between them. -/
theorem mem_toText {w : Written} {c : Char} (h : c ∈ w.toText) :
    c.isDigit = true ∨ c ∈ ['.', 'e', '-', '+'] := by
  unfold toText at h
  rw [List.mem_append, List.mem_append] at h
  rcases h with (hwhole | hfraction) | hexponent
  · exact Or.inl (w.isDigit_whole c hwhole)
  · unfold fractionText at hfraction
    split at hfraction
    · exact absurd hfraction List.not_mem_nil
    · rcases List.mem_cons.1 hfraction with rfl | hmem
      · exact Or.inr (by decide)
      · exact Or.inl (w.isDigit_fraction c hmem)
  · rcases hw : w.exponent with _ | exponent
    · rw [hw] at hexponent
      exact absurd hexponent List.not_mem_nil
    · rw [hw, exponentText, List.mem_append] at hexponent
      rcases hexponent with hmark | hdigits
      · right
        split at hmark
        · exact (show ['e', '-'] ⊆ ['.', 'e', '-', '+'] by decide) hmark
        · exact (show ['e', '+'] ⊆ ['.', 'e', '-', '+'] by decide) hmark
      · exact Or.inl (Text.isDigit_of_mem_ofNat hdigits)

end Written

/-! ## The three layouts -/

namespace Decimal

theorem significant_ne_nil {d : Decimal} (hd : d.digits ≠ 0) : d.significant ≠ [] := by
  obtain ⟨-, -, -, -, hne⟩ := digits_eq_significant hd
  exact hne

theorem isDigit_significant (d : Decimal) : ∀ c ∈ d.significant, c.isDigit = true :=
  fun _ hc => isDigit_of_mem_significant hc

theorem isDigit_replicate (n : Nat) : ∀ c ∈ List.replicate n '0', c.isDigit = true := by
  intro c hc
  rw [List.eq_of_mem_replicate hc]
  decide

/-- A decimal reads as its significant digits do with their point at the same place. -/
theorem nearestCode_significant {d : Decimal} (hd : d.digits ≠ 0) :
    (⟨Text.toNat d.significant, d.point - d.significant.length⟩ : Decimal).nearestCode
      = d.nearestCode := by
  obtain ⟨zeros, hdigits, hpoint, -, -⟩ := digits_eq_significant hd
  have hscale := nearestCode_scale (Text.toNat d.significant) (d.point - d.significant.length) zeros
  have hexponent : d.point - d.significant.length - zeros = d.exponent := by omega
  rw [← hdigits, hexponent] at hscale
  exact hscale.symm

/-- Digits behind the point, with zeros between. -/
theorem exists_written_below {d : Decimal} (hd : d.digits ≠ 0) (hpoint : d.point ≤ 0) :
    ∃ w : Written, w.toText = plainText d.significant d.point
      ∧ w.decimal.nearestCode = d.nearestCode := by
  have hne := significant_ne_nil hd
  have hfraction : List.replicate (-d.point).toNat '0' ++ d.significant ≠ [] :=
    fun h => hne (List.append_eq_nil_iff.1 h).2
  refine ⟨⟨['0'], List.replicate (-d.point).toNat '0' ++ d.significant, none,
    List.cons_ne_nil _ _, List.forall_mem_singleton.2 (by decide), ?_⟩, ?_, ?_⟩
  · exact List.forall_mem_append.2 ⟨isDigit_replicate _, isDigit_significant d⟩
  · unfold Written.toText plainText
    rw [Written.fractionText_of_ne_nil hfraction, if_pos hpoint, Written.exponentText,
      List.append_nil, List.append_assoc]
    rfl
  · rw [← nearestCode_significant hd]
    unfold Written.decimal
    dsimp only
    congr 2
    · rw [Text.toNat_append, Text.toNat_append, Text.toNat_replicate_zero, Nat.zero_mul,
        Nat.zero_add]
      show 0 * _ + _ = _
      rw [Nat.zero_mul, Nat.zero_add]
    · rw [List.length_append, List.length_replicate, Option.getD_none]
      omega

/-- Digits in front of the point, with zeros between. -/
theorem exists_written_above {d : Decimal} (hd : d.digits ≠ 0) (hpoint : ¬ d.point ≤ 0)
    (hlength : d.significant.length ≤ d.point) :
    ∃ w : Written, w.toText = plainText d.significant d.point
      ∧ w.decimal.nearestCode = d.nearestCode := by
  have hne := significant_ne_nil hd
  refine ⟨⟨d.significant ++ List.replicate (d.point.toNat - d.significant.length) '0', [], none,
    ?_, ?_, ?_⟩, ?_, ?_⟩
  · exact fun h => hne (List.append_eq_nil_iff.1 h).1
  · exact List.forall_mem_append.2 ⟨isDigit_significant d, isDigit_replicate _⟩
  · exact fun c hc => absurd hc List.not_mem_nil
  · unfold Written.toText plainText
    rw [if_neg hpoint, if_pos hlength]
    exact (List.append_nil _).trans (List.append_nil _)
  · rw [← nearestCode_significant hd, ← nearestCode_scale (Text.toNat d.significant)
      (d.point - d.significant.length) (d.point.toNat - d.significant.length)]
    unfold Written.decimal
    dsimp only
    congr 2
    · rw [List.append_nil, Text.toNat_append, Text.toNat_replicate_zero, List.length_replicate,
        Nat.add_zero]
    · rw [List.length_nil, Option.getD_none]
      omega

/-- Digits on both sides of the point. -/
theorem exists_written_between {d : Decimal} (hd : d.digits ≠ 0) (hpoint : ¬ d.point ≤ 0)
    (hlength : ¬ d.significant.length ≤ d.point) :
    ∃ w : Written, w.toText = plainText d.significant d.point
      ∧ w.decimal.nearestCode = d.nearestCode := by
  have hfraction : d.significant.drop d.point.toNat ≠ [] := by
    intro h
    rw [List.drop_eq_nil_iff] at h
    omega
  refine ⟨⟨d.significant.take d.point.toNat, d.significant.drop d.point.toNat, none, ?_, ?_, ?_⟩,
    ?_, ?_⟩
  · intro h
    rw [List.take_eq_nil_iff] at h
    rcases h with hzero | hnil
    · omega
    · exact significant_ne_nil hd hnil
  · exact fun c hc => isDigit_significant d c (List.mem_of_mem_take hc)
  · exact fun c hc => isDigit_significant d c (List.mem_of_mem_drop hc)
  · unfold Written.toText plainText
    rw [Written.fractionText_of_ne_nil hfraction, if_neg hpoint, if_neg hlength]
    exact List.append_nil _
  · rw [← nearestCode_significant hd]
    unfold Written.decimal
    dsimp only
    congr 2
    · rw [List.take_append_drop]
    · rw [List.length_drop, Option.getD_none]
      omega

/-- One digit in front of the point and an exponent. -/
theorem exists_written_exponent {d : Decimal} (hd : d.digits ≠ 0) :
    ∃ w : Written, w.toText = exponentText d.significant d.point
      ∧ w.decimal.nearestCode = d.nearestCode := by
  have hlength := List.length_pos_iff.2 (significant_ne_nil hd)
  refine ⟨⟨d.significant.take 1, d.significant.drop 1, some (d.point - 1), ?_, ?_, ?_⟩, ?_, ?_⟩
  · intro h
    rw [List.take_eq_nil_iff] at h
    rcases h with hzero | hnil
    · omega
    · exact significant_ne_nil hd hnil
  · exact fun c hc => isDigit_significant d c (List.mem_of_mem_take hc)
  · exact fun c hc => isDigit_significant d c (List.mem_of_mem_drop hc)
  · unfold Written.toText exponentText
    dsimp only
    rw [Written.exponentText, ← List.append_assoc]
    congr 3
    by_cases hone : d.significant.length ≤ 1
    · rw [if_pos hone]
      exact if_pos (List.drop_eq_nil_iff.2 hone)
    · rw [if_neg hone]
      exact Written.fractionText_of_ne_nil fun h => hone (List.drop_eq_nil_iff.1 h)
  · rw [← nearestCode_significant hd]
    unfold Written.decimal
    dsimp only
    congr 2
    · rw [List.take_append_drop]
    · rw [List.length_drop, Option.getD_some]
      omega

/-- **Every layout** is a whole part, a fraction and an exponent, and has the value of the
decimal. -/
theorem exists_written {d : Decimal} (hd : d.digits ≠ 0) :
    ∃ w : Written, w.toText = d.toText ∧ w.decimal.nearestCode = d.nearestCode := by
  unfold toText
  split
  · by_cases hpoint : d.point ≤ 0
    · exact exists_written_below hd hpoint
    · by_cases hlength : d.significant.length ≤ d.point
      · exact exists_written_above hd hpoint hlength
      · exact exists_written_between hd hpoint hlength
  · exact exists_written_exponent hd

end Decimal

/-! ## Reading with sign and spaces -/

namespace Numeral

theorem baseOf?_eq_none {c : Char} (h : c.toNat < 'B'.toNat ∨ c = 'e') : baseOf? c = none := by
  unfold baseOf?
  rw [if_neg, if_neg, if_neg]
  all_goals
    rintro (rfl | rfl)
    · exact absurd h (by decide)
    · exact absurd h (by decide)

/-- Without the letter of a base there is no numeral in a base. -/
theorem readBased?_eq_none {s : Text} (h : ∀ c ∈ s, baseOf? c = none) : readBased? s = none := by
  unfold readBased?
  split
  · next mark digit digits =>
    rw [h mark (by simp)]
    rfl
  · rfl

theorem splitSign_signText (negative : Bool) {c : Char} {s : Text} (hminus : c ≠ '-')
    (hplus : c ≠ '+') : splitSign (Binary64.signText negative ++ c :: s) = (negative, c :: s) := by
  cases negative with
  | true => rfl
  | false =>
    show splitSign (c :: s) = _
    unfold splitSign
    split
    · next heq => exact absurd (List.cons.inj heq).1 hminus
    · next heq => exact absurd (List.cons.inj heq).1 hplus
    · rfl

/-- The characters with which a decimal is written are no letters of a base and no spaces. -/
theorem mem_signed {w : Written} (negative : Bool) {c : Char}
    (h : c ∈ Binary64.signText negative ++ w.toText) :
    baseOf? c = none ∧ Text.isSpace c = false := by
  have hmem : c.isDigit = true ∨ c ∈ ['.', 'e', '-', '+'] := by
    rcases List.mem_append.1 h with hsign | htext
    · cases negative with
      | true => exact Or.inr (by rw [List.mem_singleton.1 hsign]; decide)
      | false => exact absurd hsign List.not_mem_nil
    · exact Written.mem_toText htext
  rcases hmem with hdigit | hmark
  · have htoNat := Text.isDigit_iff_toNat.1 hdigit
    have hB : 'B'.toNat = 66 := rfl
    exact ⟨baseOf?_eq_none (Or.inl (by omega)), Text.isSpace_of_isDigit hdigit⟩
  · simp only [List.mem_cons, List.not_mem_nil, or_false] at hmark
    rcases hmark with rfl | rfl | rfl | rfl
    all_goals exact ⟨by decide, by decide⟩

/-- Behind its sign, what is written is read as a numeral with the same parts. -/
theorem read?_of_splitSign {s : Text} {w : Written} {negative : Bool}
    (hbase : ∀ c ∈ s, baseOf? c = none) (hsplit : splitSign s = (negative, w.toText)) :
    read? s = some (.decimal negative w.whole w.fraction (w.exponent.getD 0)) := by
  have hbased := readBased?_eq_none hbase
  obtain ⟨c, t, hw, hdigit⟩ := w.exists_digit
  -- A digit stands in front, and so neither a second sign nor the word for infinity does.
  have hinfinity : w.toText ≠ "Infinity".toList := by
    rw [hw]
    intro h
    rw [(List.cons.inj h).1] at hdigit
    exact absurd hdigit (by decide)
  unfold read? readSigned?
  rw [hbased, hsplit, Option.none_or]
  dsimp only
  rw [if_neg hinfinity, Written.readDecimal?_toText]

/-- **What is written is read as a numeral** with the same parts. -/
theorem read?_written (w : Written) (negative : Bool) :
    read? (Binary64.signText negative ++ w.toText)
      = some (.decimal negative w.whole w.fraction (w.exponent.getD 0)) := by
  refine read?_of_splitSign (fun c hc => (mem_signed negative hc).1) ?_
  obtain ⟨c, s, hw, hdigit⟩ := w.exists_digit
  rw [hw]
  refine splitSign_signText negative ?_ ?_
  · rintro rfl
    exact absurd hdigit (by decide)
  · rintro rfl
    exact absurd hdigit (by decide)

end Numeral

namespace Binary64

/-! ## Words by their signs and codes -/

/-- A word is its sign and its code put together. -/
theorem ofCode_isNegative_code (x : Binary64) : ofCode x.isNegative x.code = x := by
  have hlt := x.bits.toNat_lt
  have hsign : signBit = 2 ^ 63 := by decide
  have hsum : (if x.isNegative then signBit else 0) + x.code = x.bits.toNat := by
    unfold isNegative code
    rw [hsign]
    by_cases hneg : 2 ^ 63 ≤ x.bits.toNat
    · rw [if_pos (decide_eq_true hneg)]
      omega
    · rw [if_neg (by simpa using hneg)]
      omega
  unfold ofCode
  rw [hsum, UInt64.ofNat_toNat]

theorem code_ofCode (negative : Bool) {code : Nat} (h : code < signBit) :
    (ofCode negative code).code = code := by
  have hsign : signBit = 2 ^ 63 := by decide
  unfold ofCode
  rw [Binary64.code]
  dsimp only
  rw [UInt64.toNat_ofNat', hsign]
  split
  · omega
  · omega

theorem units_eq_zero_iff {code : Nat} : units code = 0 ↔ code = 0 := by
  constructor
  · intro h
    by_contra hne
    have hpos := Decimal.units_pos (Nat.pos_of_ne_zero hne)
    omega
  · rintro rfl
    rfl

/-! ## Reading undoes writing -/

theorem read?_written (w : Written) (negative : Bool) :
    read? (signText negative ++ w.toText) = some (Decimal.nearest negative w.decimal) := by
  unfold read?
  rw [Text.trim_of_no_space fun c hc => (Numeral.mem_signed negative hc).2, Numeral.read?_written]
  rfl

theorem read?_infinity (negative : Bool) :
    read? (signText negative ++ "Infinity".toList) = some (infinity negative) := by
  cases negative <;> decide

/-- A number is written as zero, as infinity or by a decimal that reads back. -/
theorem toText_eq {x : Binary64} (h : x.meaning ≠ .notANumber) :
    x.code = 0 ∧ x.toText = ['0']
      ∨ x.code = infinityCode ∧ x.toText = signText x.isNegative ++ "Infinity".toList
      ∨ x.code ≠ 0 ∧ ∃ w : Written, x.toText = signText x.isNegative ++ w.toText
        ∧ w.decimal.nearestCode = x.code := by
  unfold toText
  unfold meaning at h ⊢
  by_cases hfinite : x.code < infinityCode
  · rw [if_pos hfinite]
    dsimp only
    by_cases hzero : x.code = 0
    · exact Or.inl ⟨hzero, if_pos (units_eq_zero_iff.2 hzero)⟩
    · have hpos := Nat.pos_of_ne_zero hzero
      obtain ⟨w, htext, hvalue⟩ :=
        Decimal.exists_written (Decimal.digits_shortest_ne_zero hpos hfinite)
      refine Or.inr (Or.inr ⟨hzero, w, ?_, ?_⟩)
      · rw [if_neg (fun h => hzero (units_eq_zero_iff.1 h)), htext]
      · rw [hvalue, Decimal.nearestCode_shortest hpos hfinite]
  · rw [if_neg hfinite] at h ⊢
    by_cases hinfinite : x.code = infinityCode
    · rw [if_pos hinfinite]
      exact Or.inr (Or.inl ⟨hinfinite, rfl⟩)
    · exact absurd (if_neg hinfinite) h

/-- **Reading undoes writing**, except that zero is written without its sign. -/
theorem read?_toText {x : Binary64} (h : x.meaning ≠ .notANumber) :
    read? x.toText = some (if x = ofCode true 0 then ofCode false 0 else x) := by
  have hword := ofCode_isNegative_code x
  rcases toText_eq h with ⟨hcode, htext⟩ | ⟨hcode, htext⟩ | ⟨hcode, w, htext, hvalue⟩
  · -- Either zero is written as the one without a sign.
    rw [hcode] at hword
    rw [htext, ← hword]
    cases x.isNegative <;> decide
  · have hne : x ≠ ofCode true 0 := by
      rintro rfl
      exact absurd hcode (by decide)
    rw [htext, if_neg hne, read?_infinity, infinity, ← hcode, hword]
  · have hne : x ≠ ofCode true 0 := by
      rintro rfl
      exact hcode (code_ofCode true (by decide))
    rw [htext, if_neg hne, read?_written, Decimal.nearest, hvalue, hword]

/-- A number is written without spaces. -/
theorem isSpace_of_mem_toText {x : Binary64} (h : x.meaning ≠ .notANumber) {c : Char}
    (hc : c ∈ x.toText) : Text.isSpace c = false := by
  rcases toText_eq h with ⟨-, htext⟩ | ⟨-, htext⟩ | ⟨-, w, htext, -⟩
  · rw [htext] at hc
    rw [List.mem_singleton.1 hc]
    decide
  · have hany : (signText x.isNegative ++ "Infinity".toList).any Text.isSpace = false := by
      cases x.isNegative <;> decide
    rw [htext] at hc
    exact Bool.eq_false_iff.2 (List.any_eq_false.1 hany c hc)
  · rw [htext] at hc
    exact (Numeral.mem_signed x.isNegative hc).2

end Binary64

end Playground
