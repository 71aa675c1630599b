/-
# Count operands

A count operand stands for a number: the one that its variable holds, or the one that the text in its
variable is read as, or, if it names no variable, the nearest one to the signed digits that it begins
with.  Where nothing can be read it stands for what is no number, and that counts as zero.

What any other number comes to depends on the rational that it is.  Closer to zero than one it counts as
zero, and from one on by its floor, up to the largest 64-bit word.  From minus one down it is refused, with
the text of what truncation leaves of it, and so is infinity of either sign.

* `LeadingDigits` : signed digits in front of a text, as its parts.
* `Binary64.leading?_eq_some_iff`, `Binary64.leading?_eq_none_iff` : the number in front of a text.
* `Binary64.count_eq_iff` : what a number comes to as a count.
* `Bindings.countsBy_iff` : the number that a count operand stands for.
* `Bindings.countOf_exact` : what a count operand comes to.
-/
import Playground.Proofs.Number.Truncation

namespace Playground

/-! ## Whole numbers in front -/

/-- Signed digits in front of a text, `\s*[+-]?[0-9]+`, with the parts of the text. -/
structure LeadingDigits (s : Text) where
  /-- What stands in front of the digits and their sign. -/
  space : Text
  /-- The digits with their sign. -/
  number : SignedDigits
  /-- What stands behind the digits. -/
  rest : Text
  /-- In front there are spaces only. -/
  space_spaces : ∀ c ∈ space, Text.isSpace c = true
  /-- All the digits are taken. -/
  rest_stops : ∀ c ∈ rest.head?, c.isDigit = false
  /-- Put together, the parts are the whole text. -/
  whole : space ++ (number.toText ++ rest) = s

namespace Binary64

variable {s : Text} {x : Binary64}

theorem leading?_of_leadingDigits (l : LeadingDigits s) : leading? s = some l.number.number := by
  have hleading := l.number.leading?_append l.space_spaces l.rest_stops
  rwa [l.whole] at hleading

/-- What is read in front of a text are signed digits. -/
theorem exists_leadingDigits (h : leading? s = some x) : Nonempty (LeadingDigits s) := by
  obtain ⟨sign, hsign, -⟩ := Numeral.exists_sign s.trimStart
  unfold leading? at h
  dsimp only at h
  generalize (Numeral.splitSign s.trimStart).2 = behind at h hsign
  have hne : behind.takeWhile Char.isDigit ≠ [] := by
    intro hnil
    rw [if_pos hnil] at h
    exact nomatch h
  have hdigits : Text.isDigits (behind.takeWhile Char.isDigit) = true :=
    Text.isDigits_iff.2 ⟨hne, fun _ hc => List.mem_takeWhile_imp hc⟩
  refine ⟨⟨s.takeWhile Text.isSpace, ⟨sign, _, hdigits⟩, behind.dropWhile Char.isDigit,
    fun _ hc => List.mem_takeWhile_imp hc, fun c hc => ?_, ?_⟩⟩
  · have hstop := List.head?_dropWhile_not Char.isDigit behind
    rw [Option.mem_def.1 hc] at hstop
    exact hstop
  · show s.takeWhile Text.isSpace ++ (SignedDigits.signText sign ++ behind.takeWhile Char.isDigit
      ++ behind.dropWhile Char.isDigit) = s
    rw [List.append_assoc, List.takeWhile_append_dropWhile, ← hsign]
    exact List.takeWhile_append_dropWhile

/-- **The number in front of a text** is the one that its signed digits denote. -/
theorem leading?_eq_some_iff : leading? s = some x ↔ ∃ l : LeadingDigits s, l.number.number = x := by
  constructor
  · intro h
    obtain ⟨l⟩ := exists_leadingDigits h
    exact ⟨l, Option.some.inj ((leading?_of_leadingDigits l).symm.trans h)⟩
  · rintro ⟨l, rfl⟩
    exact leading?_of_leadingDigits l

/-- There is none where no signed digits stand. -/
theorem leading?_eq_none_iff : leading? s = none ↔ IsEmpty (LeadingDigits s) := by
  rw [Option.eq_none_iff_forall_ne_some, isEmpty_iff]
  constructor
  · exact fun h l => h _ (leading?_of_leadingDigits l)
  · intro h x hx
    obtain ⟨l⟩ := exists_leadingDigits hx
    exact h l

/-- A space that is not of ASCII, a sign, zeros in front and a fraction that is left behind. -/
example : leading? "\u00a0-07.9".toList = some (Decimal.nearest true ⟨7, 0⟩) := by
  decide +kernel

end Binary64

/-- The number that signed digits denote is the nearest one, and no other. -/
theorem SignedDigits.isNearest_iff {n : SignedDigits} {x : Binary64} :
    Binary64.IsNearest n.negative (Text.toNat n.digits) x ↔ x = n.number := by
  have hwhole : (⟨Text.toNat n.digits, 0⟩ : Decimal).toRat = Text.toNat n.digits := by
    rw [Decimal.toRat, zpow_zero, mul_one]
  rw [← hwhole, Decimal.isNearest_iff]
  rfl

/-! ## How a number counts -/

namespace Binary64

/-- What a number comes to as a count, by the rational that it is. -/
inductive CountsAs (x : Binary64) : Except Fault Nat → Prop
  /-- What is no number counts as zero. -/
  | notANumber (hx : x.meaning = .notANumber) : CountsAs x (.ok 0)
  /-- So does what is closer to zero than one. -/
  | fraction {q : ℚ} (hx : x.toRat? = some q) (hlower : -1 < q) (hupper : q < 1) :
      CountsAs x (.ok 0)
  /-- From one on a number counts by its floor, up to the largest 64-bit word. -/
  | whole {q : ℚ} (hx : x.toRat? = some q) (hone : 1 ≤ q) :
      CountsAs x (.ok (min ⌊q⌋₊ (2 ^ 64 - 1)))
  /-- From minus one down it is refused, with the text of the number that it is without its
  fraction. -/
  | negative {q : ℚ} (hx : x.toRat? = some q) (hone : q ≤ -1) {y : Binary64}
      (hy : y.toRat? = some (towardZero q : ℚ)) : CountsAs x (.error (.invalidCount y.toText))
  /-- Infinity of either sign is refused, and it has no fraction. -/
  | infinite {sign : Bool} (hx : x.meaning = .infinite sign) :
      CountsAs x (.error (.invalidCount x.toText))

variable {x : Binary64} {q : ℚ}

theorem count_of_notANumber (hx : x.meaning = .notANumber) : x.count = .ok 0 := by
  unfold count times
  rw [hx]
  rfl

theorem count_of_infinite {sign : Bool} (hx : x.meaning = .infinite sign) :
    x.count = .error (.invalidCount x.toText) := by
  unfold count times
  rw [hx]
  rfl

/-- **A finite number** is refused from minus one down, and otherwise counts by the floor of its
magnitude. -/
theorem count_of_toRat? (hx : x.toRat? = some q) :
    x.count = if q ≤ -1 then .error (.invalidCount x.truncated.toText)
      else .ok (min ⌊|q|⌋₊ (2 ^ 64 - 1)) := by
  unfold count
  rw [times_eq, wholePart_eq_floor hx]
  by_cases hone : q ≤ -1
  · rw [if_pos ((isRefused_iff hx).2 hone), if_pos hone]
    rfl
  · rw [if_neg (mt (isRefused_iff hx).1 hone), if_neg hone]
    rfl

theorem count_of_fraction (hx : x.toRat? = some q) (hlower : -1 < q) (hupper : q < 1) :
    x.count = .ok 0 := by
  have hfloor : ⌊|q|⌋₊ = 0 := Nat.floor_eq_zero.2 (abs_lt.2 ⟨hlower, hupper⟩)
  rw [count_of_toRat? hx, if_neg (not_le.2 hlower), hfloor, Nat.zero_min]

theorem count_of_whole (hx : x.toRat? = some q) (hone : 1 ≤ q) :
    x.count = .ok (min ⌊q⌋₊ (2 ^ 64 - 1)) := by
  rw [count_of_toRat? hx, if_neg (by linarith), abs_of_nonneg (by linarith)]

theorem count_of_negative (hx : x.toRat? = some q) (hone : q ≤ -1) :
    x.count = .error (.invalidCount x.truncated.toText) := by
  rw [count_of_toRat? hx, if_pos hone]

/-- Every number comes to something. -/
theorem countsAs_count (x : Binary64) : x.CountsAs x.count := by
  cases hx : x.meaning with
  | notANumber =>
    rw [count_of_notANumber hx]
    exact .notANumber hx
  | infinite sign =>
    rw [count_of_infinite hx]
    exact .infinite hx
  | finite negative units =>
    have hq : x.toRat? = some (signed negative (units / 2 ^ 1074)) := by
      unfold toRat?
      rw [hx]
    generalize signed negative (units / 2 ^ 1074) = q at hq
    rcases le_or_gt q (-1) with hbelow | hlower
    · rw [count_of_negative hq hbelow]
      exact .negative hq hbelow (toRat?_truncated hq)
    · rcases lt_or_ge q 1 with hupper | hone
      · rw [count_of_fraction hq hlower hupper]
        exact .fraction hq hlower hupper
      · rw [count_of_whole hq hone]
        exact .whole hq hone

/-- And to one thing only. -/
theorem CountsAs.count_eq {r : Except Fault Nat} (h : x.CountsAs r) : x.count = r := by
  cases h with
  | notANumber hx => exact count_of_notANumber hx
  | fraction hx hlower hupper => exact count_of_fraction hx hlower hupper
  | whole hx hone => exact count_of_whole hx hone
  | @negative q hx hone y hy =>
    -- What is left of the number is not zero, and so it is no other number than `y`.
    have hne : (towardZero q : ℚ) ≠ 0 := Int.cast_ne_zero.2 (towardZero_ne_zero hone)
    rw [count_of_negative hx hone, eq_of_toRat? (toRat?_truncated hx) hy hne]
  | infinite hx => exact count_of_infinite hx

/-- **What a number comes to** as a count is settled by the rational that it is. -/
theorem count_eq_iff {r : Except Fault Nat} : x.count = r ↔ x.CountsAs r := by
  constructor
  · rintro rfl
    exact countsAs_count x
  · exact CountsAs.count_eq

/-- A number just above minus one, minus one itself, and the first one behind the largest word. -/
example : (read? "-0.9999".toList).map count = some (.ok 0)
    ∧ (read? "-1".toList).map count = some (.error (.invalidCount "-1".toList))
    ∧ (read? "18446744073709551616".toList).map count = some (.ok 18446744073709551615) := by
  decide +kernel

end Binary64

/-! ## What an operand stands for -/

namespace Bindings

/-- The number that a count operand stands for. -/
inductive CountsBy (b : Bindings) (o : Operand) : Binary64 → Prop
  /-- The operand names a number. -/
  | number {x : Binary64} (hb : b.get? o.text = some (.number x)) : CountsBy b o x
  /-- The operand names a text, which is read as a number, or as no number if it is no numeral. -/
  | text {s : Text} (hb : b.get? o.text = some (.text s)) :
      CountsBy b o ((Binary64.read? s).getD .notANumber)
  /-- The operand names nothing and begins with signed digits, to which the number is nearest. -/
  | digits (hb : b.get? o.text = none) (l : LeadingDigits o.text) {x : Binary64}
      (hx : Binary64.IsNearest l.number.negative (Text.toNat l.number.digits) x) : CountsBy b o x
  /-- The operand names nothing and begins with no digits. -/
  | nothing (hb : b.get? o.text = none) (hdigits : IsEmpty (LeadingDigits o.text)) :
      CountsBy b o .notANumber

variable {b : Bindings} {o : Operand} {x : Binary64}

theorem countsBy_countNumber (b : Bindings) (o : Operand) : b.CountsBy o (b.countNumber o) := by
  unfold countNumber
  rcases hb : b.get? o.text with _ | ⟨s | x⟩
  · rw [numberOf?_of_unbound hb]
    rcases hleading : Binary64.leading? o.text with _ | x
    · exact .nothing hb (Binary64.leading?_eq_none_iff.1 hleading)
    · obtain ⟨l, hl⟩ := Binary64.leading?_eq_some_iff.1 hleading
      exact .digits hb l (SignedDigits.isNearest_iff.2 hl.symm)
  · rw [numberOf?_of_text hb]
    exact .text hb
  · rw [numberOf?_of_number hb]
    exact .number hb

theorem CountsBy.eq_countNumber (h : b.CountsBy o x) : x = b.countNumber o := by
  unfold countNumber
  cases h with
  | number hb =>
    rw [numberOf?_of_number hb]
    rfl
  | text hb => rw [numberOf?_of_text hb]
  | digits hb l hx =>
    rw [numberOf?_of_unbound hb, Binary64.leading?_of_leadingDigits l]
    exact SignedDigits.isNearest_iff.1 hx
  | nothing hb hdigits =>
    rw [numberOf?_of_unbound hb, Binary64.leading?_eq_none_iff.2 hdigits]
    rfl

/-- **What a count operand stands for** is one number and no other. -/
theorem countsBy_iff : b.CountsBy o x ↔ x = b.countNumber o := by
  constructor
  · exact CountsBy.eq_countNumber
  · rintro rfl
    exact countsBy_countNumber b o

/-- **Count operands.**  Under any bindings a count operand stands for exactly one number, and what it
comes to is what this number comes to as a count: zero, a floor up to the largest 64-bit word, or a
refusal with the text of the number without its fraction. -/
theorem countOf_exact (b : Bindings) (o : Operand) :
    ∃ x, (∀ y, b.CountsBy o y ↔ y = x) ∧ ∀ r, b.countOf o = r ↔ x.CountsAs r :=
  ⟨b.countNumber o, fun _ => countsBy_iff, fun _ => Binary64.count_eq_iff⟩

end Bindings

end Playground
