/-
# The grammar of numerals

A numeral is written in one of three forms: digits in base 16, 8 or 2 behind their mark, the word for
infinity, or digits with a point among them and an exponent behind them.  The last two take a sign.
Exactly the texts of these forms are read, apart from spaces around them, and a decimal is read as the
number nearest to the rational that it denotes, however many digits it has.

* `Numeral.isSome_read?_iff` : the texts that are numerals.
* `Numeral.readInSteps?_eq` : a reader that takes more words, behind a filter, comes to the same.
* `DecimalForm.magnitude` : the rational that a decimal denotes.
* `Binary64.read?_grammar` : which texts are numerals, and what number each of them denotes.
-/
import Playground.Proofs.Number.Nearest
import Playground.Proofs.Number.SignedDigits

namespace Playground

/-! ## The forms -/

/-- A whole number by its digits in another base: `0[xX][0-9A-Fa-f]+`, `0[oO][0-7]+` or
`0[bB][01]+`. -/
inductive Numeral.IsBased : Text → Prop
  /-- Hexadecimal digits. -/
  | hexadecimal {mark : Char} {digits : Text} (hmark : mark = 'x' ∨ mark = 'X') (hne : digits ≠ [])
      (hdigits : ∀ c ∈ digits,
        ('0' ≤ c ∧ c ≤ '9') ∨ ('A' ≤ c ∧ c ≤ 'F') ∨ ('a' ≤ c ∧ c ≤ 'f')) :
      IsBased ('0' :: mark :: digits)
  /-- Octal digits. -/
  | octal {mark : Char} {digits : Text} (hmark : mark = 'o' ∨ mark = 'O') (hne : digits ≠ [])
      (hdigits : ∀ c ∈ digits, '0' ≤ c ∧ c ≤ '7') : IsBased ('0' :: mark :: digits)
  /-- Binary digits. -/
  | binary {mark : Char} {digits : Text} (hmark : mark = 'b' ∨ mark = 'B') (hne : digits ≠ [])
      (hdigits : ∀ c ∈ digits, c = '0' ∨ c = '1') : IsBased ('0' :: mark :: digits)

/-- The word for infinity with a sign if there is one: `[+-]?Infinity`. -/
def Numeral.infinityText (sign : Option Bool) : Text :=
  SignedDigits.signText sign ++ "Infinity".toList

/-- An exponent of ten: `[eE][+-]?[0-9]+`. -/
structure ExponentForm where
  /-- The letter in front. -/
  mark : Char
  /-- The exponent itself. -/
  digits : SignedDigits
  /-- The letter is an `e` of either case. -/
  isMark : mark = 'e' ∨ mark = 'E'

namespace ExponentForm

/-- The text of an exponent. -/
def toText (e : ExponentForm) : Text := e.mark :: e.digits.toText

/-- The power of ten. -/
def value (e : ExponentForm) : Int :=
  if e.digits.negative then -(Text.toNat e.digits.digits : Int) else Text.toNat e.digits.digits

end ExponentForm

/-- A decimal: `[+-]?([0-9]+(\.[0-9]*)?|\.[0-9]+)([eE][+-]?[0-9]+)?`. -/
structure DecimalForm where
  /-- Whether the sign is a minus, if there is a sign. -/
  sign : Option Bool
  /-- The digits in front of the point. -/
  whole : Text
  /-- The digits behind the point, if there is a point. -/
  fraction : Option Text
  /-- The exponent, if there is one. -/
  exponent : Option ExponentForm
  /-- Only digits stand in front of the point. -/
  isDigit_whole : ∀ c ∈ whole, c.isDigit = true
  /-- Only digits stand behind the point. -/
  isDigit_fraction : ∀ c ∈ fraction.getD [], c.isDigit = true
  /-- A digit stands on one side of the point. -/
  hasDigit : whole ≠ [] ∨ fraction.getD [] ≠ []

namespace DecimalForm

/-- The point and the digits behind it. -/
def fractionText : Option Text → Text
  | none => []
  | some fraction => '.' :: fraction

/-- The text of an exponent that may be absent. -/
def exponentText : Option ExponentForm → Text
  | none => []
  | some exponent => exponent.toText

/-- The text of a decimal without its sign. -/
def unsignedText (form : DecimalForm) : Text :=
  form.whole ++ (fractionText form.fraction ++ exponentText form.exponent)

/-- The text of a decimal. -/
def toText (form : DecimalForm) : Text := SignedDigits.signText form.sign ++ form.unsignedText

/-- Whether a minus stands in front. -/
def negative (form : DecimalForm) : Bool := form.sign.getD false

/-- The power of ten, which is zero if none is written. -/
def power (form : DecimalForm) : Int := (form.exponent.map ExponentForm.value).getD 0

/-- The rational that a decimal denotes, apart from its sign. -/
def magnitude (form : DecimalForm) : ℚ :=
  (Text.toNat form.whole
    + Text.toNat (form.fraction.getD []) / 10 ^ (form.fraction.getD []).length) * 10 ^ form.power

/-- The numeral that a decimal is read as. -/
def numeral (form : DecimalForm) : Numeral :=
  .decimal form.negative form.whole (form.fraction.getD []) form.power

end DecimalForm

/-! ## Digits in a base -/

namespace Text

theorem le_iff_toNat {a b : Char} : a ≤ b ↔ a.toNat ≤ b.toNat := Iff.rfl

/-- The values of the digits of all bases. -/
theorem digitIn_eq_some_iff {base n : Nat} {c : Char} :
    digitIn base c = some n ↔ n < base
      ∧ (48 ≤ c.toNat ∧ c.toNat ≤ 57 ∧ n + 48 = c.toNat
        ∨ 97 ≤ c.toNat ∧ c.toNat ≤ 122 ∧ n + 87 = c.toNat
        ∨ 65 ≤ c.toNat ∧ c.toNat ≤ 90 ∧ n + 55 = c.toNat) := by
  have h0 : '0'.toNat = 48 := rfl
  have h9 : '9'.toNat = 57 := rfl
  have ha : 'a'.toNat = 97 := rfl
  have hz : 'z'.toNat = 122 := rfl
  have hA : 'A'.toNat = 65 := rfl
  have hZ : 'Z'.toNat = 90 := rfl
  unfold digitIn digitValue
  rw [Option.filter_eq_some_iff, decide_eq_true_iff, and_comm]
  refine and_congr_right fun _ => ?_
  simp only [le_iff_toNat]
  split_ifs
  · rw [Option.some_inj]
    omega
  · rw [Option.some_inj]
    omega
  · rw [Option.some_inj]
    omega
  · simp only [false_iff]
    omega

theorem isSome_digitIn_iff {base : Nat} {c : Char} :
    (digitIn base c).isSome = true ↔
      48 ≤ c.toNat ∧ c.toNat ≤ 57 ∧ c.toNat < base + 48
        ∨ 97 ≤ c.toNat ∧ c.toNat ≤ 122 ∧ c.toNat < base + 87
        ∨ 65 ≤ c.toNat ∧ c.toNat ≤ 90 ∧ c.toNat < base + 55 := by
  rw [Option.isSome_iff_exists]
  simp only [digitIn_eq_some_iff]
  constructor
  · rintro ⟨n, hn⟩
    omega
  · rintro (h | h | h)
    · exact ⟨c.toNat - 48, by omega⟩
    · exact ⟨c.toNat - 87, by omega⟩
    · exact ⟨c.toNat - 55, by omega⟩

/-- A digit in base 16 is a digit or one of the first six letters. -/
theorem isSome_digitIn_sixteen {c : Char} : (digitIn 16 c).isSome = true ↔
    ('0' ≤ c ∧ c ≤ '9') ∨ ('A' ≤ c ∧ c ≤ 'F') ∨ ('a' ≤ c ∧ c ≤ 'f') := by
  have h9 : '9'.toNat = 57 := rfl
  have hF : 'F'.toNat = 70 := rfl
  have hf : 'f'.toNat = 102 := rfl
  have h0 : '0'.toNat = 48 := rfl
  have hA : 'A'.toNat = 65 := rfl
  have ha : 'a'.toNat = 97 := rfl
  rw [isSome_digitIn_iff]
  simp only [le_iff_toNat]
  omega

/-- A digit in base 8 is one of the first eight digits. -/
theorem isSome_digitIn_eight {c : Char} :
    (digitIn 8 c).isSome = true ↔ '0' ≤ c ∧ c ≤ '7' := by
  have h0 : '0'.toNat = 48 := rfl
  have h7 : '7'.toNat = 55 := rfl
  rw [isSome_digitIn_iff]
  simp only [le_iff_toNat]
  omega

/-- A digit in base 2 is a zero or a one. -/
theorem isSome_digitIn_two {c : Char} : (digitIn 2 c).isSome = true ↔ c = '0' ∨ c = '1' := by
  have heq : ∀ d : Char, c = d ↔ c.toNat = d.toNat :=
    fun d => ⟨congrArg Char.toNat, fun h => Char.toNat_inj.1 h⟩
  have h0 : '0'.toNat = 48 := rfl
  have h1 : '1'.toNat = 49 := rfl
  rw [isSome_digitIn_iff, heq, heq]
  omega

end Text

namespace Numeral

theorem isSome_mapM_iff {α β : Type} {f : α → Option β} {s : List α} :
    (s.mapM f).isSome = true ↔ ∀ a ∈ s, (f a).isSome = true := by
  induction s with
  | nil => simp
  | cons a s ih =>
    rw [List.mapM_cons, List.forall_mem_cons, ← ih]
    rcases f a with _ | b
    · simp
    · rcases List.mapM f s with _ | bs <;> simp

theorem baseOf?_eq_some_iff {mark : Char} {base : Nat} :
    baseOf? mark = some base ↔ (base = 16 ∧ (mark = 'x' ∨ mark = 'X'))
      ∨ (base = 8 ∧ (mark = 'o' ∨ mark = 'O')) ∨ (base = 2 ∧ (mark = 'b' ∨ mark = 'B')) := by
  constructor
  · intro h
    unfold baseOf? at h
    split_ifs at h with hx ho hb
    · exact Or.inl ⟨(Option.some.inj h).symm, hx⟩
    · exact Or.inr (Or.inl ⟨(Option.some.inj h).symm, ho⟩)
    · exact Or.inr (Or.inr ⟨(Option.some.inj h).symm, hb⟩)
  · rintro (⟨rfl, rfl | rfl⟩ | ⟨rfl, rfl | rfl⟩ | ⟨rfl, rfl | rfl⟩) <;> rfl

/-- Behind a zero and the mark of a base, digits in that base are read. -/
theorem readBased?_eq {mark : Char} {base : Nat} (hmark : baseOf? mark = some base) {digits : Text}
    (hne : digits ≠ []) :
    readBased? ('0' :: mark :: digits) = (digits.mapM (Text.digitIn base)).map (.based base) := by
  obtain ⟨c, s, rfl⟩ := List.exists_cons_of_ne_nil hne
  show (baseOf? mark).bind (fun base => ((c :: s).mapM (Text.digitIn base)).bind
    fun values => some (based base values)) = _
  rw [hmark, Option.map_eq_bind]
  rfl

/-- What is read in a base has a zero, the mark of the base and a digit. -/
theorem exists_of_readBased? {s : Text} {n : Numeral} (h : readBased? s = some n) :
    ∃ mark base digits, s = '0' :: mark :: digits ∧ digits ≠ [] ∧ baseOf? mark = some base := by
  unfold readBased? at h
  split at h
  · next mark digit digits =>
    obtain ⟨base, hbase, -⟩ := Option.bind_eq_some_iff.1 h
    exact ⟨mark, base, _, rfl, List.cons_ne_nil _ _, hbase⟩
  · exact absurd h (by simp)

/-- **A numeral in a base** is read just if it has the form of one. -/
theorem isSome_readBased?_iff {s : Text} : (readBased? s).isSome = true ↔ IsBased s := by
  constructor
  · intro h
    obtain ⟨n, hn⟩ := Option.isSome_iff_exists.1 h
    obtain ⟨mark, base, digits, rfl, hne, hmark⟩ := exists_of_readBased? hn
    rw [readBased?_eq hmark hne, Option.isSome_map, isSome_mapM_iff] at h
    rcases baseOf?_eq_some_iff.1 hmark with ⟨rfl, hx⟩ | ⟨rfl, ho⟩ | ⟨rfl, hb⟩
    · exact .hexadecimal hx hne fun c hc => Text.isSome_digitIn_sixteen.1 (h c hc)
    · exact .octal ho hne fun c hc => Text.isSome_digitIn_eight.1 (h c hc)
    · exact .binary hb hne fun c hc => Text.isSome_digitIn_two.1 (h c hc)
  · rintro (⟨hmark, hne, hdigits⟩ | ⟨hmark, hne, hdigits⟩ | ⟨hmark, hne, hdigits⟩)
    · rw [readBased?_eq (baseOf?_eq_some_iff.2 (Or.inl ⟨rfl, hmark⟩)) hne, Option.isSome_map,
        isSome_mapM_iff]
      exact fun c hc => Text.isSome_digitIn_sixteen.2 (hdigits c hc)
    · rw [readBased?_eq (baseOf?_eq_some_iff.2 (Or.inr (Or.inl ⟨rfl, hmark⟩))) hne,
        Option.isSome_map, isSome_mapM_iff]
      exact fun c hc => Text.isSome_digitIn_eight.2 (hdigits c hc)
    · rw [readBased?_eq (baseOf?_eq_some_iff.2 (Or.inr (Or.inr ⟨rfl, hmark⟩))) hne,
        Option.isSome_map, isSome_mapM_iff]
      exact fun c hc => Text.isSome_digitIn_two.2 (hdigits c hc)

/-! ## Decimals -/

/-- An exponent is read to its end. -/
theorem readExponent?_exponentText (exponent : Option ExponentForm) :
    readExponent? (DecimalForm.exponentText exponent)
      = some ((exponent.map ExponentForm.value).getD 0) := by
  rcases exponent with _ | exponent
  · rfl
  · obtain ⟨c, s, hcons, hdigit⟩ := exponent.digits.exists_digit
    have hsplit : splitSign exponent.digits.toText = (exponent.digits.negative, exponent.digits.digits) :=
      exponent.digits.splitSign_toText
    show readExponent? (exponent.mark :: exponent.digits.toText) = some exponent.value
    unfold readExponent?
    dsimp only
    rw [hsplit]
    exact if_pos ⟨exponent.isMark, exponent.digits.isDigits⟩

/-- What is read as an exponent is one, or nothing at all. -/
theorem exists_exponentForm {s : Text} {power : Int} (h : readExponent? s = some power) :
    ∃ exponent : Option ExponentForm, s = DecimalForm.exponentText exponent
      ∧ power = (exponent.map ExponentForm.value).getD 0 := by
  rcases s with _ | ⟨mark, s⟩
  · exact ⟨none, rfl, (Option.some.inj h).symm⟩
  · have hread := h
    unfold readExponent? at h
    dsimp only at h
    split at h
    · next hparts =>
      obtain ⟨sign, hs, -⟩ := exists_sign s
      -- The exponent that stands there is read as its own power.
      let exponent : ExponentForm := ⟨mark, ⟨sign, (splitSign s).2, hparts.2⟩, hparts.1⟩
      have htext : mark :: s = DecimalForm.exponentText (some exponent) := congrArg (mark :: ·) hs
      refine ⟨some exponent, htext, ?_⟩
      rw [htext, readExponent?_exponentText] at hread
      exact (Option.some.inj hread).symm
    · exact absurd h (by simp)

/-- The digits behind a point end where no digit follows, and an absent point is not missed. -/
theorem splitFraction_append {fraction : Option Text}
    (hdigits : ∀ c ∈ fraction.getD [], c.isDigit = true) {s : Text}
    (hs : ∀ c ∈ s.head?, c.isDigit = false ∧ c ≠ '.') :
    splitFraction (DecimalForm.fractionText fraction ++ s) = (fraction.getD [], s) := by
  rcases fraction with _ | fraction
  · show splitFraction s = ([], s)
    unfold splitFraction
    split
    · exact absurd rfl (hs '.' rfl).2
    · rfl
  · have hstop : ∀ c ∈ s.head?, c.isDigit = false := fun c hc => (hs c hc).1
    have hfraction : ∀ c ∈ fraction, c.isDigit = true := hdigits
    show (List.takeWhile Char.isDigit (fraction ++ s), List.dropWhile Char.isDigit (fraction ++ s))
      = (fraction, s)
    rw [Text.takeWhile_append_stop hfraction hstop, Text.dropWhile_append_stop hfraction hstop]

/-- What is split off is a point with digits behind it, or nothing at all. -/
theorem exists_fraction (s : Text) :
    ∃ fraction : Option Text, s = DecimalForm.fractionText fraction ++ (splitFraction s).2
      ∧ (splitFraction s).1 = fraction.getD [] ∧ ∀ c ∈ fraction.getD [], c.isDigit = true := by
  unfold splitFraction
  split
  · next s =>
    refine ⟨some (s.takeWhile Char.isDigit), ?_, rfl, fun c hc => List.mem_takeWhile_imp hc⟩
    exact congrArg ('.' :: ·) List.takeWhile_append_dropWhile.symm
  · exact ⟨none, rfl, rfl, fun c hc => absurd hc List.not_mem_nil⟩

end Numeral

namespace DecimalForm

theorem head?_exponentText {exponent : Option ExponentForm} :
    ∀ c ∈ (exponentText exponent).head?, c = 'e' ∨ c = 'E' := by
  rcases exponent with _ | exponent
  · exact fun c hc => absurd hc (by simp [exponentText])
  · rintro c ⟨⟩
    exact exponent.isMark

/-- An exponent begins with neither a digit nor a point. -/
theorem isDigit_head?_exponentText {exponent : Option ExponentForm} :
    ∀ c ∈ (exponentText exponent).head?, c.isDigit = false ∧ c ≠ '.' := by
  intro c hc
  rcases head?_exponentText c hc with rfl | rfl <;> decide

theorem head?_fractionText_append {fraction : Option Text} {s : Text} {c : Char}
    (h : c ∈ (fractionText fraction ++ s).head?) : c = '.' ∨ c ∈ s.head? := by
  rcases fraction with _ | fraction
  · exact Or.inr h
  · exact Or.inl (Option.some.inj h).symm

variable (form : DecimalForm)

/-- What stands behind the whole part begins with no digit. -/
theorem isDigit_head?_behind :
    ∀ c ∈ (fractionText form.fraction ++ exponentText form.exponent).head?, c.isDigit = false := by
  intro c hc
  rcases head?_fractionText_append hc with rfl | hexponent
  · decide
  · exact (isDigit_head?_exponentText c hexponent).1

/-- A decimal is read by its parts. -/
theorem readDecimal?_unsignedText (negative : Bool) :
    Numeral.readDecimal? negative form.unsignedText
      = some (.decimal negative form.whole (form.fraction.getD []) form.power) := by
  unfold Numeral.readDecimal? unsignedText
  dsimp only
  rw [Text.takeWhile_append_stop form.isDigit_whole form.isDigit_head?_behind,
    Text.dropWhile_append_stop form.isDigit_whole form.isDigit_head?_behind,
    Numeral.splitFraction_append form.isDigit_fraction isDigit_head?_exponentText]
  dsimp only
  rw [if_neg fun h => form.hasDigit.elim (absurd h.1) (absurd h.2),
    Numeral.readExponent?_exponentText]
  rfl

/-- A decimal begins with a digit or a point. -/
theorem head?_unsignedText : ∀ c ∈ form.unsignedText.head?, c.isDigit = true ∨ c = '.' := by
  unfold unsignedText
  rcases hwhole : form.whole with _ | ⟨d, whole⟩
  · -- Without a digit in front there is a point.
    rcases hfraction : form.fraction with _ | fraction
    · exact absurd form.hasDigit (by simp [hwhole, hfraction])
    · rintro c ⟨⟩
      exact Or.inr rfl
  · rintro c ⟨⟩
    exact Or.inl (form.isDigit_whole d (by rw [hwhole]; exact List.mem_cons_self))

/-- A decimal without its sign holds digits and the marks between them. -/
theorem mem_unsignedText {c : Char} (h : c ∈ form.unsignedText) :
    c.isDigit = true ∨ c ∈ ['+', '-', '.', 'e', 'E'] := by
  unfold unsignedText at h
  simp only [List.mem_append] at h
  rcases h with hwhole | hfraction | hexponent
  · exact Or.inl (form.isDigit_whole c hwhole)
  · have hdigits := form.isDigit_fraction
    rcases hform : form.fraction with _ | fraction
    · rw [hform] at hfraction
      exact absurd hfraction List.not_mem_nil
    · rw [hform] at hfraction hdigits
      rcases List.mem_cons.1 hfraction with rfl | hmem
      · exact Or.inr (by decide)
      · exact Or.inl (hdigits c hmem)
  · rcases hform : form.exponent with _ | exponent
    · rw [hform] at hexponent
      exact absurd hexponent List.not_mem_nil
    · rw [hform] at hexponent
      rcases List.mem_cons.1 hexponent with rfl | hmem
      · rcases exponent.isMark with hmark | hmark
        · exact Or.inr (by rw [hmark]; decide)
        · exact Or.inr (by rw [hmark]; decide)
      · rcases exponent.digits.mem_toText hmem with hdigit | rfl | rfl
        · exact Or.inl hdigit
        · exact Or.inr (by decide)
        · exact Or.inr (by decide)

/-- A sign is one of these marks too. -/
theorem mem_toText {c : Char} (h : c ∈ form.toText) :
    c.isDigit = true ∨ c ∈ ['+', '-', '.', 'e', 'E'] := by
  rcases List.mem_append.1 h with hsign | hrest
  · right
    unfold SignedDigits.signText at hsign
    split at hsign
    · exact absurd hsign List.not_mem_nil
    · rw [List.mem_singleton.1 hsign]
      decide
    · rw [List.mem_singleton.1 hsign]
      decide
  · exact form.mem_unsignedText hrest

/-- It holds a digit. -/
theorem exists_digit : ∃ c ∈ form.unsignedText, c.isDigit = true := by
  unfold unsignedText
  rcases form.hasDigit with hwhole | hfraction
  · obtain ⟨c, hc⟩ := List.exists_mem_of_ne_nil _ hwhole
    exact ⟨c, List.mem_append_left _ hc, form.isDigit_whole c hc⟩
  · obtain ⟨c, hc⟩ := List.exists_mem_of_ne_nil _ hfraction
    refine ⟨c, List.mem_append_right _ (List.mem_append_left _ ?_), form.isDigit_fraction c hc⟩
    rcases hform : form.fraction with _ | fraction
    · rw [hform] at hc
      exact absurd hc List.not_mem_nil
    · rw [hform] at hc
      exact List.mem_cons_of_mem _ hc

/-- So it holds no mark of a base. -/
theorem baseOf?_of_mem_toText {c : Char} (h : c ∈ form.toText) : Numeral.baseOf? c = none := by
  rcases form.mem_toText h with hdigit | hmark
  · have htoNat := Text.isDigit_iff_toNat.1 hdigit
    have hB : 'B'.toNat = 66 := rfl
    exact Numeral.baseOf?_eq_none (Or.inl (by omega))
  · have hnone : ['+', '-', '.', 'e', 'E'].all (fun c => (Numeral.baseOf? c).isNone) = true := by
      decide
    exact Option.isNone_iff_eq_none.1 (List.all_eq_true.1 hnone c hmark)

/-- **A decimal** is read as its numeral. -/
theorem read?_toText : Numeral.read? form.toText = some form.numeral := by
  have hhead : ∀ c ∈ form.unsignedText.head?, c ≠ '-' ∧ c ≠ '+' := by
    intro c hc
    rcases form.head?_unsignedText c hc with hdigit | rfl
    · exact Numeral.ne_sign_of_isDigit hdigit
    · decide
  have hinfinity : form.unsignedText ≠ "Infinity".toList := by
    intro h
    rcases form.head?_unsignedText 'I' (by rw [h]; rfl) with hI | hI
    · exact absurd hI (by decide)
    · exact absurd hI (by decide)
  unfold Numeral.read? Numeral.readSigned?
  rw [Numeral.readBased?_eq_none fun c hc => form.baseOf?_of_mem_toText hc, Option.none_or, toText,
    Numeral.splitSign_append form.sign hhead]
  dsimp only
  rw [if_neg hinfinity, form.readDecimal?_unsignedText]
  rfl

/-- What is read as a decimal without a sign is one. -/
theorem exists_of_readDecimal? {negative : Bool} {s : Text} {n : Numeral}
    (h : Numeral.readDecimal? negative s = some n) (sign : Option Bool) :
    ∃ form : DecimalForm, form.sign = sign ∧ s = form.unsignedText := by
  have hwhole := List.takeWhile_append_dropWhile (p := Char.isDigit) (l := s)
  obtain ⟨fraction, hfraction, hdigits, hall⟩ := Numeral.exists_fraction (s.dropWhile Char.isDigit)
  unfold Numeral.readDecimal? at h
  dsimp only at h
  split at h
  · exact absurd h (by simp)
  · next hsome =>
    obtain ⟨power, hpower, -⟩ := Option.map_eq_some_iff.1 h
    obtain ⟨exponent, hexponent, -⟩ := Numeral.exists_exponentForm hpower
    rw [not_and_or, hdigits] at hsome
    refine ⟨⟨sign, s.takeWhile Char.isDigit, fraction, exponent,
      fun c hc => List.mem_takeWhile_imp hc, hall, hsome⟩, rfl, ?_⟩
    unfold unsignedText
    dsimp only
    rw [← hexponent, ← hfraction, hwhole]

end DecimalForm

namespace Numeral

/-- What is read with a sign is infinity or a decimal. -/
theorem exists_of_readSigned? {s : Text} {n : Numeral} (h : readSigned? s = some n) :
    (∃ sign, s = infinityText sign) ∨ ∃ form : DecimalForm, s = form.toText := by
  obtain ⟨sign, hs, -⟩ := exists_sign s
  unfold readSigned? at h
  dsimp only at h
  split at h
  · next hinfinity =>
    rw [hinfinity] at hs
    exact Or.inl ⟨sign, hs⟩
  · obtain ⟨form, rfl, htext⟩ := DecimalForm.exists_of_readDecimal? h sign
    rw [htext] at hs
    exact Or.inr ⟨form, hs⟩

/-- The word for infinity is read with its sign. -/
theorem read?_infinityText (sign : Option Bool) :
    read? (infinityText sign) = some (.infinity (sign.getD false)) := by
  rcases sign with _ | ⟨_ | _⟩ <;> decide

/-- **The texts that are numerals** are those of the three forms. -/
theorem isSome_read?_iff {s : Text} : (read? s).isSome = true ↔
    IsBased s ∨ (∃ sign, s = infinityText sign) ∨ ∃ form : DecimalForm, s = form.toText := by
  constructor
  · intro h
    obtain ⟨n, hn⟩ := Option.isSome_iff_exists.1 h
    unfold read? at hn
    rcases Option.or_eq_some_iff.1 hn with hbased | ⟨-, hsigned⟩
    · exact Or.inl (isSome_readBased?_iff.1 (Option.isSome_of_eq_some hbased))
    · exact Or.inr (exists_of_readSigned? hsigned)
  · rintro (hbased | ⟨sign, rfl⟩ | ⟨form, rfl⟩)
    · unfold read?
      rw [Option.isSome_or, isSome_readBased?_iff.2 hbased]
      rfl
    · rw [read?_infinityText]
      rfl
    · rw [form.read?_toText]
      rfl

end Numeral

/-! ## Reading in steps -/

namespace Numeral

/-- A reader of numbers that takes more words than the one for infinity, and any of them in any case:
`[+-]?(inf|infinity|nan|...)`, where a decimal stands for the dots. -/
def readAnyCase? (s : Text) : Option Binary64 :=
  let (negative, rest) := splitSign s
  let word := rest.map Char.toLower
  if word = "inf".toList ∨ word = "infinity".toList then some (Binary64.infinity negative)
  else if word = "nan".toList then
    some (.ofCode negative (Binary64.infinityCode + Binary64.fractions / 2))
  else (readDecimal? negative rest).map value

/-- Whether `c` is a digit or a mark of a decimal. -/
def isDecimalChar (c : Char) : Bool :=
  c.isDigit || c = '+' || c = '-' || c = '.' || c = 'e' || c = 'E'

/-- Reads a number in steps: digits in a base, the word for infinity behind a sign, and of the rest what
that reader takes, if there is a digit and no character that does not belong to a decimal. -/
def readInSteps? (s : Text) : Option Binary64 :=
  match readBased? s with
  | some n => some n.value
  | none =>
    let (negative, rest) := splitSign s
    if rest = "Infinity".toList then some (Binary64.infinity negative)
    else if rest.any Char.isDigit = false then none
    else if rest.all isDecimalChar = false then none
    else readAnyCase? s

theorem isDecimalChar_iff {c : Char} :
    isDecimalChar c = true ↔ c.isDigit = true ∨ c ∈ ['+', '-', '.', 'e', 'E'] := by
  unfold isDecimalChar
  simp only [Bool.or_eq_true, decide_eq_true_iff, List.mem_cons, List.not_mem_nil, or_false, or_assoc]

/-- A text of these characters is none of the words, since each of them holds an `n`. -/
theorem map_toLower_ne {s word : Text} (hs : s.all isDecimalChar = true) (hword : 'n' ∈ word) :
    s.map Char.toLower ≠ word := by
  rintro rfl
  obtain ⟨c, hc, hlower⟩ := List.mem_map.1 hword
  rcases isDecimalChar_iff.1 (List.all_eq_true.1 hs c hc) with hdigit | hmark
  · have htoNat := Text.isDigit_iff_toNat.1 hdigit
    have hsame : c.toLower = c := by
      unfold Char.toLower
      rw [dif_neg]
      rintro ⟨hA, -⟩
      have hA' : 65 ≤ c.toNat := hA
      omega
    rw [hsame] at hlower
    rw [hlower] at hdigit
    exact absurd hdigit (by decide)
  · have hne : ['+', '-', '.', 'e', 'E'].all (fun c => c.toLower ≠ 'n') = true := by decide
    exact of_decide_eq_true (List.all_eq_true.1 hne c hmark) hlower

/-- **Reading in steps** comes to the same. -/
theorem readInSteps?_eq (s : Text) : readInSteps? s = (read? s).map value := by
  unfold readInSteps? read?
  rcases readBased? s with _ | n
  · dsimp only
    rw [Option.none_or]
    unfold readSigned?
    dsimp only
    by_cases hinfinity : (splitSign s).2 = "Infinity".toList
    · rw [if_pos hinfinity, if_pos hinfinity]
      rfl
    · rw [if_neg hinfinity, if_neg hinfinity]
      by_cases hchars : (splitSign s).2.any Char.isDigit = true
        ∧ (splitSign s).2.all isDecimalChar = true
      · obtain ⟨hdigit, hall⟩ := hchars
        rw [if_neg (by rw [hdigit]; decide), if_neg (by rw [hall]; decide)]
        unfold readAnyCase?
        dsimp only
        rw [if_neg, if_neg (map_toLower_ne hall (by decide))]
        rintro (hinf | hword)
        · exact map_toLower_ne hall (by decide) hinf
        · exact map_toLower_ne hall (by decide) hword
      · -- What the steps refuse has not the characters of a decimal.
        have hnone : readDecimal? (splitSign s).1 (splitSign s).2 = none := by
          rw [Option.eq_none_iff_forall_ne_some]
          intro n hn
          obtain ⟨form, -, htext⟩ := DecimalForm.exists_of_readDecimal? hn none
          rw [htext] at hchars
          refine hchars ⟨List.any_eq_true.2 form.exists_digit, List.all_eq_true.2 fun c hc => ?_⟩
          exact isDecimalChar_iff.2 (form.mem_unsignedText hc)
        rw [hnone]
        rw [not_and_or, Bool.not_eq_true, Bool.not_eq_true] at hchars
        rcases hchars with hdigit | hall
        · exact if_pos hdigit
        · rw [if_pos hall]
          exact ite_self _
  · rfl

end Numeral

/-! ## What the forms denote -/

namespace DecimalForm

/-- The decimal that is rounded to the number that a form denotes. -/
def decimal (form : DecimalForm) : Decimal :=
  ⟨Text.toNat (form.whole ++ form.fraction.getD []),
    form.power - (form.fraction.getD []).length⟩

/-- It is the rational that the form denotes. -/
theorem toRat_decimal (form : DecimalForm) : form.decimal.toRat = form.magnitude := by
  have hten : (10 : ℚ) ≠ 0 := by norm_num
  unfold Decimal.toRat decimal magnitude
  dsimp only
  rw [Text.toNat_append, zpow_sub₀ hten, zpow_natCast]
  push_cast
  field_simp

end DecimalForm

/-- Nothing is rounded to zero but what lies up to half of the least positive number. -/
theorem Decimal.nearestCode_eq_zero_iff {d : Decimal} :
    d.nearestCode = 0 ↔ d.toRat ≤ 1 / 2 ^ 1075 := by
  have hmid : Binary64.twiceMidpoint 0 = 1 := rfl
  have hden : (0 : ℚ) < d.fraction.2 := Nat.cast_pos.2 d.fraction_pos
  have hhalf : d.toRat ≤ 1 / 2 ^ 1075 ↔ 2 * d.fraction.1 ≤ d.fraction.2 := by
    have hone : (0 : ℚ) < 2 ^ 1074 := by positivity
    rw [toRat_eq, Binary64.ofUnits, show (2 : ℚ) ^ 1075 = 2 * 2 ^ 1074 from pow_succ' 2 1074]
    generalize (2 : ℚ) ^ 1074 = one at hone
    rw [div_le_div_iff₀ (by positivity) (by positivity), one_mul, ← mul_assoc,
      mul_le_mul_iff_left₀ hone, mul_comm _ (2 : ℚ)]
    exact_mod_cast Iff.rfl
  rw [nearestCode_eq_fraction, Binary64.nearestCode_eq_iff d.fraction_pos, hhalf]
  constructor
  · rintro ⟨-, hbetween⟩
    have hle := (hbetween.below Binary64.infinityCode_pos).1
    rwa [hmid, Nat.one_mul] at hle
  · intro hle
    refine ⟨Nat.zero_le _, fun c hc => absurd hc (Nat.succ_ne_zero c), fun _ => ?_⟩
    rw [hmid, Nat.one_mul]
    exact ⟨hle, fun _ => rfl⟩

namespace Binary64

/-- **The grammar of numerals.**  Without the spaces around it, a text that is read has one of the
three forms, and every text of these forms is read, never as what is no number; reading in steps, with
a reader that takes more words, comes to the same.  The word for infinity is read as infinity of its
sign.  A decimal is read as the number nearest to the rational that it denotes, with its sign: infinity
if that is too large, and zero if it is too small. -/
theorem read?_grammar (s : Text) :
    read? s = Numeral.readInSteps? s.trim
    ∧ ((∃ x, read? s = some x) ↔ Numeral.IsBased s.trim
      ∨ (∃ sign, s.trim = Numeral.infinityText sign) ∨ ∃ form : DecimalForm, s.trim = form.toText)
    ∧ (∀ x, read? s = some x → x.meaning ≠ .notANumber)
    ∧ (∀ sign, s.trim = Numeral.infinityText sign → read? s = some (infinity (sign.getD false)))
    ∧ ∀ form : DecimalForm, s.trim = form.toText →
      ∃ x, read? s = some x ∧ IsNearest form.negative form.magnitude x
        ∧ (overflowBound ≤ form.magnitude → x = infinity form.negative)
        ∧ (form.magnitude ≤ 1 / 2 ^ 1075 ↔ x = ofCode form.negative 0) := by
  refine ⟨(Numeral.readInSteps?_eq s.trim).symm, ?_, fun x hx => meaning_of_read? hx,
    fun sign hsign => ?_, fun form hform => ?_⟩
  · rw [← Option.isSome_iff_exists, ← Numeral.isSome_read?_iff]
    unfold read?
    rw [Option.isSome_map]
  · unfold read?
    rw [hsign, Numeral.read?_infinityText]
    rfl
  · have hread : read? s = some (Decimal.nearest form.negative form.decimal) := by
      unfold read?
      rw [hform, form.read?_toText]
      rfl
    have hnearest : IsNearest form.negative form.magnitude
        (Decimal.nearest form.negative form.decimal) := by
      rw [← form.toRat_decimal]
      exact Decimal.isNearest_iff.2 rfl
    refine ⟨_, hread, hnearest, hnearest.overflow, ?_⟩
    rw [← form.toRat_decimal, ← Decimal.nearestCode_eq_zero_iff, Decimal.nearest]
    refine ⟨fun h => by rw [h], fun h => ?_⟩
    have hcode := congrArg code h
    rwa [code_ofCode _ (lt_signBit form.decimal.nearestCode_le), code_ofCode _ (by decide)] at hcode

/-- Infinity with a sign and a space in front, and a decimal with all of its parts. -/
theorem read?_grammar_signed : read? " -Infinity".toList = some (infinity true)
    ∧ ∃ x, read? "-2.5e1".toList = some x ∧ IsNearest true 25 x := by
  obtain ⟨-, -, -, hinfinity, -⟩ := read?_grammar " -Infinity".toList
  obtain ⟨-, -, -, -, hdecimal⟩ := read?_grammar "-2.5e1".toList
  refine ⟨hinfinity (some true) (by decide), ?_⟩
  let exponent : ExponentForm := ⟨'e', ⟨none, ['1'], by decide⟩, Or.inl rfl⟩
  let form : DecimalForm :=
    ⟨some true, ['2'], some ['5'], some exponent, List.all_eq_true.1 (by decide),
      List.all_eq_true.1 (by decide), Or.inl (by decide)⟩
  obtain ⟨x, hx, hnearest, -⟩ := hdecimal form (by decide)
  have hmagnitude : form.magnitude = 25 := by
    show ((2 : Nat) + (5 : Nat) / 10 ^ 1 : ℚ) * 10 ^ ((1 : Nat) : Int) = 25
    norm_num
  exact ⟨x, hx, hmagnitude ▸ hnearest⟩

end Binary64

end Playground
