/-
# Reading strings and numbers

However a string or a number is written, it is read as the grammar means it.

* `Json.readString?_spells` : strings, with every way to write a character.
* `Json.isNumber_spells` : numbers.
-/
import Playground.Json.Reader
import Playground.Proofs.Json.Grammar
import Playground.Proofs.Number.Digits
import Playground.Proofs.Text.Occurrence
import Playground.Proofs.Text.Trim

namespace Playground

namespace Json

/-! ## Strings -/

/-- Four digits are read as their unit. -/
theorem readUnit?_spells {n : Nat} {digits : Text} (h : UnitSpells n digits) (rest : Text) :
    readUnit? (digits ++ rest) = some (n, rest) := by
  obtain @⟨a, b, c, d, va, vb, vc, vd, ha, hb, hc, hd⟩ := h
  have hvalues : [a, b, c, d].mapM (Text.digitIn 16) = some [va, vb, vc, vd] := by
    simp [ha, hb, hc, hd]
  have hvalue : [va, vb, vc, vd].foldl (fun n digit => 16 * n + digit) 0
      = va * 0x1000 + vb * 0x100 + vc * 0x10 + vd := by
    simp only [List.foldl_cons, List.foldl_nil]
    omega
  show (do
    let digits ← [a, b, c, d].mapM (Text.digitIn 16)
    some (digits.foldl (fun n digit => 16 * n + digit) 0, rest)) = _
  rw [hvalues, Option.bind_eq_bind, Option.bind_some, hvalue]

/-- A unit is read as its character, since no character is a surrogate. -/
theorem readUnicode?_unit {c : Char} {digits : Text} (h : UnitSpells c.toNat digits) (rest : Text) :
    readUnicode? (digits ++ rest) = some (c, rest) := by
  have hvalid : c.toNat < 0xD800 ∨ 0xE000 ≤ c.toNat := by
    rcases c.valid with hlow | ⟨hhigh, -⟩
    · exact Or.inl hlow
    · exact Or.inr hhigh
  unfold readUnicode?
  rw [readUnit?_spells h, Option.bind_eq_bind, Option.bind_some]
  dsimp only
  rw [if_pos hvalid, Char.ofNat_toNat]

/-- A pair of surrogates is read as its character. -/
theorem readUnicode?_pair {c : Char} {high low : Text} (hpair : 0x10000 ≤ c.toNat)
    (hhigh : UnitSpells (0xD800 + (c.toNat - 0x10000) / 0x400) high)
    (hlow : UnitSpells (0xDC00 + (c.toNat - 0x10000) % 0x400) low) (rest : Text) :
    readUnicode? (high ++ (['\\', 'u'] ++ (low ++ rest))) = some (c, rest) := by
  have hmax : c.toNat < 0x110000 := by
    rcases c.valid with hsmall | ⟨-, hlarge⟩
    · exact lt_trans hsmall (by decide)
    · exact hlarge
  have hofNat : ofSurrogates (0xD800 + (c.toNat - 0x10000) / 0x400)
      (0xDC00 + (c.toNat - 0x10000) % 0x400) = c := by
    have hsum : 0x10000 + (0xD800 + (c.toNat - 0x10000) / 0x400 - 0xD800) * 0x400
        + (0xDC00 + (c.toNat - 0x10000) % 0x400 - 0xDC00) = c.toNat := by omega
    unfold ofSurrogates
    rw [hsum, Char.ofNat_toNat]
  unfold readUnicode?
  rw [readUnit?_spells hhigh, Option.bind_eq_bind, Option.bind_some]
  dsimp only
  rw [if_neg (by omega), if_neg (by omega), Text.after?_append, Option.bind_eq_bind,
    Option.bind_some, readUnit?_spells hlow, Option.bind_some]
  dsimp only
  rw [if_pos (by omega), hofNat]

/-- A letter is read as its character. -/
theorem readEscape?_letter {c letter : Char} (h : (c, letter) ∈ letters) (rest : Text) :
    readEscape? (letter :: rest) = some (c, rest) := by
  simp only [letters, List.mem_cons, Prod.mk.injEq, List.not_mem_nil, or_false] at h
  rcases h with ⟨rfl, rfl⟩ | ⟨rfl, rfl⟩ | ⟨rfl, rfl⟩ | ⟨rfl, rfl⟩ | ⟨rfl, rfl⟩ | ⟨rfl, rfl⟩ | ⟨rfl, rfl⟩
    | ⟨rfl, rfl⟩
  all_goals rfl

theorem readString?_escape {done rest rest' : Text} {c : Char}
    (h : readEscape? rest = some (c, rest')) :
    readString? done ('\\' :: rest) = readString? (c :: done) rest' := by
  rw [readString?]
  generalize readEscape? rest = read at h ⊢
  subst h
  rfl

theorem readString?_plain {c : Char} (hlow : ¬ c < ' ') (hquote : c ≠ '"') (hbackslash : c ≠ '\\')
    (done rest : Text) : readString? done (c :: rest) = readString? (c :: done) rest := by
  rw [readString?]
  · exact if_neg hlow
  · exact hquote
  · exact hbackslash

/-- However a character is written, it is read. -/
theorem readString?_char {c : Char} {first : Text} (h : CharSpells c first) (done rest : Text) :
    readString? done (first ++ rest) = readString? (c :: done) rest := by
  cases h with
  | plain hlow hquote hbackslash => exact readString?_plain hlow hquote hbackslash done rest
  | letter hletter => exact readString?_escape (readEscape?_letter hletter rest)
  | unit hunit => exact readString?_escape (readUnicode?_unit hunit rest)
  | @pair high low hpair hhigh hlow =>
    have hread := readUnicode?_pair hpair hhigh hlow rest
    have hassoc : ['\\', 'u'] ++ high ++ ['\\', 'u'] ++ low ++ rest
        = '\\' :: 'u' :: (high ++ (['\\', 'u'] ++ (low ++ rest))) := by
      simp only [List.append_assoc, List.cons_append, List.nil_append]
    rw [hassoc]
    exact readString?_escape hread

/-- **A string** is read up to its closing quote. -/
theorem readString?_spells {s body : Text} (h : StringSpells s body) (done rest : Text) :
    readString? done (body ++ '"' :: rest) = some (done.reverse ++ s, rest) := by
  induction h generalizing done with
  | nil =>
    rw [List.nil_append, List.append_nil, readString?]
  | @cons c s first body hc _ ih =>
    rw [List.append_assoc, readString?_char hc, ih, List.reverse_cons, List.append_assoc,
      List.singleton_append]

/-! ## Numbers -/

theorem isNumberChar_of_isDigit {c : Char} (h : c.isDigit = true) : isNumberChar c = true := by
  unfold isNumberChar
  rw [h]
  rfl

/-- The digits of a number end where something else follows. -/
theorem takeWhile_isDigit {digits rest : Text} (h : Text.isDigits digits = true)
    (hrest : ∀ c ∈ rest.head?, c.isDigit = false) :
    (digits ++ rest).takeWhile Char.isDigit = digits
      ∧ (digits ++ rest).dropWhile Char.isDigit = rest :=
  ⟨Text.takeWhile_append_stop (Text.isDigits_iff.1 h).2 hrest,
    Text.dropWhile_append_stop (Text.isDigits_iff.1 h).2 hrest⟩

theorem isEmpty_of_isDigits {digits : Text} (h : Text.isDigits digits = true) :
    digits.isEmpty = false := by
  rw [List.isEmpty_eq_false_iff]
  exact (Text.isDigits_iff.1 h).1

/-- An exponent begins with its mark. -/
theorem ExponentSpells.head {s : Text} (h : ExponentSpells s) :
    ∀ c ∈ s.head?, c ≠ '.' ∧ c.isDigit = false := by
  rcases h with rfl | ⟨mark, hmark, sign, -, digits, -, rfl⟩
  · exact fun c hc => nomatch hc
  · rintro c ⟨⟩
    simp only [List.mem_cons, List.not_mem_nil, or_false] at hmark
    rcases hmark with rfl | rfl
    · exact ⟨by decide, by decide⟩
    · exact ⟨by decide, by decide⟩

theorem isExponent_spells {s : Text} (h : ExponentSpells s) : isExponent s = true := by
  rcases h with rfl | ⟨mark, hmark, sign, hsign, digits, hdigits, rfl⟩
  · rfl
  · obtain ⟨hne, hall⟩ := Text.isDigits_iff.1 hdigits
    obtain ⟨d, rest, rfl⟩ := List.exists_cons_of_ne_nil hne
    have hd := hall d List.mem_cons_self
    have hmark : (decide (mark = 'e') || decide (mark = 'E')) = true := by
      simpa using hmark
    simp only [List.mem_cons, List.not_mem_nil, or_false] at hsign
    rcases hsign with rfl | rfl | rfl
    · have hsigned : ¬ (decide (d = '+') || decide (d = '-')) = true := by
        rw [Bool.or_eq_true, decide_eq_true_iff, decide_eq_true_iff]
        rintro (rfl | rfl)
        all_goals exact absurd hd (by decide)
      show (_ && if (decide (d = '+') || decide (d = '-')) = true then _ else _) = true
      rw [hmark, if_neg hsigned, Bool.true_and]
      exact hdigits
    all_goals
      show (_ && Text.isDigits (d :: rest)) = true
      rw [hmark, hdigits]
      rfl

theorem isFraction_spells {fraction exponent : Text} (hfraction : FractionSpells fraction)
    (hexponent : ExponentSpells exponent) : isFraction (fraction ++ exponent) = true := by
  have hread := isExponent_spells hexponent
  rcases hfraction with rfl | ⟨digits, hdigits, rfl⟩
  · rw [List.nil_append]
    unfold isFraction
    split
    · exact absurd rfl (hexponent.head '.' rfl).1
    · exact hread
  · obtain ⟨htake, hdrop⟩ := takeWhile_isDigit hdigits fun c hc => (hexponent.head c hc).2
    show (!((digits ++ exponent).takeWhile Char.isDigit).isEmpty
      && isExponent ((digits ++ exponent).dropWhile Char.isDigit)) = true
    rw [htake, hdrop, hread, isEmpty_of_isDigits hdigits]
    rfl

/-- What follows the whole part of a number begins with no digit. -/
theorem head_fraction {fraction exponent : Text} (hfraction : FractionSpells fraction)
    (hexponent : ExponentSpells exponent) :
    ∀ c ∈ (fraction ++ exponent).head?, c.isDigit = false := by
  rcases hfraction with rfl | ⟨digits, -, rfl⟩
  · exact fun c hc => (hexponent.head c hc).2
  · rintro c ⟨⟩
    decide

/-- The whole part of a number begins with a digit. -/
theorem WholeSpells.exists_head {s : Text} (h : WholeSpells s) :
    ∃ c rest, s = c :: rest ∧ c.isDigit = true := by
  rcases h with rfl | ⟨hdigits, -⟩
  · exact ⟨'0', [], rfl, rfl⟩
  · obtain ⟨hne, hall⟩ := Text.isDigits_iff.1 hdigits
    obtain ⟨c, rest, rfl⟩ := List.exists_cons_of_ne_nil hne
    exact ⟨c, rest, rfl, hall c List.mem_cons_self⟩

theorem isUnsignedNumber_spells {whole fraction exponent : Text} (hwhole : WholeSpells whole)
    (hfraction : FractionSpells fraction) (hexponent : ExponentSpells exponent) :
    isUnsignedNumber (whole ++ (fraction ++ exponent)) = true := by
  have hread := isFraction_spells hfraction hexponent
  rcases hwhole with rfl | ⟨hdigits, hzero⟩
  · exact hread
  · obtain ⟨htake, hdrop⟩ := takeWhile_isDigit hdigits (head_fraction hfraction hexponent)
    obtain ⟨c, rest, rfl⟩ := List.exists_cons_of_ne_nil (Text.isDigits_iff.1 hdigits).1
    unfold isUnsignedNumber
    split
    · next heq => exact absurd (congrArg some (List.cons.inj heq).1) hzero
    · rw [htake, hdrop, hread, isEmpty_of_isDigits hdigits]
      rfl

/-- **A number** is taken for one. -/
theorem isNumber_spells {s : Text} (h : NumberSpells s) : isNumber s = true := by
  obtain @⟨sign, whole, fraction, exponent, hsign, hwhole, hfraction, hexponent⟩ := h
  have hread := isUnsignedNumber_spells hwhole hfraction hexponent
  rcases hsign with rfl | rfl
  · obtain ⟨c, rest, rfl, hdigit⟩ := hwhole.exists_head
    show isNumber (c :: (rest ++ (fraction ++ exponent))) = true
    unfold isNumber
    split
    · next heq =>
      rw [(List.cons.inj heq).1] at hdigit
      exact absurd hdigit (by decide)
    · exact hread
  · exact hread

/-- A number holds only characters of numbers. -/
theorem NumberSpells.isNumberChar_of_mem {s : Text} (h : NumberSpells s) :
    ∀ c ∈ s, isNumberChar c = true := by
  obtain @⟨sign, whole, fraction, exponent, hsign, hwhole, hfraction, hexponent⟩ := h
  have hdigits : ∀ digits : Text, Text.isDigits digits = true → ∀ c ∈ digits, isNumberChar c = true :=
    fun digits h c hc => isNumberChar_of_isDigit ((Text.isDigits_iff.1 h).2 c hc)
  have hnil : ∀ c ∈ ([] : Text), isNumberChar c = true := List.forall_mem_nil _
  rw [List.forall_mem_append, List.forall_mem_append, List.forall_mem_append]
  refine ⟨?_, ?_, ?_, ?_⟩
  · rcases hsign with rfl | rfl
    · exact hnil
    · exact List.forall_mem_singleton.2 rfl
  · rcases hwhole with rfl | ⟨hall, -⟩
    · exact List.forall_mem_singleton.2 rfl
    · exact hdigits whole hall
  · rcases hfraction with rfl | ⟨digits, hall, rfl⟩
    · exact hnil
    · rw [List.forall_mem_cons]
      exact ⟨rfl, hdigits digits hall⟩
  · rcases hexponent with rfl | ⟨mark, hmark, sign, hsign, digits, hall, rfl⟩
    · exact hnil
    · rw [List.forall_mem_cons, List.forall_mem_append]
      simp only [List.mem_cons, List.not_mem_nil, or_false] at hmark hsign
      refine ⟨?_, ?_, hdigits digits hall⟩
      · rcases hmark with rfl | rfl <;> rfl
      · rcases hsign with rfl | rfl | rfl
        · exact hnil
        · exact List.forall_mem_singleton.2 rfl
        · exact List.forall_mem_singleton.2 rfl

/-- A digit or a minus begins a number. -/
theorem NumberSpells.exists_head {s : Text} (h : NumberSpells s) :
    ∃ c rest, s = c :: rest ∧ (c.isDigit = true ∨ c = '-') := by
  obtain @⟨sign, whole, fraction, exponent, hsign, hwhole, -, -⟩ := h
  rcases hsign with rfl | rfl
  · obtain ⟨c, rest, rfl, hdigit⟩ := hwhole.exists_head
    exact ⟨c, rest ++ (fraction ++ exponent), rfl, Or.inl hdigit⟩
  · exact ⟨'-', whole ++ (fraction ++ exponent), rfl, Or.inr rfl⟩

end Json

end Playground
