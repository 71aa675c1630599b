/-
# Slices by byte offsets

Offsets in a text count the bytes of UTF-8.  A slice from one offset to another one fails if an offset lies
beyond the end or inside a character, or if the first one lies behind the second.  Bytes of ASCII are
characters of their own, and no other character has such a byte, so that a run of ASCII characters may be
counted in bytes.

* `Text.slice?_eq_some_iff` : the slices that are taken.
* `Text.length_takeWhile_bytes` : a run of bytes of ASCII is as long as the run of their characters.
-/
import Mathlib.Data.List.Infix
import Mathlib.Tactic
import Playground.Proofs.Number.Digits

namespace Playground

namespace Text

/-! ## Slices -/

/-- What follows the first `n` bytes. -/
def dropBytes? : Nat → Text → Option Text
  | 0, s => some s
  | _ + 1, [] => none
  | n + 1, c :: s => if c.utf8Size ≤ n + 1 then dropBytes? (n + 1 - c.utf8Size) s else none

/-- The first `n` bytes. -/
def takeBytes? : Nat → Text → Option Text
  | 0, _ => some []
  | _ + 1, [] => none
  | n + 1, c :: s =>
    if c.utf8Size ≤ n + 1 then (takeBytes? (n + 1 - c.utf8Size) s).map (c :: ·) else none

/-- The slice from the offset `start` up to the offset `stop`. -/
def slice? (s : Text) (start stop : Nat) : Option Text :=
  if start ≤ stop then (dropBytes? start s).bind (takeBytes? (stop - start)) else none

theorem utf8Size_eq_zero_iff {s : Text} : s.utf8Size = 0 ↔ s = [] := by
  constructor
  · intro h
    by_contra hne
    exact absurd h (utf8Size_pos hne).ne'
  · rintro rfl
    rfl

theorem dropBytes?_eq_some_iff {n : Nat} {s rest : Text} :
    dropBytes? n s = some rest ↔ ∃ before, s = before ++ rest ∧ utf8Size before = n := by
  induction s generalizing n with
  | nil =>
    cases n with
    | zero =>
      simp only [dropBytes?, utf8Size_eq_zero_iff, exists_eq_right, List.nil_append, Option.some_inj]
    | succ n =>
      simp only [dropBytes?, reduceCtorEq, false_iff]
      rintro ⟨before, hbefore, hsize⟩
      rw [(List.append_eq_nil_iff.1 hbefore.symm).1] at hsize
      exact absurd hsize (Nat.succ_ne_zero n).symm
  | cons c s ih =>
    cases n with
    | zero =>
      simp only [dropBytes?, utf8Size_eq_zero_iff, exists_eq_right, List.nil_append, Option.some_inj]
    | succ n =>
      have hpos := c.utf8Size_pos
      have hcons : (∃ before, c :: s = before ++ rest ∧ utf8Size before = n + 1)
          ↔ c.utf8Size ≤ n + 1 ∧ ∃ before, s = before ++ rest
            ∧ utf8Size before = n + 1 - c.utf8Size := by
        constructor
        · rintro ⟨before, hs, hsize⟩
          rcases before with _ | ⟨c', before⟩
          · exact absurd hsize (Nat.succ_ne_zero n).symm
          · obtain ⟨rfl, rfl⟩ := List.cons.inj hs
            rw [utf8Size_cons] at hsize
            exact ⟨by omega, before, rfl, by omega⟩
        · rintro ⟨hle, before, rfl, hsize⟩
          exact ⟨c :: before, rfl, by rw [utf8Size_cons]; omega⟩
      rw [hcons, ← ih, dropBytes?]
      split_ifs with hle <;> simp [hle]

theorem takeBytes?_eq_some_iff {n : Nat} {s t : Text} :
    takeBytes? n s = some t ↔ utf8Size t = n ∧ t <+: s := by
  induction s generalizing n t with
  | nil =>
    rw [List.prefix_nil]
    cases n with
    | zero =>
      rw [utf8Size_eq_zero_iff, and_self, takeBytes?, Option.some_inj, eq_comm]
    | succ n =>
      simp only [takeBytes?, reduceCtorEq, false_iff]
      rintro ⟨hsize, rfl⟩
      exact absurd hsize (Nat.succ_ne_zero n).symm
  | cons c s ih =>
    cases n with
    | zero =>
      rw [utf8Size_eq_zero_iff, takeBytes?, Option.some_inj]
      constructor
      · rintro rfl
        exact ⟨rfl, List.nil_prefix⟩
      · exact fun h => h.1.symm
    | succ n =>
      have hpos := c.utf8Size_pos
      rw [takeBytes?]
      split_ifs with hle
      · rw [Option.map_eq_some_iff]
        constructor
        · rintro ⟨t, ht, rfl⟩
          obtain ⟨hsize, hprefix⟩ := ih.1 ht
          rw [utf8Size_cons]
          exact ⟨by omega, (List.prefix_cons_inj c).2 hprefix⟩
        · rintro ⟨hsize, hprefix⟩
          rcases t with _ | ⟨c', t⟩
          · exact absurd hsize (Nat.succ_ne_zero n).symm
          · obtain ⟨rfl, hrest⟩ := List.cons_prefix_cons.1 hprefix
            rw [utf8Size_cons] at hsize
            exact ⟨t, ih.2 ⟨by omega, hrest⟩, rfl⟩
      · simp only [false_iff]
        rintro ⟨hsize, hprefix⟩
        rcases t with _ | ⟨c', t⟩
        · exact absurd hsize (Nat.succ_ne_zero n).symm
        · obtain ⟨rfl, -⟩ := List.cons_prefix_cons.1 hprefix
          rw [utf8Size_cons] at hsize
          omega

/-- **A slice that is taken** is a part of the text between its two offsets. -/
theorem slice?_eq_some_iff {s t : Text} {start stop : Nat} : slice? s start stop = some t
    ↔ ∃ before after, s = before ++ t ++ after ∧ utf8Size before = start
      ∧ utf8Size (before ++ t) = stop := by
  unfold slice?
  split_ifs with hle
  · rw [Option.bind_eq_some_iff]
    constructor
    · rintro ⟨rest, hdrop, htake⟩
      obtain ⟨before, rfl, hbefore⟩ := dropBytes?_eq_some_iff.1 hdrop
      obtain ⟨ht, after, rfl⟩ := takeBytes?_eq_some_iff.1 htake
      refine ⟨before, after, (List.append_assoc _ _ _).symm, hbefore, ?_⟩
      rw [utf8Size_append]
      omega
    · rintro ⟨before, after, rfl, hbefore, hstop⟩
      rw [utf8Size_append] at hstop
      refine ⟨t ++ after, dropBytes?_eq_some_iff.2 ⟨before, List.append_assoc _ _ _, hbefore⟩, ?_⟩
      exact takeBytes?_eq_some_iff.2 ⟨by omega, List.prefix_append t after⟩
  · simp only [false_iff]
    rintro ⟨before, after, -, hbefore, hstop⟩
    rw [utf8Size_append] at hstop
    omega

theorem dropBytes?_append (before rest : Text) :
    dropBytes? (utf8Size before) (before ++ rest) = some rest :=
  dropBytes?_eq_some_iff.2 ⟨before, rfl, rfl⟩

theorem slice?_append (before t after : Text) :
    slice? (before ++ t ++ after) (utf8Size before) (utf8Size (before ++ t)) = some t :=
  slice?_eq_some_iff.2 ⟨before, after, rfl, rfl, rfl⟩

theorem slice?_zero_append (before rest : Text) :
    slice? (before ++ rest) 0 (utf8Size before) = some before :=
  slice?_append [] before rest

/-! ## Bytes -/

/-- The bytes of a text in UTF-8. -/
def bytes (s : Text) : List UInt8 := s.flatMap String.utf8EncodeChar

/-- The byte of a character of ASCII. -/
def byte (c : Char) : UInt8 := UInt8.ofNat c.toNat

theorem length_bytes (s : Text) : s.bytes.length = s.utf8Size := by
  induction s with
  | nil => rfl
  | cons c s ih =>
    rw [utf8Size_cons, ← ih, ← String.length_utf8EncodeChar]
    exact List.length_append

theorem toNat_byte {c : Char} (h : c.toNat < 128) : (byte c).toNat = c.toNat := by
  rw [byte, UInt8.toNat_ofNat']
  omega

theorem byte_inj {c d : Char} (hc : c.toNat < 128) (hd : d.toNat < 128) :
    byte c = byte d ↔ c = d := by
  rw [← UInt8.toNat_inj, toNat_byte hc, toNat_byte hd, Char.toNat_inj]

theorem utf8EncodeChar_of_lt {c : Char} (h : c.toNat < 128) : String.utf8EncodeChar c = [byte c] := by
  have hle : c.val.toNat ≤ 127 := Nat.le_of_lt_succ h
  unfold String.utf8EncodeChar
  exact if_pos hle

theorem utf8Size_of_lt {c : Char} (h : c.toNat < 128) : c.utf8Size = 1 := by
  rw [← String.length_utf8EncodeChar, utf8EncodeChar_of_lt h]
  rfl

/-- A character outside of ASCII begins with a byte outside of it. -/
theorem exists_utf8EncodeChar {c : Char} (h : 128 ≤ c.toNat) :
    ∃ b rest, String.utf8EncodeChar c = b :: rest ∧ 128 ≤ b.toNat := by
  have hgt : ¬ c.val.toNat ≤ 127 := not_le.2 h
  have hlead : ∀ a m n : Nat, 0 < m → 128 ≤ n → m + n ≤ 256 →
      128 ≤ (UInt8.ofNat (a % m + n)).toNat := by
    intro a m n hm hn hsum
    have hlt := Nat.mod_lt a hm
    rw [UInt8.toNat_ofNat']
    omega
  unfold String.utf8EncodeChar
  dsimp only
  rw [if_neg hgt]
  split_ifs
  · exact ⟨_, _, rfl, hlead _ _ _ (by decide) (by decide) (by decide)⟩
  · exact ⟨_, _, rfl, hlead _ _ _ (by decide) (by decide) (by decide)⟩
  · exact ⟨_, _, rfl, hlead _ _ _ (by decide) (by decide) (by decide)⟩

theorem bytes_cons_of_lt {c : Char} (h : c.toNat < 128) (s : Text) :
    bytes (c :: s) = byte c :: bytes s := by
  show String.utf8EncodeChar c ++ bytes s = _
  rw [utf8EncodeChar_of_lt h]
  rfl

theorem exists_bytes_cons {c : Char} (h : 128 ≤ c.toNat) (s : Text) :
    ∃ b rest, bytes (c :: s) = b :: rest ∧ 128 ≤ b.toNat := by
  obtain ⟨b, rest, hencode, hb⟩ := exists_utf8EncodeChar h
  refine ⟨b, rest ++ bytes s, ?_, hb⟩
  show String.utf8EncodeChar c ++ bytes s = _
  rw [hencode]
  rfl

/-- A text begins with a character of ASCII just if its bytes begin with the byte of the character. -/
theorem head?_bytes_eq_some_iff {c : Char} (hc : c.toNat < 128) {s : Text} :
    s.bytes.head? = some (byte c) ↔ s.head? = some c := by
  rcases s with _ | ⟨d, s⟩
  · simp [bytes]
  · rcases Nat.lt_or_ge d.toNat 128 with hlt | hge
    · rw [bytes_cons_of_lt hlt, List.head?_cons, List.head?_cons, Option.some_inj, Option.some_inj,
        byte_inj hlt hc]
    · obtain ⟨b, rest, hbytes, hb⟩ := exists_bytes_cons hge s
      rw [hbytes, List.head?_cons, List.head?_cons, Option.some_inj, Option.some_inj]
      constructor
      · rintro rfl
        rw [toNat_byte hc] at hb
        omega
      · rintro rfl
        omega

/-- The bytes of a class are those of the characters of a class, all of ASCII. -/
structure IsAsciiClass (p : UInt8 → Bool) (q : Char → Bool) : Prop where
  /-- Of ASCII the same characters are meant. -/
  ascii : ∀ c : Char, c.toNat < 128 → p (byte c) = q c
  /-- Other bytes are not meant. -/
  bytes : ∀ b : UInt8, 128 ≤ b.toNat → p b = false
  /-- Nor are other characters. -/
  chars : ∀ c : Char, 128 ≤ c.toNat → q c = false

/-- **A run of bytes of ASCII** is as long as the run of the characters that they are. -/
theorem length_takeWhile_bytes {p : UInt8 → Bool} {q : Char → Bool} (h : IsAsciiClass p q)
    (s : Text) : (s.bytes.takeWhile p).length = utf8Size (s.takeWhile q) := by
  induction s with
  | nil => rfl
  | cons c s ih =>
    rcases Nat.lt_or_ge c.toNat 128 with hlt | hge
    · rw [bytes_cons_of_lt hlt, List.takeWhile_cons, List.takeWhile_cons, h.ascii c hlt]
      split
      · rw [List.length_cons, utf8Size_cons, ih, utf8Size_of_lt hlt, Nat.add_comm]
      · rfl
    · obtain ⟨b, rest, hbytes, hb⟩ := exists_bytes_cons hge s
      rw [hbytes, List.takeWhile_cons, List.takeWhile_cons, h.bytes b hb, h.chars c hge]
      rfl

/-- So a run stands at the start of both or of none. -/
theorem any_head?_bytes {p : UInt8 → Bool} {q : Char → Bool} (h : IsAsciiClass p q) (s : Text) :
    s.bytes.head?.any p = s.head?.any q := by
  rcases s with _ | ⟨c, s⟩
  · rfl
  · rcases Nat.lt_or_ge c.toNat 128 with hlt | hge
    · rw [bytes_cons_of_lt hlt]
      exact h.ascii c hlt
    · obtain ⟨b, rest, hbytes, hb⟩ := exists_bytes_cons hge s
      rw [hbytes]
      exact (h.bytes b hb).trans (h.chars c hge).symm

theorem IsAsciiClass.or {p p' : UInt8 → Bool} {q q' : Char → Bool} (h : IsAsciiClass p q)
    (h' : IsAsciiClass p' q') : IsAsciiClass (fun b => p b || p' b) fun c => q c || q' c := by
  refine ⟨fun c hc => ?_, fun b hb => ?_, fun c hc => ?_⟩
  · rw [h.ascii c hc, h'.ascii c hc]
  · rw [h.bytes b hb, h'.bytes b hb]
    rfl
  · rw [h.chars c hc, h'.chars c hc]
    rfl

/-! ## Letters and digits -/

/-- Whether a byte is a digit of ASCII. -/
def isDigitByte (b : UInt8) : Bool := 48 ≤ b && b ≤ 57

/-- Whether a byte is a letter of ASCII. -/
def isAlphaByte (b : UInt8) : Bool := (65 ≤ b && b ≤ 90) || (97 ≤ b && b ≤ 122)

theorem isAsciiClass_digit : IsAsciiClass isDigitByte Char.isDigit := by
  have hbyte : ∀ b, isDigitByte b = true ↔ 48 ≤ b.toNat ∧ b.toNat ≤ 57 := by
    intro b
    unfold isDigitByte
    rw [Bool.and_eq_true, decide_eq_true_iff, decide_eq_true_iff, UInt8.le_iff_toNat_le,
      UInt8.le_iff_toNat_le]
    rfl
  refine ⟨fun c hc => ?_, fun b hb => ?_, fun c hc => ?_⟩
  · rw [Bool.eq_iff_iff, hbyte, isDigit_iff_toNat, toNat_byte hc]
  · rw [← Bool.not_eq_true, hbyte]
    omega
  · rw [← Bool.not_eq_true, isDigit_iff_toNat]
    omega

theorem isAsciiClass_alpha : IsAsciiClass isAlphaByte Char.isAlpha := by
  have hbyte : ∀ b, isAlphaByte b = true
      ↔ 65 ≤ b.toNat ∧ b.toNat ≤ 90 ∨ 97 ≤ b.toNat ∧ b.toNat ≤ 122 := by
    intro b
    unfold isAlphaByte
    simp only [Bool.or_eq_true, Bool.and_eq_true, decide_eq_true_iff, UInt8.le_iff_toNat_le]
    rfl
  refine ⟨fun c hc => ?_, fun b hb => ?_, fun c hc => ?_⟩
  · rw [Bool.eq_iff_iff, hbyte, isAlpha_iff, isUpper_iff_toNat, isLower_iff_toNat, toNat_byte hc]
  · rw [← Bool.not_eq_true, hbyte]
    omega
  · rw [← Bool.not_eq_true, isAlpha_iff, isUpper_iff_toNat, isLower_iff_toNat]
    omega

/-- A single character of ASCII is a class too. -/
theorem isAsciiClass_char {c : Char} (hc : c.toNat < 128) :
    IsAsciiClass (fun b => decide (b = byte c)) fun d => decide (d = c) := by
  refine ⟨fun d hd => ?_, fun b hb => ?_, fun d hd => ?_⟩
  · rw [Bool.eq_iff_iff, decide_eq_true_iff, decide_eq_true_iff, byte_inj hd hc]
  · refine decide_eq_false ?_
    rintro rfl
    rw [toNat_byte hc] at hb
    omega
  · refine decide_eq_false ?_
    rintro rfl
    omega

end Text

end Playground
