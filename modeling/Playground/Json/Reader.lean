/-
# Reading JSON

A text is read as a value from end to end, with blanks between its parts.  The reader follows
the grammar of RFC 8259; an escaped pair of surrogates is one character, and a lone surrogate
is none.  Each step down into a value spends one unit of fuel, of which a text of `n` characters
needs at most `2 * n + 2`.
-/
import Playground.Json.Writer
import Playground.Text.Search

namespace Playground

namespace Json

/-! ## Blanks, numbers and strings -/

/-- Whether `c` may stand between the parts of a value. -/
def isBlankChar (c : Char) : Bool := c = ' ' || c = '\t' || c = '\n' || c = '\r'

/-- `s` without the blanks in front. -/
def skipBlanks (s : Text) : Text := s.dropWhile isBlankChar

/-- Whether `c` can be part of a number. -/
def isNumberChar (c : Char) : Bool :=
  c.isDigit || c = '-' || c = '+' || c = '.' || c = 'e' || c = 'E'

/-- Whether `s` is an exponent, or empty. -/
def isExponent : Text → Bool
  | [] => true
  | mark :: sign :: digits =>
    (mark = 'e' || mark = 'E')
      && (if sign = '+' || sign = '-' then Text.isDigits digits else Text.isDigits (sign :: digits))
  | _ => false

/-- Whether `s` is a fraction and an exponent, either of which may be missing. -/
def isFraction : Text → Bool
  | '.' :: s => !(s.takeWhile Char.isDigit).isEmpty && isExponent (s.dropWhile Char.isDigit)
  | s => isExponent s

/-- Whether `s` is a number without its sign: no zero stands in front of other digits. -/
def isUnsignedNumber : Text → Bool
  | '0' :: s => isFraction s
  | s => !(s.takeWhile Char.isDigit).isEmpty && isFraction (s.dropWhile Char.isDigit)

/-- Whether `s` is a number. -/
def isNumber : Text → Bool
  | '-' :: s => isUnsignedNumber s
  | s => isUnsignedNumber s

/-- Reads the four hexadecimal digits of a UTF-16 unit. -/
def readUnit? : Text → Option (Nat × Text)
  | a :: b :: c :: d :: rest => do
    let digits ← [a, b, c, d].mapM (Text.digitIn 16)
    some (digits.foldl (fun n digit => 16 * n + digit) 0, rest)
  | _ => none

/-- The character of a pair of surrogates. -/
def ofSurrogates (high low : Nat) : Char :=
  Char.ofNat (0x10000 + (high - 0xD800) * 0x400 + (low - 0xDC00))

/-- Reads the unit or the pair of units behind `\u`. -/
def readUnicode? (s : Text) : Option (Char × Text) := do
  let (unit, rest) ← readUnit? s
  if unit < 0xD800 ∨ 0xE000 ≤ unit then some (Char.ofNat unit, rest)
  else if 0xDC00 ≤ unit then none
  else do
    let rest ← Text.after? ['\\', 'u'] rest
    let (low, rest) ← readUnit? rest
    if 0xDC00 ≤ low ∧ low < 0xE000 then some (ofSurrogates unit low, rest) else none

/-- Reads what follows a backslash. -/
def readEscape? : Text → Option (Char × Text)
  | [] => none
  | 'u' :: rest => readUnicode? rest
  | '/' :: rest => some ('/', rest)
  | letter :: rest =>
    (letterEscapes.find? fun escape => escape.2 = letter).map fun escape => (escape.1, rest)

theorem length_lt_of_readUnit? {s rest : Text} {unit : Nat} (h : readUnit? s = some (unit, rest)) :
    rest.length < s.length := by
  unfold readUnit? at h
  split at h
  · obtain ⟨digits, -, heq⟩ := Option.bind_eq_some_iff.1 h
    obtain ⟨-, rfl⟩ := Prod.mk.inj (Option.some.inj heq)
    simp only [List.length_cons]
    omega
  · exact absurd h (by simp)

theorem length_lt_of_readUnicode? {s rest : Text} {c : Char}
    (h : readUnicode? s = some (c, rest)) : rest.length < s.length := by
  unfold readUnicode? at h
  obtain ⟨⟨unit, r⟩, hunit, h⟩ := Option.bind_eq_some_iff.1 h
  have hlt := length_lt_of_readUnit? hunit
  dsimp only at h
  split at h
  · obtain ⟨-, rfl⟩ := Prod.mk.inj (Option.some.inj h)
    exact hlt
  · split at h
    · exact absurd h (by simp)
    · obtain ⟨r₂, hafter, h⟩ := Option.bind_eq_some_iff.1 h
      obtain ⟨⟨low, r₃⟩, hlow, h⟩ := Option.bind_eq_some_iff.1 h
      have hlt₂ := congrArg List.length (Text.after?_eq_some_iff.1 hafter)
      have hlt₃ := length_lt_of_readUnit? hlow
      simp only [List.length_append, List.length_cons] at hlt₂
      dsimp only at h
      split at h
      · obtain ⟨-, rfl⟩ := Prod.mk.inj (Option.some.inj h)
        omega
      · exact absurd h (by simp)

/-- An escape takes at least one character. -/
theorem length_lt_of_readEscape? {s rest : Text} {c : Char} (h : readEscape? s = some (c, rest)) :
    rest.length < s.length := by
  unfold readEscape? at h
  split at h
  · exact absurd h (by simp)
  · have := length_lt_of_readUnicode? h
    simp only [List.length_cons]
    omega
  · obtain ⟨-, rfl⟩ := Prod.mk.inj (Option.some.inj h)
    simp
  · obtain ⟨escape, -, heq⟩ := Option.map_eq_some_iff.1 h
    obtain ⟨-, rfl⟩ := Prod.mk.inj heq
    simp

/-- Reads a string behind its opening quote.  The characters read so far stand in `done`, the
last one first. -/
def readString? (done s : Text) : Option (Text × Text) :=
  match s with
  | [] => none
  | '"' :: rest => some (done.reverse, rest)
  | '\\' :: rest =>
    match _h : readEscape? rest with
    | some (c, rest') => readString? (c :: done) rest'
    | none => none
  | c :: rest => if c < ' ' then none else readString? (c :: done) rest
termination_by s.length
decreasing_by
  · have := length_lt_of_readEscape? _h
    simp only [List.length_cons]
    omega
  · simp

/-! ## Values -/

mutual

/-- Reads a value, with blanks in front of it. -/
def readValue? : Nat → Text → Option (Json × Text)
  | 0, _ => none
  | fuel + 1, s =>
    match skipBlanks s with
    | [] => none
    | 'n' :: rest => (Text.after? "ull".toList rest).map fun rest => (.null, rest)
    | 't' :: rest => (Text.after? "rue".toList rest).map fun rest => (.bool true, rest)
    | 'f' :: rest => (Text.after? "alse".toList rest).map fun rest => (.bool false, rest)
    | '"' :: rest => (readString? [] rest).map fun read => (.string read.1, read.2)
    | '[' :: rest =>
      match skipBlanks rest with
      | ']' :: rest => some (.array [], rest)
      | rest => (readItems? fuel rest).map fun read => (.array read.1, read.2)
    | '\x7b' :: rest =>
      match skipBlanks rest with
      | '\x7d' :: rest => some (.object [], rest)
      | rest => (readMembers? fuel rest).map fun read => (.object read.1, read.2)
    | rest =>
      let text := rest.takeWhile isNumberChar
      if isNumber text then some (.number text, rest.dropWhile isNumberChar) else none

/-- Reads the items of an array from the first one to the closing bracket. -/
def readItems? : Nat → Text → Option (List Json × Text)
  | 0, _ => none
  | fuel + 1, s =>
    match readValue? fuel s with
    | none => none
    | some (item, rest) =>
      match skipBlanks rest with
      | ',' :: rest => (readItems? fuel rest).map fun read => (item :: read.1, read.2)
      | ']' :: rest => some ([item], rest)
      | _ => none

/-- Reads the members of an object from the first one to the closing brace. -/
def readMembers? : Nat → Text → Option (List (Text × Json) × Text)
  | 0, _ => none
  | fuel + 1, s =>
    match readMember? fuel s with
    | none => none
    | some (member, rest) =>
      match skipBlanks rest with
      | ',' :: rest => (readMembers? fuel rest).map fun read => (member :: read.1, read.2)
      | '\x7d' :: rest => some ([member], rest)
      | _ => none

/-- Reads one member of an object: a key, a colon and a value. -/
def readMember? : Nat → Text → Option ((Text × Json) × Text)
  | 0, _ => none
  | fuel + 1, s =>
    match Text.after? ['"'] (skipBlanks s) with
    | none => none
    | some rest =>
      match readString? [] rest with
      | none => none
      | some (key, rest) =>
        match Text.after? [':'] (skipBlanks rest) with
        | none => none
        | some rest => (readValue? fuel rest).map fun read => ((key, read.1), read.2)

end

/-- The value that a text denotes. -/
def read? (s : Text) : Option Json :=
  match readValue? (2 * s.length + 2) s with
  | some (value, rest) => if skipBlanks rest = [] then some value else none
  | none => none

end Json

end Playground
