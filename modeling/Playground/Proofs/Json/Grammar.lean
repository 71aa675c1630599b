/-
# The grammar of JSON

RFC 8259 says how a value is written: which characters stand in a string as they are and which are
escaped, how a number is made up, and where blanks may stand.  A value can be written in many ways, so
the grammar is a relation between values and texts.

* `Json.StringSpells`, `Json.NumberSpells` : how strings and numbers are written.
* `Json.Spells` : how a value is written, without blanks around it.
* `Json.IsText` : a text that is a value with blanks around it.
-/
import Playground.Json.Basic

namespace Playground

namespace Json

/-- Nothing but blanks, which may stand between the parts of a value. -/
def IsBlanks (s : Text) : Prop := ∀ c ∈ s, c ∈ [' ', '\t', '\n', '\r']

/-! ## Strings -/

/-- Four hexadecimal digits of a UTF-16 unit. -/
inductive UnitSpells : Nat → Text → Prop
  /-- The digits count in the order in which they stand. -/
  | digits {a b c d : Char} {va vb vc vd : Nat} (ha : Text.digitIn 16 a = some va)
      (hb : Text.digitIn 16 b = some vb) (hc : Text.digitIn 16 c = some vc)
      (hd : Text.digitIn 16 d = some vd) :
      UnitSpells (va * 0x1000 + vb * 0x100 + vc * 0x10 + vd) [a, b, c, d]

/-- The characters that can be written by a letter behind a backslash, each with its letter. -/
def letters : List (Char × Char) :=
  [('"', '"'), ('\\', '\\'), ('/', '/'), ('\x08', 'b'), ('\x0c', 'f'), ('\n', 'n'), ('\r', 'r'),
    ('\t', 't')]

/-- A character of a string. -/
inductive CharSpells (c : Char) : Text → Prop
  /-- As it is, unless it is a control character, a quote or a backslash. -/
  | plain (hlow : ¬ c < ' ') (hquote : c ≠ '"') (hbackslash : c ≠ '\\') : CharSpells c [c]
  /-- By its letter. -/
  | letter {letter : Char} (h : (c, letter) ∈ letters) : CharSpells c ['\\', letter]
  /-- By its unit. -/
  | unit {digits : Text} (h : UnitSpells c.toNat digits) : CharSpells c (['\\', 'u'] ++ digits)
  /-- By its pair of surrogates. -/
  | pair {high low : Text} (h : 0x10000 ≤ c.toNat)
      (hhigh : UnitSpells (0xD800 + (c.toNat - 0x10000) / 0x400) high)
      (hlow : UnitSpells (0xDC00 + (c.toNat - 0x10000) % 0x400) low) :
      CharSpells c (['\\', 'u'] ++ high ++ ['\\', 'u'] ++ low)

/-- The characters of a string between its quotes. -/
inductive StringSpells : Text → Text → Prop
  /-- No character. -/
  | nil : StringSpells [] []
  /-- A character and those behind it. -/
  | cons {c : Char} {s first rest : Text} (hc : CharSpells c first) (hs : StringSpells s rest) :
      StringSpells (c :: s) (first ++ rest)

/-! ## Numbers -/

/-- The whole part of a number: no zero stands in front of other digits. -/
def WholeSpells (s : Text) : Prop := s = ['0'] ∨ Text.isDigits s = true ∧ s.head? ≠ some '0'

/-- The fraction of a number, which may be missing. -/
def FractionSpells (s : Text) : Prop :=
  s = [] ∨ ∃ digits, Text.isDigits digits = true ∧ s = '.' :: digits

/-- The exponent of a number, which may be missing. -/
def ExponentSpells (s : Text) : Prop :=
  s = [] ∨ ∃ mark ∈ ['e', 'E'], ∃ sign ∈ [[], ['+'], ['-']], ∃ digits,
    Text.isDigits digits = true ∧ s = mark :: (sign ++ digits)

/-- A number. -/
inductive NumberSpells : Text → Prop
  /-- A sign, a whole part, a fraction and an exponent. -/
  | parts {sign whole fraction exponent : Text} (hsign : sign = [] ∨ sign = ['-'])
      (hwhole : WholeSpells whole) (hfraction : FractionSpells fraction)
      (hexponent : ExponentSpells exponent) :
      NumberSpells (sign ++ (whole ++ (fraction ++ exponent)))

/-! ## Values -/

mutual

/-- A value, without blanks around it. -/
inductive Spells : Json → Text → Prop
  /-- The word for nothing. -/
  | null : Spells .null "null".toList
  /-- The words for the truth values. -/
  | bool (value : Bool) : Spells (.bool value) (if value then "true" else "false").toList
  /-- A number, which is kept by its text. -/
  | number {text : Text} (h : NumberSpells text) : Spells (.number text) text
  /-- A string between quotes. -/
  | string {s body : Text} (h : StringSpells s body) : Spells (.string s) ('"' :: body ++ ['"'])
  /-- No items between brackets. -/
  | emptyArray {blanks : Text} (h : IsBlanks blanks) : Spells (.array []) ('[' :: blanks ++ [']'])
  /-- Items between brackets. -/
  | array {items : List Json} {body : Text} (h : ItemsSpell items body) :
      Spells (.array items) ('[' :: body ++ [']'])
  /-- No members between braces. -/
  | emptyObject {blanks : Text} (h : IsBlanks blanks) :
      Spells (.object []) ('\x7b' :: blanks ++ ['\x7d'])
  /-- Members between braces. -/
  | object {members : List (Text × Json)} {body : Text} (h : MembersSpell members body) :
      Spells (.object members) ('\x7b' :: body ++ ['\x7d'])

/-- Items with commas between them. -/
inductive ItemsSpell : List Json → Text → Prop
  /-- The last item. -/
  | last {item : Json} {front text behind : Text} (hfront : IsBlanks front) (h : Spells item text)
      (hbehind : IsBlanks behind) : ItemsSpell [item] (front ++ (text ++ behind))
  /-- An item and those behind the comma. -/
  | cons {item : Json} {items : List Json} {front text behind rest : Text} (hfront : IsBlanks front)
      (h : Spells item text) (hbehind : IsBlanks behind) (hrest : ItemsSpell items rest) :
      ItemsSpell (item :: items) (front ++ (text ++ (behind ++ ',' :: rest)))

/-- A member: a key, a colon and a value. -/
inductive MemberSpells : Text × Json → Text → Prop
  /-- Blanks may stand in front of each part. -/
  | parts {key body text front gap space : Text} {value : Json} (hfront : IsBlanks front)
      (hkey : StringSpells key body) (hgap : IsBlanks gap) (hspace : IsBlanks space)
      (h : Spells value text) :
      MemberSpells (key, value) (front ++ '"' :: (body ++ '"' :: (gap ++ ':' :: (space ++ text))))

/-- Members with commas between them. -/
inductive MembersSpell : List (Text × Json) → Text → Prop
  /-- The last member. -/
  | last {member : Text × Json} {text behind : Text} (h : MemberSpells member text)
      (hbehind : IsBlanks behind) : MembersSpell [member] (text ++ behind)
  /-- A member and those behind the comma. -/
  | cons {member : Text × Json} {members : List (Text × Json)} {text behind rest : Text}
      (h : MemberSpells member text) (hbehind : IsBlanks behind) (hrest : MembersSpell members rest) :
      MembersSpell (member :: members) (text ++ (behind ++ ',' :: rest))

end

/-- A text that denotes a value: the value is written in it, with blanks around it. -/
inductive IsText : Json → Text → Prop
  /-- Blanks may stand in front of the value and behind it. -/
  | parts {value : Json} {front text behind : Text} (hfront : IsBlanks front)
      (h : Spells value text) (hbehind : IsBlanks behind) :
      IsText value (front ++ (text ++ behind))

/-- No blanks at all. -/
theorem isBlanks_nil : IsBlanks [] := fun _ hc => absurd hc List.not_mem_nil

end Json

end Playground
