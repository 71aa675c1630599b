/-
# The program that tokens stand for

Every token before the end of the text becomes one statement.  A value that begins with a quote is
a text, one that is a numeral a number, and any other is unsupported.  An argument is a repetition
if it holds a star (Python) or the name of the repeating function (Go).
-/
import Playground.Number.Numeral
import Playground.Program.Basic
import Playground.Text.Quoted
import Playground.Token

namespace Playground

/-- The value of an assignment by its text, which has no spaces around it. -/
def Assigned.ofText (s : Text) : Assigned :=
  if s.head?.any Text.isQuote then .value (.text s.dropEnds)
  else
    match Binary64.read? s with
    | some x => .value (.number x)
    | none => .unsupported s

/-- An assignment by its parts and its place.  The name stands at the start of that place. -/
def Assignment.ofParts (name value : Text) (span : Span) : Assignment where
  name := name
  nameSpan :=
    Span.ofColumns span.startLine span.startColumn (span.startColumn + UInt32.ofNat name.length - 1)
  assigned := Assigned.ofText value.trim
  span := span

/-- An operand by its text. -/
def Operand.ofText (s : Text) : Operand := ⟨s.trim, s.trim.unquoted⟩

namespace Argument

/-- The name of the function that repeats a text. -/
def repeatName : Text := "strings.Repeat".toList

/-- An argument in Python, which has no spaces around it. -/
def ofPython (s : Text) : Argument :=
  match Text.cut? ['*'] s with
  | some (text, count) => .product (Operand.ofText text) (Operand.ofText count)
  | none => .operand (Operand.ofText s)

/-- An argument in Go, which has no spaces around it. -/
def ofGo (s : Text) : Argument :=
  if s.includes repeatName then
    match Repetition.find? s with
    | some call => .repetition call
    | none => .unmatched s
  else .operand (Operand.ofText s)

/-- The argument of a print by its text. -/
def ofText (d : Dialect) (s : Text) : Argument :=
  match d with
  | .python => ofPython s.trim
  | .go => ofGo s.trim

end Argument

/-- The statement that a token stands for; the end of the text is none. -/
def Statement.ofToken? (d : Dialect) (token : Token) : Option Statement :=
  match token.construct with
  | .assignment name value => some (.assignment (Assignment.ofParts name value token.span))
  | .printCall argument => some (.print ⟨Argument.ofText d argument, token.span⟩)
  | .endOfText => none

/-- The statements that tokens stand for, up to the first end of text. -/
def Statement.ofTokens (d : Dialect) : List Token → List Statement
  | [] => []
  | token :: tokens =>
    match Statement.ofToken? d token with
    | some statement => statement :: ofTokens d tokens
    | none => []

/-- The program that tokens stand for. -/
def Program.ofTokens (d : Dialect) (tokens : List Token) : Program :=
  ⟨d, Statement.ofTokens d tokens⟩

/-- The program that a text stands for. -/
def Program.ofText (d : Dialect) (s : Text) : Program := Program.ofTokens d (Token.ofText d s)

end Playground
