/-
# Valid programs

Before a program is run it must keep the rules of its dialect, and the first one that it breaks
is reported.  A Python program must close its print calls and must not end in an assignment
without a value.  A Go program must declare its package, import something and print something,
and if it repeats text, the package `strings` must be among its imports.
-/
import Playground.Failure
import Playground.Line.AssignmentLine
import Playground.Text.Lines

namespace Playground

/-! ## Python -/

/-- Whether a line is an assignment only because of spaces at its end. -/
def isDangling (line : Text) : Bool :=
  AssignmentLine.fits .python line && !AssignmentLine.fits .python line.trim

/-- The first line that is an assignment of spaces alone and has nothing but blank lines behind
its number, where a value could still stand. -/
def danglingAssignment? (s : Text) : Option Text :=
  let found := s.countedLines.find? fun numbered =>
    isDangling numbered.2 && Text.blankFrom s.lines numbered.1.toNat
  found.map Prod.snd

/-- The rule that a Python program breaks. -/
def pythonFailure? (s : Text) : Option Failure :=
  if s.includes "print(".toList && !s.contains ')' then some .openPrint
  else (danglingAssignment? s).map .emptyAssignment

/-! ## Go -/

/-- Whether a line starts with a space or a tab. -/
def isIndented (line : Text) : Bool := line.head?.any fun c => c = ' ' || c = '\t'

/-- Whether one of the lines, the first of which stands inside of an import block or not, is an
indented `"strings"` inside of a block. -/
def blockImportsStrings (inside : Bool) : List Text → Bool
  | [] => false
  | line :: rest =>
    let trimmed := line.trim
    if inside then
      if trimmed.startsWith [')'] then blockImportsStrings false rest
      else if isIndented line && trimmed = "\"strings\"".toList then true
      else blockImportsStrings true rest
    else blockImportsStrings (trimmed.startsWith "import (".toList) rest

/-- Whether a Go program imports the package `strings`. -/
def importsStrings (s : Text) : Bool :=
  s.includes "import \"strings\"".toList || blockImportsStrings false s.lines

/-- The first rule that a Go program breaks. -/
def goFailure? (s : Text) : Option Failure :=
  if !s.includes "package main".toList then some .noPackage
  else if !s.includes "import".toList then some .noImport
  else if !s.includes "fmt.Println(".toList then some .noPrint
  else if s.includes "strings.Repeat".toList && !importsStrings s then some .noStringsImport
  else none

/-! ## Either dialect -/

/-- The first rule that a program breaks. -/
def validityFailure? (d : Dialect) (s : Text) : Option Failure :=
  if s.isBlank then some .blank
  else
    match d with
    | .python => pythonFailure? s
    | .go => goFailure? s

end Playground
