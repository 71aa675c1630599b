/-
# Failures

The ways in which a run can fail: the rules that a program can break before it is run, and a fault
while it runs.
-/
import Playground.Evaluation.Fault

namespace Playground

/-- The kind of a failure. -/
inductive FailureKind
  /-- The program is blank. -/
  | blank
  /-- A print call is opened and no parenthesis closes. -/
  | openPrint
  /-- An assignment has no value. -/
  | emptyAssignment
  /-- The package is not declared. -/
  | noPackage
  /-- Nothing is imported. -/
  | noImport
  /-- Nothing is printed. -/
  | noPrint
  /-- Text is repeated, but the package for that is not imported. -/
  | noStringsImport
  /-- The run came upon a fault. -/
  | fault
  deriving DecidableEq, Repr

namespace FailureKind

/-- The name of a kind. -/
def name : FailureKind → Text
  | blank => "EmptySource".toList
  | openPrint => "UnclosedPrintCall".toList
  | emptyAssignment => "InvalidAssignment".toList
  | noPackage => "MissingPackageDeclaration".toList
  | noImport => "MissingImport".toList
  | noPrint => "NoPrintStatement".toList
  | noStringsImport => "MissingStringsImport".toList
  | fault => "ExecutionFailure".toList

/-- All kinds. -/
def all : List FailureKind :=
  [blank, openPrint, emptyAssignment, noPackage, noImport, noPrint, noStringsImport, fault]

/-- The kind with a given name. -/
def ofName? (name : Text) : Option FailureKind := all.find? fun kind => kind.name = name

/-- A kind is found by its name. -/
theorem ofName?_name (kind : FailureKind) : ofName? kind.name = some kind := by
  cases kind <;> decide

end FailureKind

/-- A failure of a run. -/
inductive Failure
  /-- The program is blank. -/
  | blank
  /-- A print call is opened and no parenthesis closes. -/
  | openPrint
  /-- The assignment on `line` has no value. -/
  | emptyAssignment (line : Text)
  /-- The package is not declared. -/
  | noPackage
  /-- Nothing is imported. -/
  | noImport
  /-- Nothing is printed. -/
  | noPrint
  /-- Text is repeated, but the package for that is not imported. -/
  | noStringsImport
  /-- The run came upon a fault, for the reason given. -/
  | fault (cause : Text)
  deriving DecidableEq, Repr

namespace Failure

/-- The kind of a failure. -/
def kind : Failure → FailureKind
  | blank => .blank
  | openPrint => .openPrint
  | emptyAssignment _ => .emptyAssignment
  | noPackage => .noPackage
  | noImport => .noImport
  | noPrint => .noPrint
  | noStringsImport => .noStringsImport
  | fault _ => .fault

/-- The advice on how the package for repeating text is imported. -/
def stringsImportHelp : Text :=
  ("To use strings.Repeat add import:\nimport \"strings\"\n\nor in import block:\n"
    ++ "import (\n    \"fmt\"\n    \"strings\"\n)").toList

/-- The message of a failure. -/
def message : Failure → Text
  | blank => "Empty code".toList
  | openPrint => "Unclosed parenthesis in print()".toList
  | emptyAssignment line => "Invalid assignment: ".toList ++ line
  | noPackage => "Error: missing \"package main\" declaration".toList
  | noImport => "Error: missing imports".toList
  | noPrint => "Code must contain at least one fmt.Println() command".toList
  | noStringsImport => stringsImportHelp
  | fault cause => "Execution error: ".toList ++ cause

/-- Whether a failure is found before anything is run. -/
def isValidation : Failure → Bool
  | fault _ => false
  | _ => true

/-- The failure of a run with a fault. -/
def ofFault (f : Fault) : Failure := fault f.message

end Failure

end Playground
