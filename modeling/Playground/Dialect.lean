/-
# Dialects

Programs are written in one of two dialects.  A dialect fixes how a print call opens, which
operator assigns, and whether an assignment may be indented.
-/
import Playground.Text.Basic

namespace Playground

/-- A language that programs are written in. -/
inductive Dialect
  /-- Python: `name = value` and `print(...)`. -/
  | python
  /-- Go: `name := value` and `fmt.Println(...)`. -/
  | go
  deriving DecidableEq, Repr

namespace Dialect

/-- The word by which a dialect is chosen. -/
def word : Dialect → Text
  | python => "python".toList
  | go => "go".toList

/-- The dialect that a word chooses. -/
def ofWord? (word : Text) : Option Dialect :=
  if word = python.word then some python else if word = go.word then some go else none

/-- What is said of a word that chooses no dialect. -/
def unknownMessage (word : Text) : Text :=
  "unknown dialect '".toList ++ word ++ "' (expected \"python\" or \"go\")".toList

/-- The name that a source in the dialect goes by. -/
def sourceName : Dialect → Text
  | python => "main.py".toList
  | go => "main.go".toList

/-- The text that opens a print call. -/
def opener : Dialect → Text
  | python => "print(".toList
  | go => "fmt.Println(".toList

/-- The operator of an assignment. -/
def operator : Dialect → Text
  | python => "=".toList
  | go => ":=".toList

/-- Whether spaces may stand in front of an assignment. -/
def indents : Dialect → Bool
  | python => false
  | go => true

/-- The program that an editor shows first. -/
def starter : Dialect → Text
  | python => "# Enter your Python code here\nprint(\"Hello, World!\")".toList
  | go =>
    ("// Enter your Go code here\npackage main\n\nimport \"fmt\"\n\nfunc main() \x7b\n"
      ++ "    fmt.Println(\"Hello, World!\")\n\x7d").toList

/-- No print call can open without a text. -/
theorem opener_ne_nil (d : Dialect) : d.opener ≠ [] := by
  cases d <;> decide

end Dialect

end Playground
