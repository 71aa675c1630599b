import Playground.Json.Reader
import Playground.Pane
import Playground.Version
import Playground.Proofs.OutputLimit
import Playground.Proofs.CallGrammar
import Playground.Proofs.Number.Digits
import Playground.Proofs.Number.Rounding
import Playground.Proofs.Number.Midpoints
import Playground.Proofs.Number.Shortest
import Playground.Proofs.Text.Trim
import Playground.Proofs.Number.ReadBack
import Playground.Proofs.Number.Numerals
import Playground.Proofs.CommonCore.Statements
import Playground.Proofs.CommonCore.Scanning
import Playground.Proofs.CommonCore.Agreement
import Playground.Proofs.NumberPrinting
import Playground.Proofs.FinalBindings
import Playground.Proofs.GoValidity
import Playground.Proofs.PythonValidity
import Playground.Proofs.PrintedLiterals
import Playground.Proofs.Appending
import Playground.Proofs.ProgramLines
import Playground.Proofs.Spans.Programs
import Playground.Proofs.Repetitions
import Playground.Proofs.Panes
import Playground.Proofs.Variables
import Playground.Proofs.Json.Grammar
import Playground.Proofs.Json.Reading
import Playground.Proofs.RepeatCounts
import Playground.Proofs.Json.Writing
import Playground.Proofs.Reports
import Playground.Proofs.Number.Nearest
import Playground.Proofs.Number.NumeralGrammar
import Playground.Proofs.Number.Bases
import Playground.Proofs.Number.ShortestDigits
import Playground.Proofs.Offsets.Slices
import Playground.Proofs.Offsets.Scanning
import Playground.Proofs.Offsets.Readers
import Playground.Proofs.DigitCounts
import Playground.Proofs.AssignmentParts
import Playground.Proofs.LeftmostRepetition
import Playground.Proofs.Text.Divisions
import Playground.Proofs.CountOperands
