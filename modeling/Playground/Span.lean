/-
# Spans

A span is a range of places in a text.  Lines and columns count from 1, columns count code
points, and both are 32-bit words.
-/
import Playground.Text.Digits

namespace Playground

/-- A range of places, from its first to its last one. -/
structure Span where
  /-- The line that the range starts on. -/
  startLine : UInt32
  /-- The column that the range starts at. -/
  startColumn : UInt32
  /-- The line that the range ends on. -/
  endLine : UInt32
  /-- The column that the range ends at. -/
  endColumn : UInt32
  deriving DecidableEq, Repr

namespace Span

/-- The span of a single place. -/
def ofPlace (line column : UInt32) : Span := ⟨line, column, line, column⟩

/-- The span of the columns from `first` to `last` of one line. -/
def ofColumns (line first last : UInt32) : Span := ⟨line, first, line, last⟩

/-- The column of a character with `before` characters in front of it on its line. -/
def columnAfter (before : Nat) : UInt32 := UInt32.ofNat (before + 1)

/-- The place that a span starts at, as it is shown. -/
def toText (span : Span) : Text :=
  Text.ofNat span.startLine.toNat ++ ':' :: Text.ofNat span.startColumn.toNat

end Span

end Playground
