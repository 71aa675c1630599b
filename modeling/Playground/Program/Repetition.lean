/-
# Repetitions by a call

The call `strings.Repeat("text", 12)` repeats a text.  It is recognised only with a text between
double quotes, of at least one character, and a count of digits; spaces may stand after the comma
and nowhere else.  The first place where it stands in an expression counts.

* `Repetition.append_of_readArguments?` : the arguments are read without loss.
-/
import Playground.Text.Blank
import Playground.Text.Digits
import Playground.Text.Search

namespace Playground

/-- A text and the digits of how often it is repeated. -/
structure Repetition where
  /-- The text between the quotes. -/
  text : Text
  /-- The digits of the count. -/
  count : Text
  deriving DecidableEq, Repr

namespace Repetition

/-- The text up to the quote before the repeated text. -/
def opener : Text := "strings.Repeat(\"".toList

/-- Reads the repeated text, from behind its opening quote, and the count up to the closing
parenthesis. -/
def readArguments? (s : Text) : Option Repetition :=
  let text := s.takeWhile (· ≠ '"')
  match Text.after? ['"', ','] (s.dropWhile (· ≠ '"')) with
  | none => none
  | some rest =>
    let behind := rest.trimStart
    let count := behind.takeWhile Char.isDigit
    if text ≠ [] ∧ count ≠ [] ∧ (behind.dropWhile Char.isDigit).head? = some ')' then
      some ⟨text, count⟩
    else none

/-- The first repetition in an expression.  The opener occurs nowhere inside of itself, so that
every place may be tried. -/
def find? : Text → Option Repetition
  | [] => none
  | c :: s =>
    match (Text.after? opener (c :: s)).bind readArguments? with
    | some call => some call
    | none => find? s

/-- The arguments stand in the text as they were read. -/
theorem append_of_readArguments? {s : Text} {call : Repetition} (h : readArguments? s = some call) :
    ∃ space rest, space.isBlank = true
      ∧ s = call.text ++ ['"', ','] ++ space ++ call.count ++ ')' :: rest := by
  unfold readArguments? at h
  dsimp only at h
  split at h
  · exact absurd h (by simp)
  · next rest hrest =>
    split at h
    · next hparts =>
      obtain rfl := Option.some.inj h
      obtain ⟨-, -, hhead⟩ := hparts
      obtain ⟨tail, htail⟩ := List.head?_eq_some_iff.1 hhead
      refine ⟨rest.takeWhile Text.isSpace, tail, ?_, ?_⟩
      · simp [Text.isBlank, List.all_takeWhile]
      · have hs := Text.after?_eq_some_iff.1 hrest
        simp only [List.append_assoc]
        rw [← htail, List.takeWhile_append_dropWhile, Text.trimStart,
          List.takeWhile_append_dropWhile, ← hs, List.takeWhile_append_dropWhile]
    · exact absurd h (by simp)

end Repetition

end Playground
