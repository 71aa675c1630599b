/-
# Print calls on a line

A print call opens with the text that the dialect fixes, and its argument goes on to the next
closing parenthesis; an opener with none behind it opens no call.  In a dialect whose calls nest,
an argument that repeats a text with `strings.Repeat` takes in one more closing parenthesis, if
the line has one.  The calls of a line are found from left to right, and with the text around
them they make up the line.

* `CallSplit.toText_ofLine` : the calls and the text around them, put together, are the line.
-/
import Playground.Dialect
import Playground.Text.Search

namespace Playground

/-- A print call and the text between it and the call before. -/
structure Call where
  /-- The text that stands in front of the opener. -/
  gap : Text
  /-- The text between the opener and the closing parenthesis. -/
  argument : Text
  deriving DecidableEq, Repr

/-- The calls of a line and the text behind the last one. -/
structure CallSplit where
  /-- The calls from left to right. -/
  calls : List Call
  /-- The text in which no call is left. -/
  tail : Text
  deriving DecidableEq, Repr

namespace Call

/-- The text that opens a repetition inside of an argument. -/
def repeatOpener : Text := "strings.Repeat(".toList

/-- Whether an argument that ends at the first closing parenthesis takes in another one. -/
def nests (d : Dialect) (argument : Text) : Bool :=
  match d with
  | .python => false
  | .go => argument.includes repeatOpener

/-- The argument that begins with `argument`, which a closing parenthesis follows, and what comes
behind the parenthesis that closes the call. -/
def close (d : Dialect) (argument rest : Text) : Text × Text :=
  match nests d argument, Text.cut? [')'] rest with
  | true, some (more, rest') => (argument ++ ')' :: more, rest')
  | _, _ => (argument, rest)

/-- The first call of a text and what follows it. -/
def next? (d : Dialect) (s : Text) : Option (Call × Text) :=
  match Text.cut? d.opener s with
  | none => none
  | some (gap, body) =>
    match Text.cut? [')'] body with
    | none => none
    | some (argument, rest) => some (⟨gap, (close d argument rest).1⟩, (close d argument rest).2)

/-- A call as it stands on its line, with the text in front of it. -/
def toText (d : Dialect) (call : Call) : Text :=
  call.gap ++ d.opener ++ call.argument ++ [')']

/-- The parenthesis that closes a call may move, and nothing is lost. -/
theorem append_close (d : Dialect) (argument rest : Text) :
    (close d argument rest).1 ++ ')' :: (close d argument rest).2 = argument ++ ')' :: rest := by
  unfold close
  split
  · next more rest' _ h => simp [Text.append_of_cut? h]
  · rfl

/-- A call and what follows it make up the text. -/
theorem append_of_next? {d : Dialect} {s rest : Text} {call : Call}
    (h : next? d s = some (call, rest)) : s = call.toText d ++ rest := by
  unfold next? at h
  split at h
  · exact absurd h (by simp)
  · next gap body hgap =>
    split at h
    · exact absurd h (by simp)
    · next argument rest' hargument =>
      obtain ⟨rfl, rfl⟩ := Prod.mk.inj (Option.some.inj h)
      have hclose := append_close d argument rest'
      have hbody := Text.append_of_cut? hargument
      simp only [toText, List.append_assoc, List.singleton_append] at hbody ⊢
      rw [hclose, ← hbody, Text.append_of_cut? hgap, List.append_assoc]

/-- Behind a call the text is shorter. -/
theorem length_lt_of_next? {d : Dialect} {s rest : Text} {call : Call}
    (h : next? d s = some (call, rest)) : rest.length < s.length := by
  have hlen := congrArg List.length (append_of_next? h)
  simp only [toText, List.length_append, List.length_singleton] at hlen
  omega

end Call

namespace CallSplit

/-- The calls of a line, from left to right. -/
def ofLine (d : Dialect) (line : Text) : CallSplit :=
  match _h : Call.next? d line with
  | none => ⟨[], line⟩
  | some (call, rest) => ⟨call :: (ofLine d rest).calls, (ofLine d rest).tail⟩
termination_by line.length
decreasing_by all_goals exact Call.length_lt_of_next? _h

/-- The calls and the text around them, put together. -/
def toText (d : Dialect) (split : CallSplit) : Text :=
  split.calls.flatMap (Call.toText d) ++ split.tail

/-- The calls and the text around them, put together, are the line. -/
theorem toText_ofLine (d : Dialect) (line : Text) : (ofLine d line).toText d = line := by
  fun_induction ofLine d line with
  | case1 line h => rfl
  | case2 line call rest h ih =>
    rw [Call.append_of_next? h]
    simp only [toText, List.flatMap_cons, List.append_assoc] at ih ⊢
    rw [ih]

end CallSplit

end Playground
