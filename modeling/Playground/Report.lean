/-
# Reports

A report tells how a run went to those who do not see its outcome: whether it succeeded, its
output, and its failure by kind and message.  It is exchanged in JSON.  It is written as an
object; an array of the values in the same order is read as well, and so is the kind of a failure
as an object whose only member has its name and the value `null`.
-/
import Playground.Json.Writer
import Playground.Run

namespace Playground

/-- A failure as it is reported. -/
structure Problem where
  /-- The kind of the failure. -/
  kind : FailureKind
  /-- The message of the failure. -/
  message : Text
  deriving DecidableEq, Repr

/-- How a run went. -/
structure Report where
  /-- Whether the run succeeded. -/
  success : Bool
  /-- The output of a run that succeeded. -/
  output : Option Text
  /-- The failure of a run that did not. -/
  problem : Option Problem
  deriving DecidableEq, Repr

/-- The kind of failure that a JSON value denotes. -/
def FailureKind.ofJson? : Json → Option FailureKind
  | .string name => ofName? name
  | j =>
    match j.onlyMember? with
    | some (name, .null) => ofName? name
    | _ => none

namespace Problem

/-- A failure as it is reported. -/
def ofFailure (failure : Failure) : Problem := ⟨failure.kind, failure.message⟩

/-- A problem as a JSON value. -/
def toJson (p : Problem) : Json :=
  .object [("kind".toList, .string p.kind.name), ("message".toList, .string p.message)]

/-- The problem with the kind and the message given. -/
def ofFields? (kind message : Json) : Option Problem := do
  return ⟨← FailureKind.ofJson? kind, ← message.string?⟩

/-- The problem that a JSON value denotes. -/
def ofJson? : Json → Option Problem
  | .array [kind, message] => ofFields? kind message
  | j => do ofFields? (← j.member? "kind".toList) (← j.member? "message".toList)

end Problem

namespace Report

/-- The report of an outcome. -/
def ofOutcome : Except Failure Text → Report
  | .ok output => ⟨true, some output, none⟩
  | .error failure => ⟨false, none, some (Problem.ofFailure failure)⟩

/-- The report of a run that has an outcome. -/
def ofRun (settings : Settings) (d : Dialect) (s : Text) : Except Unformed Report :=
  (run settings d s).map ofOutcome

/-- A report as a JSON value. -/
def toJson (r : Report) : Json :=
  .object
    [("success".toList, .bool r.success), ("output".toList, Json.ofString? r.output),
      ("error".toList, (r.problem.map Problem.toJson).getD .null)]

/-- The text of a report in JSON. -/
def toText (r : Report) : Text := r.toJson.write

/-- A value that may be `null`. -/
def optional? {α : Type} (read : Json → Option α) : Json → Option (Option α)
  | .null => some none
  | j => (read j).map some

/-- The report with the success, the output and the problem given. -/
def ofFields? (success output problem : Json) : Option Report := do
  return ⟨← success.bool?, ← optional? Json.string? output, ← optional? Problem.ofJson? problem⟩

/-- The report that a JSON value denotes.  A missing output or problem is `null`. -/
def ofJson? : Json → Option Report
  | .array [success, output, problem] => ofFields? success output problem
  | j => do
    ofFields? (← j.member? "success".toList) ((j.member? "output".toList).getD .null)
      ((j.member? "error".toList).getD .null)

end Report

end Playground
