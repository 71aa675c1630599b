/-
# Statements that do the same

Two statements may stand in different places and be written in different ways and still do the same.
Programs whose statements do the same one by one come to the same outcome, as long as only names are
bound, which is so after any assignments to names.

* `Statement.Alike` : statements that differ in their places and in how they are written.
* `Statement.alike_lines` : a list of lines, each of which is read as it is meant.
* `outcome_congr` : the outcome depends on what the statements do.
-/
import Playground.Proofs.Reading
import Playground.Run

namespace Playground

/-! ## Bound names -/

/-- Only names are bound. -/
def Bindings.BindsNames (b : Bindings) : Prop :=
  ∀ name v, b.get? name = some v → AssignmentLine.startsName name = true

/-- What does not begin as a name is not bound. -/
theorem Bindings.get?_eq_none {b : Bindings} (hb : b.BindsNames) {name : Text}
    (h : AssignmentLine.startsName name = false) : b.get? name = none := by
  rw [Option.eq_none_iff_forall_ne_some]
  intro v hv
  rw [hb name v hv] at h
  exact Bool.noConfusion h

/-- Assignments to names bind names only. -/
theorem Bindings.bindsNames_foldl {assignments : List Assignment}
    (h : ∀ a ∈ assignments, AssignmentLine.startsName a.name = true) {b : Bindings}
    (hb : b.BindsNames) : (assignments.foldl Bindings.assign b).BindsNames := by
  induction assignments generalizing b with
  | nil => exact hb
  | cons a rest ih =>
    rw [List.forall_mem_cons] at h
    apply ih h.2
    unfold Bindings.assign
    split
    · next v hv =>
      intro name w hw
      rw [Bindings.get?_bind] at hw
      -- What is bound is bound by this assignment or was bound before.
      by_cases heq : name = a.name
      · rw [heq]
        exact h.1
      · rw [if_neg heq] at hw
        exact hb name w hw
    · exact hb

/-- So do all assignments of a program, if they are made to names. -/
theorem Bindings.bindsNames_ofAssignments {assignments : List Assignment}
    (h : ∀ a ∈ assignments, AssignmentLine.startsName a.name = true) :
    (Bindings.ofAssignments assignments).BindsNames :=
  bindsNames_foldl h fun _ _ hv => nomatch hv

/-! ## Statements -/

/-- Two statements do the same, wherever they stand and however their arguments are written. -/
inductive Statement.Alike : Statement → Statement → Prop
  /-- The same is assigned to the same name. -/
  | assignment {a a' : Assignment} (hname : a.name = a'.name)
      (hassigned : a.assigned = a'.assigned) : Alike (.assignment a) (.assignment a')
  /-- As long as only names are bound, the same is printed. -/
  | print {p p' : Print}
      (hresolve : ∀ b : Bindings, b.BindsNames → p.argument.resolve b = p'.argument.resolve b) :
      Alike (.print p) (.print p')

/-- Lines of which each is read as one statement that does what is meant are read, from any number
on, as statements that do what is meant. -/
theorem Statement.alike_lines {α : Type} (d : Dialect) {line : α → Text} {meant : α → Statement}
    {xs : List α} (h : ∀ x ∈ xs, ∀ number,
      ∃ s, Statement.ofLine d number (line x) = [s] ∧ Statement.Alike s (meant x)) (first : Nat) :
    List.Forall₂ Statement.Alike
      (((xs.map line).zipIdx first).flatMap fun numbered =>
        Statement.ofLine d (UInt32.ofNat numbered.2) numbered.1)
      (xs.map meant) := by
  induction xs generalizing first with
  | nil => exact .nil
  | cons x rest ih =>
    rw [List.forall_mem_cons] at h
    obtain ⟨s, hs, halike⟩ := h.1 (UInt32.ofNat first)
    rw [List.map_cons, List.map_cons, List.zipIdx_cons, List.flatMap_cons, hs]
    exact .cons halike (ih h.2 (first + 1))

/-! ## What the statements leave behind -/

theorem Bindings.assign_congr (b : Bindings) {a a' : Assignment} (hname : a.name = a'.name)
    (hassigned : a.assigned = a'.assigned) : b.assign a = b.assign a' := by
  unfold Bindings.assign
  rw [hname, hassigned]

/-- Statements that do the same leave the same bindings. -/
theorem Bindings.foldl_assign_congr {ss ts : List Statement}
    (h : List.Forall₂ Statement.Alike ss ts) (b : Bindings) :
    (ss.filterMap Statement.assignment?).foldl Bindings.assign b
      = (ts.filterMap Statement.assignment?).foldl Bindings.assign b := by
  induction h generalizing b with
  | nil => rfl
  | @cons s t ss ts hst _ ih =>
    cases hst with
    | @assignment a a' hname hassigned =>
      show (ss.filterMap Statement.assignment?).foldl Bindings.assign (b.assign a)
        = (ts.filterMap Statement.assignment?).foldl Bindings.assign (b.assign a')
      rw [b.assign_congr hname hassigned]
      exact ih (b.assign a')
    | print hresolve => exact ih b

/-! ## Printing by programs that do the same -/

/-- What prints do, in their order, without their places. -/
def printouts (limit : UInt64) (b : Bindings) (used : Nat) (prints : List Print) :
    Except Fault (List Printout) :=
  (printAll limit b used prints).map (List.map Printed.printout)

theorem printouts_cons (limit : UInt64) (b : Bindings) (used : Nat) (p : Print)
    (prints : List Print) :
    printouts limit b used (p :: prints) = (p.argument.resolve b).bind fun printout =>
      (spend limit used printout).bind fun total =>
        (printouts limit b total prints).map (printout :: ·) := by
  unfold printouts
  rw [printAll]
  cases p.argument.resolve b with
  | error fault => rfl
  | ok printout =>
    show Except.map _ ((spend limit used printout).bind _) = (spend limit used printout).bind _
    cases spend limit used printout with
    | error fault => rfl
    | ok total =>
      show Except.map _ ((printAll limit b total prints).bind _)
        = Except.map _ (Except.map _ (printAll limit b total prints))
      cases printAll limit b total prints <;> rfl

/-- Prints that do the same one by one do the same together. -/
theorem printouts_congr (limit : UInt64) {b : Bindings} (hb : b.BindsNames) {ss ts : List Statement}
    (h : List.Forall₂ Statement.Alike ss ts) (used : Nat) :
    printouts limit b used (ss.filterMap Statement.print?)
      = printouts limit b used (ts.filterMap Statement.print?) := by
  induction h generalizing used with
  | nil => rfl
  | @cons s t ss ts hst _ ih =>
    cases hst with
    | assignment hname hassigned => exact ih used
    | @print p p' hresolve =>
      show printouts limit b used (p :: ss.filterMap Statement.print?)
        = printouts limit b used (p' :: ts.filterMap Statement.print?)
      rw [printouts_cons, printouts_cons, hresolve b hb]
      -- The same printout is charged the same, and the rest goes on from the same total.
      congr 1
      funext printout
      congr 1
      funext total
      rw [ih total]

/-- What an evaluation comes to depends on the printouts, wherever the prints stand. -/
theorem outcome_evaluate (settings : Settings) (p : Program) :
    outcome settings (p.evaluate settings.outputLimit)
      = match printouts settings.outputLimit (Bindings.ofAssignments p.assignments) 0 p.prints with
        | .ok ps => (Printout.output? ps).map fun output => .ok (output.getD settings.silentMessage)
        | .error fault => .ok (.error (.ofFault fault)) := by
  unfold Program.evaluate printouts
  dsimp only
  cases printAll settings.outputLimit (Bindings.ofAssignments p.assignments) 0 p.prints <;> rfl

/-- **Programs whose statements do the same** come to the same outcome. -/
theorem outcome_congr (settings : Settings) {p q : Program}
    (h : List.Forall₂ Statement.Alike p.statements q.statements)
    (hnames : ∀ a ∈ q.assignments, AssignmentLine.startsName a.name = true) :
    outcome settings (p.evaluate settings.outputLimit)
      = outcome settings (q.evaluate settings.outputLimit) := by
  have hnamed := Bindings.bindsNames_ofAssignments hnames
  have hbindings : Bindings.ofAssignments p.assignments = Bindings.ofAssignments q.assignments :=
    Bindings.foldl_assign_congr h Bindings.empty
  have hprints : printouts settings.outputLimit (Bindings.ofAssignments q.assignments) 0 p.prints
      = printouts settings.outputLimit (Bindings.ofAssignments q.assignments) 0 q.prints :=
    printouts_congr settings.outputLimit hnamed h 0
  rw [outcome_evaluate, outcome_evaluate, hbindings, hprints]

end Playground
