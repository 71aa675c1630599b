/-
# Evaluation

All assignments of a program come first, and so every print sees the value that a variable is
given last.  Then each print is resolved in its order, and its line with the newline behind it is
charged against a limit on the whole output before it is formed.
-/
import Playground.Evaluation.Printout

namespace Playground

/-! ## Resolving a print -/

namespace Bindings

/-- What a print of a single operand does: it writes the value of the variable that the operand
names, or the operand itself. -/
def printoutOf (b : Bindings) (o : Operand) : Printout :=
  match b.get? o.text with
  | some v => .bound o.text v
  | none => .literal o.literal

/-- The text that a text operand stands for. -/
def textOf (b : Bindings) (o : Operand) : Except Fault Text :=
  match b.get? o.text with
  | some (.text s) => .ok s
  | some (.number _) => .error (.repeatedNumber o.text)
  | none => .ok o.literal

/-- The number that a count operand stands for, if it is readable as one. -/
def numberOf? (b : Bindings) (o : Operand) : Option Binary64 :=
  match b.get? o.text with
  | some (.number x) => some x
  | some (.text s) => Binary64.read? s
  | none => Binary64.leading? o.text

/-- The count that a count operand stands for; an unreadable one counts as zero. -/
def countOf (b : Bindings) (o : Operand) : Except Fault Nat :=
  ((b.numberOf? o).getD .notANumber).count

/-! What names no variable stands for itself. -/

theorem printoutOf_of_unbound {b : Bindings} {o : Operand} (h : b.get? o.text = none) :
    b.printoutOf o = .literal o.literal := by
  unfold printoutOf
  rw [h]

theorem textOf_of_unbound {b : Bindings} {o : Operand} (h : b.get? o.text = none) :
    b.textOf o = .ok o.literal := by
  unfold textOf
  rw [h]

theorem numberOf?_of_unbound {b : Bindings} {o : Operand} (h : b.get? o.text = none) :
    b.numberOf? o = Binary64.leading? o.text := by
  unfold numberOf?
  rw [h]

/-! A count operand that names a variable counts by its value. -/

theorem numberOf?_of_number {b : Bindings} {o : Operand} {x : Binary64}
    (h : b.get? o.text = some (.number x)) : b.numberOf? o = some x := by
  unfold numberOf?
  rw [h]

theorem numberOf?_of_text {b : Bindings} {o : Operand} {s : Text}
    (h : b.get? o.text = some (.text s)) : b.numberOf? o = Binary64.read? s := by
  unfold numberOf?
  rw [h]

end Bindings

/-- The number that the digits of a repetition denote; unreadable ones ask for too much. -/
def Repetition.number (r : Repetition) : Binary64 := (Binary64.read? r.count).getD .largest

/-- What a print with a given argument does.  In a product the text counts before the number. -/
def Argument.resolve (b : Bindings) : Argument → Except Fault Printout
  | .operand o => .ok (b.printoutOf o)
  | .product text count => do
    let s ← b.textOf text
    let n ← b.countOf count
    return .copies s n
  | .repetition r => do
    let n ← r.number.count
    return .copies r.text n
  | .unmatched expression => .ok (.nothing expression)

namespace Argument

/-- A product whose operands can be read copies the one as often as the other says. -/
theorem resolve_product {b : Bindings} {text count : Operand} {s : Text} {x : Binary64}
    (htext : b.textOf text = .ok s) (hcount : b.numberOf? count = some x) :
    (product text count).resolve b = x.count.map (.copies s) := by
  rw [resolve, htext, Bindings.countOf, hcount]
  rfl

/-- A repetition whose count can be read does the same. -/
theorem resolve_repetition {b : Bindings} {r : Repetition} {x : Binary64}
    (hcount : Binary64.read? r.count = some x) :
    (repetition r).resolve b = x.count.map (.copies r.text) := by
  rw [resolve, Repetition.number, hcount]
  rfl

end Argument

/-! ## The output limit -/

/-- The size of the output after a printout, if it had `used` bytes before.  Sums and products stop
at the largest word. -/
def spend (limit : UInt64) (used : Nat) (p : Printout) : Except Fault Nat :=
  match p.size? with
  | none => .ok used
  | some size =>
    let total := saturate (saturate (used + saturate size) + 1)
    if limit.toNat < total then .error (.outputLimit limit) else .ok total

/-- What prints do, in their order, if the output has `used` bytes before them. -/
def printAll (limit : UInt64) (b : Bindings) :
    (used : Nat) → List Print → Except Fault (List Printed)
  | _, [] => .ok []
  | used, p :: prints => do
    let printout ← p.argument.resolve b
    let total ← spend limit used printout
    let printed ← printAll limit b total prints
    return ⟨p.span, printout⟩ :: printed

/-- What a program does under a limit on its output. -/
def Program.evaluate (limit : UInt64) (p : Program) : Except Fault Transcript := do
  let b := Bindings.ofAssignments p.assignments
  let printed ← printAll limit b 0 p.prints
  return ⟨b, printed⟩

end Playground
