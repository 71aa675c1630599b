/-
# Bindings

Bindings map names to values, one value to a name.  Binding a name again replaces its value.

* `Bindings.get?_bind` : binding a name changes what that name is bound to and nothing else.
-/
import Playground.Program.Basic

namespace Playground

/-- A map from names to values. -/
structure Bindings where
  /-- The bound names with their values, the last bound first. -/
  entries : List (Text × Value)
  /-- No name is bound twice. -/
  nodup : (entries.map (·.1)).Nodup
  deriving DecidableEq

namespace Bindings

/-- No name is bound. -/
def empty : Bindings := ⟨[], List.nodup_nil⟩

/-- The entries under other names than `name`. -/
def others (entries : List (Text × Value)) (name : Text) : List (Text × Value) :=
  entries.filter fun entry => entry.1 ≠ name

theorem not_mem_others (entries : List (Text × Value)) (name : Text) :
    name ∉ (others entries name).map (·.1) := by
  simp [others]

theorem nodup_others {entries : List (Text × Value)} (h : (entries.map (·.1)).Nodup)
    (name : Text) : ((others entries name).map (·.1)).Nodup :=
  h.sublist (List.filter_sublist.map _)

/-- Binds `name` to `v`. -/
def bind (b : Bindings) (name : Text) (v : Value) : Bindings where
  entries := (name, v) :: others b.entries name
  nodup := List.nodup_cons.2 ⟨not_mem_others b.entries name, nodup_others b.nodup name⟩

/-- The value that `name` is bound to. -/
def get? (b : Bindings) (name : Text) : Option Value := b.entries.lookup name

/-- The number of bound names. -/
def size (b : Bindings) : Nat := b.entries.length

/-- The bound names with their values, ordered by code points. -/
def toList (b : Bindings) : List (Text × Value) := b.entries.mergeSort fun x y => x.1.precedes y.1

/-- Binds the variable of an assignment, if its value is one that a variable can hold. -/
def assign (b : Bindings) (a : Assignment) : Bindings :=
  match a.assigned.value? with
  | some v => b.bind a.name v
  | none => b

/-- The bindings that assignments leave behind, one after the other. -/
def ofAssignments (assignments : List Assignment) : Bindings := assignments.foldl assign empty

/-! ## Lookup -/

theorem lookup_others_of_ne {name other : Text} (h : other ≠ name) :
    ∀ entries : List (Text × Value), (others entries name).lookup other = entries.lookup other
  | [] => rfl
  | (n, v) :: entries => by
    have ih := lookup_others_of_ne h entries
    by_cases hn : n = name
    · subst hn
      have hne : (other == n) = false := by simpa using h
      simpa [others, List.lookup_cons, hne] using ih
    · simp only [others, List.filter_cons, hn, ne_eq, not_false_eq_true, decide_true, if_true,
        List.lookup_cons] at ih ⊢
      rw [ih]

/-- Binding a name changes what that name is bound to and nothing else. -/
theorem get?_bind (b : Bindings) (name other : Text) (v : Value) :
    (b.bind name v).get? other = if other = name then some v else b.get? other := by
  by_cases h : other = name
  · simp [get?, bind, h]
  · have hne : (other == name) = false := by simpa using h
    simp only [get?, bind, List.lookup_cons, hne, if_neg h]
    exact lookup_others_of_ne h b.entries

end Bindings

end Playground
