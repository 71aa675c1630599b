/-
# Final bindings

All assignments of a program are made before its first print, so that a print sees the value that
was assigned last, wherever that was.  What is assigned to a name is read off the assignments, and
beside the bindings that they leave behind stands the last value among it.  A print looks up the
texts of its operands and nothing else.

* `Bindings.get?_ofAssignments` : a name is bound to the last value that is assigned to it.
* `Bindings.size_ofAssignments` : as many names are bound as are given a value.
* `printAll_congr` : prints depend on the bindings of the names that they mention.
* `Program.evaluate_finalBindings` : a program is evaluated with the final bindings.
-/
import Mathlib.Data.Finset.Card
import Playground.Proofs.OutputLimit

namespace Playground

/-! ## What is assigned -/

/-- What is assigned to `name`, in its order. -/
def assignedTo (assignments : List Assignment) (name : Text) : List Assigned :=
  (assignments.filter fun a => a.name = name).map Assignment.assigned

/-- The last value that is assigned to `name`.  What a variable cannot hold is passed over. -/
def lastValue? (assignments : List Assignment) (name : Text) : Option Value :=
  ((assignedTo assignments name).filterMap Assigned.value?).getLast?

/-- The names that are given a value, one for each assignment. -/
def namesWithValue (assignments : List Assignment) : List Text :=
  (assignments.filter fun a => a.assigned.value?.isSome).map Assignment.name

/-- One assignment in front of others comes into question if none of them gives its name a
value. -/
theorem lastValue?_cons (a : Assignment) (assignments : List Assignment) (name : Text) :
    lastValue? (a :: assignments) name
      = (lastValue? assignments name).or (if a.name = name then a.assigned.value? else none) := by
  unfold lastValue? assignedTo
  by_cases h : a.name = name
  · rw [List.filter_cons, if_pos (decide_eq_true h), List.map_cons, if_pos h, List.filterMap_cons]
    rcases a.assigned.value? with _ | v
    · rw [Option.or_none]
    · rw [List.getLast?_cons]
      cases List.getLast? _ <;> rfl
  · rw [List.filter_cons, if_neg (by simpa using h), if_neg h, Option.or_none]

/-- A name has a last value just if it is given one at all. -/
theorem lastValue?_isSome_iff (assignments : List Assignment) (name : Text) :
    (lastValue? assignments name).isSome = true ↔
      ∃ a ∈ assignments, a.name = name ∧ a.assigned.value?.isSome = true := by
  induction assignments with
  | nil => simp [lastValue?, assignedTo]
  | cons a assignments ih =>
    rw [lastValue?_cons, Option.isSome_or, Bool.or_eq_true, ih, List.exists_mem_cons_iff, or_comm]
    refine or_congr_left ?_
    by_cases h : a.name = name <;> simp [h]

/-- A name that a single assignment is made to has the value of that one. -/
theorem lastValue?_of_nodup {assignments : List Assignment}
    (h : (assignments.map Assignment.name).Nodup) {a : Assignment} (ha : a ∈ assignments) :
    lastValue? assignments a.name = a.assigned.value? := by
  induction assignments with
  | nil => exact absurd ha List.not_mem_nil
  | cons first rest ih =>
    rw [List.map_cons, List.nodup_cons] at h
    have hother : ∀ b ∈ rest, b.name ≠ first.name := fun b hb heq =>
      h.1 (heq ▸ List.mem_map_of_mem hb)
    rw [lastValue?_cons]
    rcases List.mem_cons.1 ha with rfl | hmem
    · have hnone : lastValue? rest a.name = none := by
        rw [← Option.not_isSome_iff_eq_none, lastValue?_isSome_iff]
        rintro ⟨b, hb, hname, -⟩
        exact hother b hb hname
      rw [hnone, if_pos rfl, Option.none_or]
    · rw [ih h.2 hmem, if_neg (hother a hmem).symm, Option.or_none]

theorem mem_namesWithValue_iff (assignments : List Assignment) (name : Text) :
    name ∈ namesWithValue assignments ↔
      ∃ a ∈ assignments, a.name = name ∧ a.assigned.value?.isSome = true := by
  unfold namesWithValue
  simp only [List.mem_map, List.mem_filter, and_assoc]
  exact exists_congr fun a => and_congr_right fun _ => and_comm

/-! ## What assignments leave behind -/

namespace Bindings

/-- One assignment gives its name a value or changes nothing. -/
theorem get?_assign (b : Bindings) (a : Assignment) (name : Text) :
    (b.assign a).get? name
      = (if a.name = name then a.assigned.value? else none).or (b.get? name) := by
  unfold assign
  rcases a.assigned.value? with _ | v
  · rw [ite_self, Option.none_or]
  · dsimp only
    rw [get?_bind]
    by_cases h : a.name = name
    · rw [if_pos h, if_pos h.symm, Option.some_or]
    · rw [if_neg h, if_neg (Ne.symm h), Option.none_or]

/-- Assignments give a name its last value, or leave it bound as it was. -/
theorem get?_foldl_assign (assignments : List Assignment) (b : Bindings) (name : Text) :
    (assignments.foldl assign b).get? name = (lastValue? assignments name).or (b.get? name) := by
  induction assignments generalizing b with
  | nil => rfl
  | cons a assignments ih =>
    rw [List.foldl_cons, ih, get?_assign, lastValue?_cons, Option.or_assoc]

/-- **A name is bound to the last value** that is assigned to it. -/
theorem get?_ofAssignments (assignments : List Assignment) (name : Text) :
    (ofAssignments assignments).get? name = lastValue? assignments name := by
  unfold ofAssignments
  rw [get?_foldl_assign]
  exact Option.or_none

/-- The bound names are those that are found. -/
theorem mem_names_iff (b : Bindings) (name : Text) :
    name ∈ b.entries.map (·.1) ↔ (b.get? name).isSome = true := by
  unfold get?
  rw [← not_iff_not, Option.not_isSome_iff_eq_none, List.lookup_eq_none_iff, List.mem_map]
  simp only [not_exists, not_and, bne_iff_ne, ne_eq, @eq_comm _ name]

/-- **As many names are bound** as are given a value. -/
theorem size_ofAssignments (assignments : List Assignment) :
    (ofAssignments assignments).size = (namesWithValue assignments).toFinset.card := by
  have hnames : ((ofAssignments assignments).entries.map (·.1)).toFinset
      = (namesWithValue assignments).toFinset := by
    ext name
    rw [List.mem_toFinset, List.mem_toFinset, mem_names_iff, get?_ofAssignments,
      lastValue?_isSome_iff, mem_namesWithValue_iff]
  rw [← hnames, List.toFinset_card_of_nodup (ofAssignments assignments).nodup, List.length_map]
  rfl

end Bindings

/-! ## What prints look up -/

/-- The names that an argument may stand for: the texts of its operands. -/
def Argument.names : Argument → List Text
  | .operand o => [o.text]
  | .product text count => [text.text, count.text]
  | .repetition _ => []
  | .unmatched _ => []

/-- The names that the prints of a program may stand for. -/
def Program.mentioned (p : Program) : List Text := p.prints.flatMap fun q => q.argument.names

namespace Bindings

variable {b b' : Bindings} {o : Operand}

theorem printoutOf_congr (h : b.get? o.text = b'.get? o.text) :
    b.printoutOf o = b'.printoutOf o := by
  unfold printoutOf
  rw [h]

theorem textOf_congr (h : b.get? o.text = b'.get? o.text) : b.textOf o = b'.textOf o := by
  unfold textOf
  rw [h]

theorem countOf_congr (h : b.get? o.text = b'.get? o.text) : b.countOf o = b'.countOf o := by
  unfold countOf numberOf?
  rw [h]

end Bindings

/-- An argument is resolved by the bindings of its names. -/
theorem Argument.resolve_congr {b b' : Bindings} {a : Argument}
    (h : ∀ name ∈ a.names, b.get? name = b'.get? name) : a.resolve b = a.resolve b' := by
  cases a with
  | operand o =>
    have hname : b.get? o.text = b'.get? o.text := h _ (List.mem_singleton_self _)
    rw [resolve, resolve, Bindings.printoutOf_congr hname]
  | product text count =>
    have htext : b.get? text.text = b'.get? text.text := h _ List.mem_cons_self
    have hcount : b.get? count.text = b'.get? count.text :=
      h _ (List.mem_cons_of_mem _ (List.mem_singleton_self _))
    rw [resolve, resolve, Bindings.textOf_congr htext, Bindings.countOf_congr hcount]
  | repetition r => rfl
  | unmatched expression => rfl

/-- **Prints depend on the bindings** of the names that they mention, and on no others. -/
theorem printAll_congr (limit : UInt64) {b b' : Bindings} {prints : List Print}
    (h : ∀ p ∈ prints, ∀ name ∈ p.argument.names, b.get? name = b'.get? name) (used : Nat) :
    printAll limit b used prints = printAll limit b' used prints := by
  induction prints generalizing used with
  | nil => rfl
  | cons p prints ih =>
    rw [List.forall_mem_cons] at h
    unfold printAll
    rw [Argument.resolve_congr h.1]
    simp only [ih h.2]

/-! ## Programs -/

namespace Program

/-- What is recorded of the prints of a program, under a limit on its output. -/
theorem map_printed_evaluate (p : Program) (limit : UInt64) :
    (p.evaluate limit).map Transcript.printed = printAll limit p.bindings 0 p.prints := by
  rw [p.evaluate_eq]
  cases printAll limit p.bindings 0 p.prints <;> rfl

theorem bindings_of_evaluate {p : Program} {limit : UInt64} {t : Transcript}
    (h : p.evaluate limit = .ok t) : t.bindings = p.bindings := by
  rw [p.evaluate_eq] at h
  rcases hprinted : printAll limit p.bindings 0 p.prints with f | printed
  · rw [hprinted] at h
    exact nomatch h
  · rw [hprinted] at h
    rw [← Except.ok.inj h]

/-- Programs with the same prints, of whose names each has the same last value in both, print the
same or fail with the same fault. -/
theorem map_printed_evaluate_congr {p q : Program} (limit : UInt64) (hprints : p.prints = q.prints)
    (h : ∀ name ∈ p.mentioned,
      lastValue? p.assignments name = lastValue? q.assignments name) :
    (p.evaluate limit).map Transcript.printed = (q.evaluate limit).map Transcript.printed := by
  rw [map_printed_evaluate, map_printed_evaluate, ← hprints]
  apply printAll_congr
  intro r hr name hname
  have hlast := h name (List.mem_flatMap.2 ⟨r, hr, hname⟩)
  unfold bindings
  rw [Bindings.get?_ofAssignments, Bindings.get?_ofAssignments, hlast]

/-- **Prints see only the final bindings.**  A program that is evaluated binds the names that are
given a value, each to the last one.  Programs with the same prints do the same if each name that
these mention has the same last value in both or none in either.  So it does if the same is assigned
to it in the same order, wherever the assignments stand among the prints, among the assignments to
other names, and whatever is assigned to names that no print mentions. -/
theorem evaluate_finalBindings (p : Program) (limit : UInt64) :
    (∀ t, p.evaluate limit = .ok t →
      (∀ name, (t.bindings.get? name).isSome = true ↔
        ∃ a ∈ p.assignments, a.name = name ∧ a.assigned.value?.isSome = true)
      ∧ (∀ name, t.bindings.get? name = lastValue? p.assignments name)
      ∧ t.bindings.size = (namesWithValue p.assignments).toFinset.card)
    ∧ (∀ q : Program, p.prints = q.prints →
      (∀ name ∈ p.mentioned, lastValue? p.assignments name = lastValue? q.assignments name) →
      (p.evaluate limit).map Transcript.printed = (q.evaluate limit).map Transcript.printed)
    ∧ ∀ q : Program, p.prints = q.prints →
      (∀ name ∈ p.mentioned, assignedTo p.assignments name = assignedTo q.assignments name) →
      (p.evaluate limit).map Transcript.printed = (q.evaluate limit).map Transcript.printed := by
  refine ⟨?_, fun q hprints h => map_printed_evaluate_congr limit hprints h, ?_⟩
  · intro t ht
    have hget : ∀ name, t.bindings.get? name = lastValue? p.assignments name := by
      intro name
      rw [bindings_of_evaluate ht]
      exact Bindings.get?_ofAssignments p.assignments name
    refine ⟨?_, hget, ?_⟩
    · intro name
      rw [hget, lastValue?_isSome_iff]
    · rw [bindings_of_evaluate ht]
      exact Bindings.size_ofAssignments p.assignments
  · intro q hprints h
    apply map_printed_evaluate_congr limit hprints
    intro name hname
    unfold lastValue?
    rw [h name hname]

/-- A program that prints before it assigns, and whose last assignment to a printed name gives it
no value. -/
def assigningLate : Program where
  dialect := .python
  statements :=
    [.print ⟨.operand ⟨['x'], ['x']⟩, Span.ofPlace 1 1⟩,
      .print ⟨.product ⟨['x'], ['x']⟩ ⟨['n'], ['n']⟩, Span.ofPlace 2 1⟩,
      .assignment ⟨['x'], Span.ofPlace 3 1, .value (.text ['a']), Span.ofPlace 3 1⟩,
      .assignment
        ⟨['n'], Span.ofPlace 4 1, .value (.number ⟨0x4000000000000000⟩), Span.ofPlace 4 1⟩,
      .assignment ⟨['x'], Span.ofPlace 5 1, .unsupported ['?'], Span.ofPlace 5 1⟩]

/-- A program with the same prints among other assignments: those to a printed name are made in
another order with those to other names, and one name is not printed at all. -/
def assigningEarly : Program where
  dialect := .go
  statements :=
    [.assignment ⟨['y'], Span.ofPlace 1 1, .value (.text ['b']), Span.ofPlace 1 1⟩,
      .assignment
        ⟨['n'], Span.ofPlace 2 1, .value (.number ⟨0x4000000000000000⟩), Span.ofPlace 2 1⟩,
      .print ⟨.operand ⟨['x'], ['x']⟩, Span.ofPlace 1 1⟩,
      .assignment ⟨['x'], Span.ofPlace 3 1, .value (.text ['a']), Span.ofPlace 3 1⟩,
      .assignment ⟨['x'], Span.ofPlace 4 1, .unsupported ['?'], Span.ofPlace 4 1⟩,
      .print ⟨.product ⟨['x'], ['x']⟩ ⟨['n'], ['n']⟩, Span.ofPlace 2 1⟩]

/-- Five bytes are just enough for both lines, and both programs print them; with four bytes both
fail. -/
theorem evaluate_assigningLate :
    (∃ t, assigningLate.evaluate 5 = .ok t
      ∧ t.bindings.get? ['x'] = some (.text ['a']) ∧ t.bindings.size = 2
      ∧ t.lines = .ok [['a'], ['a', 'a']])
    ∧ assigningLate.prints = assigningEarly.prints
    ∧ (assigningLate.evaluate 5).map Transcript.printed
      = (assigningEarly.evaluate 5).map Transcript.printed
    ∧ (assigningLate.evaluate 4).map Transcript.printed = .error (.outputLimit 4)
    ∧ (assigningEarly.evaluate 4).map Transcript.printed = .error (.outputLimit 4) := by
  have hprints : assigningLate.prints = assigningEarly.prints := by decide
  have hlast : ∀ name ∈ assigningLate.mentioned,
      lastValue? assigningLate.assignments name = lastValue? assigningEarly.assignments name := by
    decide
  have hassigned : ∀ name ∈ assigningLate.mentioned,
      assignedTo assigningLate.assignments name = assignedTo assigningEarly.assignments name := by
    decide
  have herror : (assigningLate.evaluate 4).map Transcript.printed = .error (.outputLimit 4) := by
    decide +kernel
  have hlines : (assigningLate.evaluate 5).map Transcript.lines = .ok (.ok [['a'], ['a', 'a']]) := by
    decide +kernel
  obtain ⟨hbinds, -, hsame⟩ := evaluate_finalBindings assigningLate 5
  obtain ⟨-, hsame', -⟩ := evaluate_finalBindings assigningLate 4
  refine ⟨?_, hprints, hsame assigningEarly hprints hassigned, herror, ?_⟩
  · rcases ht : assigningLate.evaluate 5 with f | t
    · rw [ht] at hlines
      exact nomatch hlines
    · rw [ht] at hlines
      obtain ⟨-, hget, hsize⟩ := hbinds t ht
      exact ⟨t, rfl, (hget _).trans (by decide), hsize.trans (by decide), Except.ok.inj hlines⟩
  · rw [← hsame' assigningEarly hprints hlast, herror]

end Program

end Playground
