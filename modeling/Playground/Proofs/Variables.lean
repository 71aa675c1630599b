/-
# What variables are

Only assignments bind, and an assignment is recognised by its name and its value by its numeral.  So
whatever is bound is bound to a name, and no number that is bound is "not a number".  An operand that
is no name stands for itself, and neither a number that is printed nor the count of a fault reads
`NaN`.

* `Argument.resolve_ne_nan` : no count is refused as "not a number".
* `Program.holdsVariables` : what a program binds.
* `Print.readsNames` : what a print reads.
* `Program.variables_exact` : what the variables of a program are, and what follows for its prints.
-/
import Playground.Proofs.FinalBindings
import Playground.Proofs.Reading

namespace Playground

/-! ## Numbers and their texts -/

/-- What is written for "not a number". -/
def nanText : Text := "NaN".toList

namespace Binary64

/-- **A number does not read `NaN`**, since what it reads is a numeral. -/
theorem toText_ne_nanText {x : Binary64} (h : x.meaning ≠ .notANumber) : x.toText ≠ nanText := by
  have hnone : read? nanText = none := by decide
  intro heq
  have hread := read?_toText h
  rw [heq, hnone] at hread
  exact nomatch hread

/-- A number without its fractional part is a number. -/
theorem meaning_truncated {x : Binary64} (h : x.meaning ≠ .notANumber) :
    x.truncated.meaning ≠ .notANumber := by
  unfold truncated
  split
  · exact meaning_ofCode _ (nearestCode_le _ _)
  · exact h

/-- What is no number is not refused as a count, so that no count is refused with its text. -/
theorem countFault?_ne_nan (x : Binary64) : x.countFault? ≠ some (.invalidCount nanText) := by
  unfold countFault?
  split
  · next hrefused =>
    have hmeaning : x.meaning ≠ .notANumber := by
      intro hnan
      unfold isRefused at hrefused
      rw [hnan] at hrefused
      exact Bool.noConfusion hrefused
    intro heq
    exact toText_ne_nanText (meaning_truncated hmeaning) (Fault.invalidCount.inj (Option.some.inj heq))
  · exact (Option.some_ne_none _).symm

end Binary64

/-- **No count is refused as "not a number"**, whatever is bound. -/
theorem Argument.resolve_ne_nan (b : Bindings) (a : Argument) :
    a.resolve b ≠ .error (.invalidCount nanText) := by
  rw [resolve_eq]
  have hfault : a.fault? b ≠ some (.invalidCount nanText) := by
    cases a with
    | operand o => exact (Option.some_ne_none _).symm
    | product text count =>
      intro h
      rcases Option.or_eq_some_iff.1 h with htext | ⟨-, hcount⟩
      · unfold Bindings.textFault? at htext
        split at htext
        · exact nomatch htext
        · exact nomatch htext
      · exact Binary64.countFault?_ne_nan _ hcount
    | repetition r => exact Binary64.countFault?_ne_nan _
    | unmatched expression => exact (Option.some_ne_none _).symm
  split
  · next fault hf =>
    intro heq
    rw [Except.error.inj heq] at hf
    exact hfault hf
  · exact fun heq => nomatch heq

/-- The message of a fault tells that a count was refused just if one was, and which. -/
theorem Fault.message_eq_invalidCount_iff {fault : Fault} {count : Text} :
    fault.message = (invalidCount count).message ↔ fault = invalidCount count := by
  constructor
  · intro h
    cases fault with
    | repeatedNumber name => exact absurd (List.cons.inj h).1 (by decide)
    | invalidCount count' => rw [List.append_cancel_left h]
    | outputLimit limit => exact absurd (List.cons.inj h).1 (by decide)
  · rintro rfl
    rfl

/-! ## What is bound -/

/-- What is assigned is a number only if it is a numeral. -/
theorem Assigned.meaning_of_ofText {s : Text} {x : Binary64}
    (h : Assigned.ofText s = .value (.number x)) : x.meaning ≠ .notANumber := by
  unfold ofText at h
  split at h
  · exact nomatch h
  · split at h
    · next y hread =>
      obtain rfl := Value.number.inj (Assigned.value.inj h)
      exact Binary64.meaning_of_read? hread
    · exact nomatch h

/-- What a name is bound to was assigned to it. -/
theorem Bindings.exists_of_get?_ofAssignments {assignments : List Assignment} {name : Text}
    {v : Value} (h : (ofAssignments assignments).get? name = some v) :
    ∃ a ∈ assignments, a.name = name ∧ a.assigned = .value v := by
  rw [get?_ofAssignments] at h
  obtain ⟨assigned, hassigned, hv⟩ := List.mem_filterMap.1 (List.mem_of_getLast? h)
  obtain ⟨a, ha, rfl⟩ := List.mem_map.1 hassigned
  obtain ⟨ha, hname⟩ := List.mem_filter.1 ha
  refine ⟨a, ha, of_decide_eq_true hname, ?_⟩
  cases hvalue : a.assigned with
  | value w =>
    rw [hvalue] at hv
    rw [Option.some.inj hv]
  | unsupported s =>
    rw [hvalue] at hv
    exact nomatch hv

/-- Only names are bound, and no number that is bound is "not a number". -/
def Bindings.HoldsVariables (b : Bindings) : Prop :=
  ∀ name v, b.get? name = some v →
    AssignmentLine.IsName name ∧ ∀ x, v = .number x → x.meaning ≠ .notANumber

/-- What is no name is not bound. -/
theorem Bindings.HoldsVariables.get?_eq_none {b : Bindings} (hb : b.HoldsVariables) {name : Text}
    (h : ¬ AssignmentLine.IsName name) : b.get? name = none := by
  rw [Option.eq_none_iff_forall_ne_some]
  exact fun v hv => h (hb name v hv).1

/-- **What a program binds** is bound to a name, and a number that is bound is a number. -/
theorem Program.holdsVariables (d : Dialect) (s : Text) : (ofText d s).bindings.HoldsVariables := by
  intro name v h
  obtain ⟨a, ha, rfl, hassigned⟩ := Bindings.exists_of_get?_ofAssignments h
  obtain ⟨line, -, l, hsplit, hname, hvalue⟩ := exists_line_of_mem_assignments ha
  refine ⟨hname ▸ hsplit.name, ?_⟩
  rintro x rfl
  rw [hvalue] at hassigned
  exact Assigned.meaning_of_ofText hassigned

/-! ## What prints read -/

/-- What is recorded of a print reads variables by names only.  An operand that is no name stands for
itself: a single operand is written as it is, a text operand is repeated as it is, and a count operand
counts by the number that it begins with. -/
structure Print.ReadsNames (p : Print) (q : Printed) : Prop where
  /-- A single operand is written as it is. -/
  operand : ∀ o, p.argument = .operand o → ¬ AssignmentLine.IsName o.text →
    q.printout = .literal o.literal
  /-- A text operand is repeated as it is. -/
  text : ∀ text count, p.argument = .product text count → ¬ AssignmentLine.IsName text.text →
    ∃ n, q.printout = .copies text.literal n
  /-- A count operand is read. -/
  count : ∀ text count, p.argument = .product text count → ¬ AssignmentLine.IsName count.text →
    ∃ copied n, q.printout = .copies copied n
      ∧ ((Binary64.leading? count.text).getD .notANumber).count = .ok n
  /-- A variable whose value is written has a name, and a number in it does not read `NaN`. -/
  bound : ∀ name v, q.printout = .bound name v → AssignmentLine.IsName name
    ∧ ∀ x, v = .number x → ∃ line, q.printout.line? = .ok (some line) ∧ line ≠ nanText

/-- A product that is resolved copies what its text operand stands for, as often as its count operand
says. -/
theorem Argument.copies_of_resolve {b : Bindings} {text count : Operand} {printout : Printout}
    (h : (Argument.product text count).resolve b = .ok printout) :
    ∃ copied n, printout = .copies copied n ∧ b.textOf text = .ok copied
      ∧ b.countOf count = .ok n := by
  obtain ⟨copied, hcopied, h⟩ := exists_of_bind_eq_ok h
  obtain ⟨n, hn, heq⟩ := exists_of_bind_eq_ok h
  exact ⟨copied, n, (Except.ok.inj heq).symm, hcopied, hn⟩

/-- A printout that writes the value of a variable writes what is bound. -/
theorem Argument.get?_of_resolve {b : Bindings} {a : Argument} {name : Text} {v : Value}
    (h : a.resolve b = .ok (.bound name v)) : b.get? name = some v := by
  cases a with
  | operand o =>
    have hprintout : b.printoutOf o = .bound name v := Except.ok.inj h
    unfold Bindings.printoutOf at hprintout
    split at hprintout
    · next w hw =>
      obtain ⟨rfl, rfl⟩ := Printout.bound.inj hprintout
      exact hw
    · exact nomatch hprintout
  | product text count =>
    obtain ⟨copied, n, hq, -, -⟩ := copies_of_resolve h
    exact nomatch hq
  | repetition r =>
    obtain ⟨n, -, heq⟩ := exists_of_bind_eq_ok h
    exact nomatch Except.ok.inj heq
  | unmatched expression => exact nomatch Except.ok.inj h

/-- A print that is resolved under bindings of variables. -/
theorem Print.readsNames {b : Bindings} (hb : b.HoldsVariables) {p : Print} {q : Printed}
    (h : p.argument.resolve b = .ok q.printout) : p.ReadsNames q := by
  refine ⟨?_, ?_, ?_, ?_⟩
  · intro o ho hname
    rw [ho, Argument.resolve, Bindings.printoutOf_of_unbound (hb.get?_eq_none hname)] at h
    exact (Except.ok.inj h).symm
  · intro text count hproduct hname
    rw [hproduct] at h
    obtain ⟨copied, n, hq, hcopied, -⟩ := Argument.copies_of_resolve h
    rw [Bindings.textOf_of_unbound (hb.get?_eq_none hname)] at hcopied
    exact ⟨n, by rw [hq, Except.ok.inj hcopied]⟩
  · intro text count hproduct hname
    rw [hproduct] at h
    obtain ⟨copied, n, hq, -, hn⟩ := Argument.copies_of_resolve h
    unfold Bindings.countOf at hn
    rw [Bindings.numberOf?_of_unbound (hb.get?_eq_none hname)] at hn
    exact ⟨copied, n, hq, hn⟩
  · intro name v hprintout
    rw [hprintout] at h ⊢
    obtain ⟨hname, hnumber⟩ := hb name v (Argument.get?_of_resolve h)
    refine ⟨hname, ?_⟩
    rintro x rfl
    exact ⟨x.toText, rfl, Binary64.toText_ne_nanText (hnumber x rfl)⟩

/-! ## Programs -/

namespace Program

/-- What is recorded of the prints of a program. -/
theorem forall₂_evaluate {p : Program} {limit : UInt64} {t : Transcript}
    (h : p.evaluate limit = .ok t) :
    List.Forall₂ (fun print q => print.argument.resolve p.bindings = .ok q.printout)
      p.prints t.printed := by
  obtain ⟨printed, hprinted, heq⟩ := exists_of_bind_eq_ok h
  obtain rfl := Except.ok.inj heq
  exact (forall₂_printAll hprinted).imp fun print q hq => hq.2

/-- **Only names are variables, and no variable is "not a number".**  A program that is evaluated
binds names only, and a number that is bound is a number.  What is recorded of a print reads variables
by names only, and a number that is written from a variable does not read `NaN`.  Whether a program is
evaluated or fails, a text or count operand that is no name stands for itself, and no message of a
failure tells of a count `NaN`. -/
theorem variables_exact (d : Dialect) (s : Text) (limit : UInt64) :
    (∀ t, (ofText d s).evaluate limit = .ok t → t.bindings.HoldsVariables
      ∧ List.Forall₂ Print.ReadsNames (ofText d s).prints t.printed)
    ∧ (∀ o : Operand, ¬ AssignmentLine.IsName o.text →
      (ofText d s).bindings.textOf o = .ok o.literal
      ∧ (ofText d s).bindings.numberOf? o = Binary64.leading? o.text)
    ∧ ∀ fault, (ofText d s).evaluate limit = .error fault →
      fault.message ≠ "invalid count value: NaN".toList := by
  have hvariables := holdsVariables d s
  refine ⟨fun t ht => ⟨?_, ?_⟩, fun o ho => ?_, fun fault hfault => ?_⟩
  · rw [bindings_of_evaluate ht]
    exact hvariables
  · exact (forall₂_evaluate ht).imp fun p q hq => Print.readsNames hvariables hq
  · have hunbound := hvariables.get?_eq_none ho
    exact ⟨Bindings.textOf_of_unbound hunbound, Bindings.numberOf?_of_unbound hunbound⟩
  · have hmessage : "invalid count value: NaN".toList = (Fault.invalidCount nanText).message := by
      decide
    rw [hmessage, Ne, Fault.message_eq_invalidCount_iff]
    rintro rfl
    rw [evaluate_eq, map_eq_error_iff] at hfault
    rcases fault_of_printAll hfault with ⟨p, -, hresolve⟩ | hlimit
    · exact Argument.resolve_ne_nan _ _ hresolve
    · exact nomatch hlimit

/-- A program that prints a variable which holds an infinity, a name that is not bound, since its
value is no numeral, and a text with a space as often as an expression begins with; and one that
repeats by the infinity. -/
theorem variables_infinite :
    let writing := "n = -Infinity\nNaN = NaN\nprint(n)\nprint(NaN)\nprint(\"a b\" * 2n)".toList
    let failing := "n = -Infinity\nprint(\"a\" * n)".toList
    (∃ t, (ofText .python writing).evaluate 100 = .ok t
      ∧ t.lines = .ok ["-Infinity".toList, nanText, "a ba b".toList]
      ∧ t.bindings.HoldsVariables
      ∧ List.Forall₂ Print.ReadsNames (ofText .python writing).prints t.printed)
    ∧ (ofText .python writing).bindings.textOf (.ofText "\"a b\"".toList) = .ok "a b".toList
    ∧ ∃ fault, (ofText .python failing).evaluate 100 = .error fault
      ∧ fault.message = "invalid count value: -Infinity".toList
      ∧ fault.message ≠ "invalid count value: NaN".toList := by
  intro writing failing
  obtain ⟨hevaluated, hunbound, -⟩ := variables_exact .python writing 100
  obtain ⟨-, -, hmessage⟩ := variables_exact .python failing 100
  have hwriting : ((ofText .python writing).evaluate 100).map Transcript.lines
      = .ok (.ok ["-Infinity".toList, nanText, "a ba b".toList]) := by decide +kernel
  have hfailing : (ofText .python failing).evaluate 100
      = .error (.invalidCount "-Infinity".toList) := by decide +kernel
  have hname : ¬ AssignmentLine.IsName (Operand.ofText "\"a b\"".toList).text := by decide
  refine ⟨?_, (hunbound _ hname).1, _, hfailing, rfl, hmessage _ hfailing⟩
  rcases ht : (ofText .python writing).evaluate 100 with fault | t
  · rw [ht] at hwriting
    exact nomatch hwriting
  · rw [ht] at hwriting
    exact ⟨t, rfl, Except.ok.inj hwriting, hevaluated t ht⟩

end Program

end Playground
