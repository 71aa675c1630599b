/-
# An unbounded reckoning

The evaluation counts in 64-bit words: a count, a size and a running total stop at the largest of
them.  Beside it stands a reckoning without any bound, in which a print has a fault of its own or
none, an exact printout and an exact cost.  A print whose words are cut down costs more than any
limit below the largest word, so that the two agree.

* `Argument.resolve_eq` : a print fails with its own fault or does what the reckoning says.
* `spend_saturated` : charging is exact up to any limit below the largest word.
* `printAll_cons` : what one print does to a run.
* `printAll_eq_ok_iff`, `printAll_eq_error_iff` : a whole run of prints against the reckoning.
-/
import Mathlib.Algebra.Order.BigOperators.Group.List
import Mathlib.Algebra.Order.Ring.Nat
import Mathlib.Tactic.Common
import Playground.Evaluation.Evaluate

namespace Playground

/-! ## Counts of any size -/

namespace Binary64

/-- The whole part of a magnitude.  What is not finite has none. -/
def wholePart (x : Binary64) : Nat :=
  match x.meaning with
  | .finite _ units => units / unitsPerOne
  | _ => 0

/-- Whether a number is refused as a count: an infinite one is, and a negative one that is not
zero without its fraction. -/
def isRefused (x : Binary64) : Bool :=
  match x.meaning with
  | .notANumber => false
  | .infinite _ => true
  | .finite negative _ => negative && x.wholePart != 0

/-- A number is refused as a count, with the text of its whole part, or counts by that part. -/
theorem times_eq (x : Binary64) :
    x.times = if x.isRefused then .error (.invalidCount x.truncated.toText)
      else .ok x.wholePart := by
  unfold times isRefused wholePart truncated
  cases x.meaning <;> rfl

end Binary64

/-! ## The unbounded reckoning -/

namespace Printout

/-- What a printout costs: a line its bytes and one for the newline, no line nothing. -/
def cost (p : Printout) : Nat := (p.size?.map (· + 1)).getD 0

/-- A printout as it is recorded: its count is a 64-bit word. -/
def saturated : Printout → Printout
  | copies s count => copies s (saturate count)
  | p => p

end Printout

namespace Bindings

/-- The text that a text operand stands for; it stands for itself where it names no text. -/
def repeatedText (b : Bindings) (o : Operand) : Text :=
  match b.get? o.text with
  | some (.text s) => s
  | _ => o.literal

/-- The number that a count operand stands for. -/
def countNumber (b : Bindings) (o : Operand) : Binary64 := (b.numberOf? o).getD .notANumber

/-- The fault of repeating what a text operand names, if that is a number. -/
def textFault? (b : Bindings) (o : Operand) : Option Fault :=
  match b.get? o.text with
  | some (.number _) => some (.repeatedNumber o.text)
  | _ => none

end Bindings

/-- The fault of a number as a count, if it is refused. -/
def Binary64.countFault? (x : Binary64) : Option Fault :=
  if x.isRefused then some (.invalidCount x.truncated.toText) else none

namespace Argument

/-- The fault that keeps a print from being resolved.  The text ranks before the count. -/
def fault? (b : Bindings) : Argument → Option Fault
  | .product text count => (b.textFault? text).or (b.countNumber count).countFault?
  | .repetition r => r.number.countFault?
  | _ => none

/-- What a print does that has no fault, with a count of any size. -/
def exact (b : Bindings) : Argument → Printout
  | .operand o => b.printoutOf o
  | .product text count => .copies (b.repeatedText text) (b.countNumber count).wholePart
  | .repetition r => .copies r.text r.number.wholePart
  | .unmatched expression => .nothing expression

end Argument

/-- What prints cost together. -/
def totalCost (b : Bindings) (prints : List Print) : Nat :=
  (prints.map fun p => (p.argument.exact b).cost).sum

/-- The fault that a print brings up if the output has `used` bytes before it.  Its own faults
rank before the limit. -/
def Print.faultAfter? (limit : UInt64) (b : Bindings) (used : Nat) (p : Print) : Option Fault :=
  (p.argument.fault? b).or
    (if limit.toNat < used + (p.argument.exact b).cost then some (.outputLimit limit) else none)

/-- A print as it is recorded in a transcript. -/
def Print.recorded (b : Bindings) (p : Print) : Printed := ⟨p.span, (p.argument.exact b).saturated⟩

/-- The first print that brings up a fault is `p`, and the fault is `f`: all prints before it are
resolved and keep within the limit. -/
def FailsAt (limit : UInt64) (b : Bindings) (used : Nat) (before : List Print) (p : Print)
    (f : Fault) : Prop :=
  (∀ q ∈ before, q.argument.fault? b = none) ∧ used + totalCost b before ≤ limit.toNat
    ∧ p.faultAfter? limit b (used + totalCost b before) = some f

/-! ## One print -/

/-- A text operand brings up its fault or stands for its text. -/
theorem Bindings.textOf_eq (b : Bindings) (o : Operand) :
    b.textOf o = match b.textFault? o with
      | some f => .error f
      | none => .ok (b.repeatedText o) := by
  unfold textOf textFault? repeatedText
  rcases b.get? o.text with _ | ⟨s | x⟩ <;> rfl

/-- A count brings up its fault or is the whole part, cut down to a word. -/
theorem Binary64.count_eq (x : Binary64) :
    x.count = match x.countFault? with
      | some f => .error f
      | none => .ok (saturate x.wholePart) := by
  unfold count countFault?
  rw [times_eq]
  cases x.isRefused <;> rfl

/-- A print fails with a fault of its own, or does what the reckoning says with its count cut down
to a word. -/
theorem Argument.resolve_eq (b : Bindings) (a : Argument) :
    a.resolve b = match a.fault? b with
      | some f => .error f
      | none => .ok (a.exact b).saturated := by
  cases a with
  | operand o =>
    show Except.ok (b.printoutOf o) = .ok (b.printoutOf o).saturated
    unfold Bindings.printoutOf
    cases b.get? o.text <;> rfl
  | product text count =>
    show (do
      let s ← b.textOf text
      let n ← (b.countNumber count).count
      return Printout.copies s n)
        = match (b.textFault? text).or (b.countNumber count).countFault? with
        | some f => .error f
        | none => .ok (.copies (b.repeatedText text) (saturate (b.countNumber count).wholePart))
    rw [Bindings.textOf_eq, Binary64.count_eq]
    -- The first fault settles the print, whatever the other operand is.
    rcases b.textFault? text with _ | f
    · cases (b.countNumber count).countFault? <;> rfl
    · rfl
  | repetition r =>
    show (do
      let n ← r.number.count
      return Printout.copies r.text n) = match r.number.countFault? with
        | some f => .error f
        | none => .ok (.copies r.text (saturate r.number.wholePart))
    rw [Binary64.count_eq]
    cases r.number.countFault? <;> rfl
  | unmatched expression => rfl

/-- A product is cut down to the same word if one factor is cut down before. -/
theorem saturate_mul_saturate (count size : Nat) :
    saturate (saturate count * size) = saturate (count * size) := by
  unfold saturate
  rcases Nat.le_total count maxWord with h | h
  · rw [Nat.min_eq_left h]
  · rw [Nat.min_eq_right h]
    rcases Nat.eq_zero_or_pos size with rfl | hsize
    · rfl
    · have hword : maxWord ≤ maxWord * size := Nat.le_mul_of_pos_right _ hsize
      have hcount : maxWord * size ≤ count * size := Nat.mul_le_mul_right _ h
      omega

/-- A line is charged exactly up to any limit below the largest word, even if its size was cut
down to a word before. -/
theorem spend_of_size {limit : UInt64} (h : limit.toNat < maxWord) (used : Nat) {p : Printout}
    {recorded size : Nat} (hp : p.size? = some recorded)
    (hsize : saturate recorded = saturate size) :
    spend limit used p =
      if limit.toNat < used + (size + 1) then .error (.outputLimit limit)
      else .ok (used + (size + 1)) := by
  unfold spend
  rw [hp]
  dsimp only
  rw [hsize]
  unfold saturate
  by_cases hlt : limit.toNat < used + (size + 1)
  · rw [if_pos hlt, if_pos (by omega)]
  · rw [if_neg hlt, if_neg (by omega)]
    congr 1
    omega

/-- Charging a recorded printout is exact up to any limit below the largest word. -/
theorem spend_saturated {limit : UInt64} (h : limit.toNat < maxWord) {used : Nat}
    (hused : used ≤ limit.toNat) (p : Printout) :
    spend limit used p.saturated =
      if limit.toNat < used + p.cost then .error (.outputLimit limit) else .ok (used + p.cost) := by
  cases p with
  | bound name v => exact spend_of_size h used rfl rfl
  | literal s => exact spend_of_size h used rfl rfl
  | copies s count =>
    have hcost : (Printout.copies s count).cost = count * s.utf8Size + 1 := rfl
    rw [hcost]
    exact spend_of_size h used rfl (saturate_mul_saturate count s.utf8Size)
  | nothing expression =>
    show Except.ok used = if limit.toNat < used + 0 then _ else Except.ok (used + 0)
    rw [if_neg (by omega)]
    rfl

/-- A step and what is done with its result succeed if both do. -/
theorem exists_of_bind_eq_ok {α β : Type} {x : Except Fault α} {f : α → Except Fault β} {y : β}
    (h : x.bind f = .ok y) : ∃ a, x = .ok a ∧ f a = .ok y := by
  cases x with
  | error fault => exact nomatch h
  | ok a => exact ⟨a, rfl, h⟩

/-- They fail if the one or the other does. -/
theorem fault_of_bind_eq_error {α β : Type} {x : Except Fault α} {f : α → Except Fault β}
    {fault : Fault} (h : x.bind f = .error fault) :
    x = .error fault ∨ ∃ a, x = .ok a ∧ f a = .error fault := by
  cases x with
  | error fault' => exact Or.inl (congrArg Except.error (Except.error.inj h))
  | ok a => exact Or.inr ⟨a, rfl, h⟩

/-- **A run that succeeds** records for every print what the print is resolved to, in its place. -/
theorem forall₂_printAll {limit : UInt64} {b : Bindings} {used : Nat} {prints : List Print}
    {printed : List Printed} (h : printAll limit b used prints = .ok printed) :
    List.Forall₂ (fun p q => q.span = p.span ∧ p.argument.resolve b = .ok q.printout)
      prints printed := by
  induction prints generalizing used printed with
  | nil =>
    obtain rfl := Except.ok.inj h
    exact .nil
  | cons p prints ih =>
    obtain ⟨printout, hresolve, hspend⟩ := exists_of_bind_eq_ok h
    obtain ⟨total, -, hprint⟩ := exists_of_bind_eq_ok hspend
    obtain ⟨rest, hrest, heq⟩ := exists_of_bind_eq_ok hprint
    obtain rfl := Except.ok.inj heq
    exact .cons ⟨rfl, hresolve⟩ (ih hrest)

/-- **A run that fails** has the fault of one of its prints or passes the limit. -/
theorem fault_of_printAll {limit : UInt64} {b : Bindings} {used : Nat} {prints : List Print}
    {fault : Fault} (h : printAll limit b used prints = .error fault) :
    (∃ p ∈ prints, p.argument.resolve b = .error fault) ∨ fault = .outputLimit limit := by
  induction prints generalizing used with
  | nil => exact nomatch h
  | cons p prints ih =>
    rcases fault_of_bind_eq_error h with hresolve | ⟨printout, -, h⟩
    · exact Or.inl ⟨p, List.mem_cons_self, hresolve⟩
    · rcases fault_of_bind_eq_error h with hspend | ⟨total, -, h⟩
      · right
        unfold spend at hspend
        split at hspend
        · exact nomatch hspend
        · dsimp only at hspend
          split at hspend
          · exact (Except.error.inj hspend).symm
          · exact nomatch hspend
      · rcases fault_of_bind_eq_error h with hrest | ⟨rest, -, heq⟩
        · refine (ih hrest).imp_left fun ⟨q, hq, hresolve⟩ => ?_
          exact ⟨q, List.mem_cons_of_mem p hq, hresolve⟩
        · exact nomatch heq

/-- What is done with a result does not bring up a fault nor take one away. -/
theorem map_eq_error_iff {α β : Type} {f : α → β} {x : Except Fault α} {fault : Fault} :
    x.map f = .error fault ↔ x = .error fault := by
  cases x <;> simp [Except.map]

/-- A print brings up no fault if it has none of its own and keeps within the limit. -/
theorem Print.faultAfter?_eq_none_iff (limit : UInt64) (b : Bindings) (used : Nat) (p : Print) :
    p.faultAfter? limit b used = none ↔
      p.argument.fault? b = none ∧ used + (p.argument.exact b).cost ≤ limit.toNat := by
  unfold faultAfter?
  rw [Option.or_eq_none_iff]
  refine and_congr_right fun _ => ?_
  split <;> simp <;> omega

/-- One step of a run: the print ends it with its fault or adds to the total what it costs. -/
theorem printAll_cons {limit : UInt64} (h : limit.toNat < maxWord) (b : Bindings) {used : Nat}
    (hused : used ≤ limit.toNat) (p : Print) (prints : List Print) :
    printAll limit b used (p :: prints) = match p.faultAfter? limit b used with
      | some f => .error f
      | none =>
        (printAll limit b (used + (p.argument.exact b).cost) prints).map (p.recorded b :: ·) := by
  show (do
    let printout ← p.argument.resolve b
    let total ← spend limit used printout
    let printed ← printAll limit b total prints
    return Printed.mk p.span printout :: printed) = _
  unfold Print.faultAfter?
  rw [Argument.resolve_eq]
  rcases p.argument.fault? b with _ | f
  · show (spend limit used (p.argument.exact b).saturated >>= _) = _
    rw [spend_saturated h hused]
    by_cases hlt : limit.toNat < used + (p.argument.exact b).cost
    · rw [if_pos hlt, if_pos hlt]
      rfl
    · rw [if_neg hlt, if_neg hlt]
      show (printAll limit b (used + (p.argument.exact b).cost) prints >>= _) = Except.map _ _
      cases printAll limit b (used + (p.argument.exact b).cost) prints <;> rfl
  · rfl

theorem totalCost_cons (b : Bindings) (p : Print) (prints : List Print) :
    totalCost b (p :: prints) = (p.argument.exact b).cost + totalCost b prints := by
  unfold totalCost
  rw [List.map_cons, List.sum_cons]

/-- **A run succeeds** if every print is resolved and the exact total keeps within the limit, and
then it records every print. -/
theorem printAll_eq_ok_iff {limit : UInt64} (h : limit.toNat < maxWord) (b : Bindings)
    {used : Nat} (hused : used ≤ limit.toNat) (prints : List Print) (printed : List Printed) :
    printAll limit b used prints = .ok printed ↔
      (∀ p ∈ prints, p.argument.fault? b = none) ∧ used + totalCost b prints ≤ limit.toNat
        ∧ printed = prints.map (Print.recorded b) := by
  induction prints generalizing used printed with
  | nil =>
    show Except.ok [] = Except.ok printed ↔ _
    rw [Except.ok.injEq, eq_comm]
    exact ⟨fun hp => ⟨by simp, hused, hp⟩, fun hp => hp.2.2⟩
  | cons p prints ih =>
    rw [printAll_cons h b hused, totalCost_cons, List.map_cons, List.forall_mem_cons]
    rcases hfault : p.faultAfter? limit b used with _ | f
    · obtain ⟨hown, hcost⟩ := (Print.faultAfter?_eq_none_iff limit b used p).1 hfault
      dsimp only
      constructor
      · intro hok
        rcases hrest : printAll limit b (used + (p.argument.exact b).cost) prints with g | rest
        · rw [hrest] at hok
          exact absurd hok (by simp [Except.map])
        · rw [hrest] at hok
          obtain ⟨hall, htotal, heq⟩ := (ih hcost rest).1 hrest
          exact ⟨⟨hown, hall⟩, by omega, by rw [← heq, ← Except.ok.inj hok]⟩
      · rintro ⟨⟨-, hall⟩, htotal, rfl⟩
        rw [(ih hcost _).2 ⟨hall, by omega, rfl⟩]
        rfl
    · have hnot : ¬ (p.argument.fault? b = none
          ∧ used + (p.argument.exact b).cost ≤ limit.toNat) := by
        rw [← Print.faultAfter?_eq_none_iff, hfault]
        simp
      constructor
      · intro hok
        exact absurd hok (by simp)
      · rintro ⟨⟨hown, -⟩, htotal, -⟩
        exact absurd ⟨hown, by omega⟩ hnot

theorem failsAt_nil_iff {limit : UInt64} {b : Bindings} {used : Nat} (hused : used ≤ limit.toNat)
    {p : Print} {f : Fault} :
    FailsAt limit b used [] p f ↔ p.faultAfter? limit b used = some f := by
  constructor
  · rintro ⟨-, -, hf⟩
    exact hf
  · intro hf
    exact ⟨fun q hq => absurd hq List.not_mem_nil, hused, hf⟩

/-- A run goes on behind a print without a fault as if it had begun there. -/
theorem failsAt_cons_iff {limit : UInt64} {b : Bindings} {used : Nat} {q : Print}
    {before : List Print} {p : Print} {f : Fault} :
    FailsAt limit b used (q :: before) p f ↔
      q.faultAfter? limit b used = none
        ∧ FailsAt limit b (used + (q.argument.exact b).cost) before p f := by
  unfold FailsAt
  rw [Print.faultAfter?_eq_none_iff, totalCost_cons, List.forall_mem_cons, ← Nat.add_assoc]
  constructor
  · rintro ⟨⟨hown, hall⟩, htotal, hf⟩
    exact ⟨⟨hown, by omega⟩, hall, htotal, hf⟩
  · rintro ⟨⟨hown, -⟩, hall, htotal, hf⟩
    exact ⟨⟨hown, hall⟩, htotal, hf⟩

/-- A place in a list is its first one or a place in the rest. -/
theorem exists_split_cons_iff {p : Print} {prints : List Print} {P : List Print → Print → Prop} :
    (∃ before q after, p :: prints = before ++ q :: after ∧ P before q) ↔
      P [] p ∨ ∃ before q after, prints = before ++ q :: after ∧ P (p :: before) q := by
  constructor
  · rintro ⟨before, q, after, hsplit, hP⟩
    rcases before with _ | ⟨r, before⟩
    · obtain ⟨rfl, rfl⟩ := List.cons.inj hsplit
      exact Or.inl hP
    · obtain ⟨rfl, rfl⟩ := List.cons.inj hsplit
      exact Or.inr ⟨before, q, after, rfl, hP⟩
  · rintro (hP | ⟨before, q, after, rfl, hP⟩)
    · exact ⟨[], p, prints, rfl, hP⟩
    · exact ⟨p :: before, q, after, rfl, hP⟩

/-- **A run fails** at the first print that brings up a fault after the exact total before it. -/
theorem printAll_eq_error_iff {limit : UInt64} (h : limit.toNat < maxWord) (b : Bindings)
    {used : Nat} (hused : used ≤ limit.toNat) (prints : List Print) (f : Fault) :
    printAll limit b used prints = .error f ↔
      ∃ before p after, prints = before ++ p :: after ∧ FailsAt limit b used before p f := by
  induction prints generalizing used with
  | nil =>
    constructor
    · intro herror
      exact absurd herror (by simp [printAll])
    · rintro ⟨before, p, after, hsplit, -⟩
      exact absurd hsplit (by simp)
  | cons p prints ih =>
    rw [printAll_cons h b hused, exists_split_cons_iff, failsAt_nil_iff hused]
    simp only [failsAt_cons_iff]
    rcases hfault : p.faultAfter? limit b used with _ | g
    · -- The print in front has no fault, so that it stands among those before the failing one.
      obtain ⟨-, hcost⟩ := (Print.faultAfter?_eq_none_iff limit b used p).1 hfault
      dsimp only
      rw [map_eq_error_iff, ih hcost]
      simp
    · dsimp only
      constructor
      · intro herror
        exact Or.inl (congrArg some (Except.error.inj herror))
      · rintro (hg | ⟨before, q, after, -, hnone, -⟩)
        · rw [Option.some.inj hg]
        · exact absurd hnone (Option.some_ne_none g)

end Playground
