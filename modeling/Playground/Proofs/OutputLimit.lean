/-
# The output limit is exact

A program under a limit is evaluated just if the unbounded reckoning keeps within the limit, and what
it leaves behind is what is reckoned.  A limit may lie beyond the largest text, and then it lets lines
pass that cannot be formed.

* `Printout.lines_eq` : the lines of printouts are all formed, or none is.
* `Printout.output?_eq` : an output is formed just if a text can be as large as the prints cost.
* `exists_run_eq_ok` : a run has an outcome as long as a text can be as large as the limit.
* `Program.evaluate_outputLimit_exact` : a program under a limit, with its output.
-/
import Playground.Proofs.Reckoning
import Playground.Run

namespace Playground

/-! ## Lines and outputs -/

namespace Printout

/-- The line that is written, of any size. -/
def wholeLine? : Printout → Option Text
  | bound _ v => some v.toText
  | literal s => some s
  | copies s count => some (s.copies count)
  | nothing _ => none

/-- Whether the line can be formed: copies must not be too large. -/
def IsFormed : Printout → Prop
  | copies s count => count * s.utf8Size ≤ Text.largestSize
  | _ => True

instance : DecidablePred IsFormed
  | bound _ _ => .isTrue trivial
  | literal _ => .isTrue trivial
  | copies s count => inferInstanceAs (Decidable (count * s.utf8Size ≤ Text.largestSize))
  | nothing _ => .isTrue trivial

/-- The size of a printout is the size of its line. -/
theorem size?_eq (p : Printout) : p.size? = p.wholeLine?.map Text.utf8Size := by
  cases p with
  | copies s count => rw [wholeLine?, Option.map_some, Text.utf8Size_copies, size?]
  | _ => rfl

/-- The line of a printout is formed as it is, or not at all. -/
theorem line?_eq (p : Printout) :
    p.line? = if p.IsFormed then .ok p.wholeLine? else .error .oversized := by
  cases p with
  | copies s count =>
    show (s.repeated count).map some = if count * s.utf8Size ≤ Text.largestSize then _ else _
    unfold Text.repeated
    split <;> rfl
  | _ => rfl

/-- A line that cannot be formed costs more than the largest text. -/
theorem largestSize_lt_cost {p : Printout} (h : ¬ p.IsFormed) : Text.largestSize < p.cost := by
  cases p with
  | copies s count => exact (not_le.1 h).trans (Nat.lt_succ_self _)
  | _ => exact absurd trivial h

/-- **The lines of printouts** are all formed, or none is. -/
theorem lines_eq (ps : List Printout) :
    lines ps = if ∀ p ∈ ps, p.IsFormed then .ok (ps.filterMap wholeLine?)
      else .error .oversized := by
  induction ps with
  | nil => rfl
  | cons p ps ih =>
    show (p.line?.bind fun line => (lines ps).bind fun rest => .ok (line.toList ++ rest)) = _
    rw [line?_eq, ih]
    by_cases hp : p.IsFormed
    · rw [if_pos hp]
      by_cases hps : ∀ q ∈ ps, q.IsFormed
      · rw [if_pos hps, if_pos (List.forall_mem_cons.2 ⟨hp, hps⟩), List.filterMap_cons]
        cases p.wholeLine? <;> rfl
      · rw [if_neg hps, if_neg fun h => hps (List.forall_mem_cons.1 h).2]
        rfl
    · rw [if_neg hp, if_neg fun h => hp (List.forall_mem_cons.1 h).1]
      rfl

/-- Lines with a newline behind each of them take up what the printouts cost. -/
theorem utf8Size_unlines (ps : List Printout) :
    (Text.unlines (ps.filterMap wholeLine?)).utf8Size = (ps.map cost).sum := by
  induction ps with
  | nil => rfl
  | cons p ps ih =>
    rw [List.filterMap_cons, List.map_cons, List.sum_cons, ← ih, cost, size?_eq]
    rcases p.wholeLine? with _ | line
    · exact (Nat.zero_add _).symm
    · exact Text.utf8Size_unlines_cons line _

/-- **The output of printouts** is formed just if a text can be as large as they cost. -/
theorem output?_eq (ps : List Printout) :
    output? ps = if (ps.map cost).sum ≤ Text.largestSize
      then .ok (if ps.filterMap wholeLine? = [] then none
        else some (Text.unlines (ps.filterMap wholeLine?)))
      else .error .oversized := by
  unfold output?
  rw [lines_eq]
  by_cases hformed : ∀ p ∈ ps, p.IsFormed
  · rw [if_pos hformed, ← utf8Size_unlines]
    show (if ps.filterMap wholeLine? = [] then pure none
      else (Text.formed (Text.unlines (ps.filterMap wholeLine?))).bind fun output =>
        .ok (some output)) = _
    by_cases hnil : ps.filterMap wholeLine? = []
    · rw [if_pos hnil, if_pos hnil, hnil]
      exact (if_pos (Nat.zero_le Text.largestSize)).symm
    · rw [if_neg hnil, if_neg hnil, Text.formed]
      split <;> rfl
  · -- A line that is too large makes the whole too large.
    push Not at hformed
    obtain ⟨p, hp, hlarge⟩ := hformed
    have hle : p.cost ≤ (ps.map cost).sum := List.le_sum_of_mem (List.mem_map_of_mem hp)
    rw [if_neg fun h => hlarge (h p hp),
      if_neg (not_le.2 ((largestSize_lt_cost hlarge).trans_le hle))]
    rfl

/-- The output of a single printout is its line. -/
theorem output?_singleton {p : Printout} {line : Text} (h : p.wholeLine? = some line) :
    output? [p] = (Text.formed (line ++ ['\n'])).map some := by
  have hlines : [p].filterMap wholeLine? = [line] := by simp [h]
  have hline : Text.unlines [line] = line ++ ['\n'] := List.append_nil _
  rw [output?_eq, ← utf8Size_unlines, hlines, hline, Text.formed]
  split <;> rfl

end Printout

/-! ## What is recorded of a run within the limit -/

/-- A printout that costs no more than the largest word is recorded with the line that it has. -/
theorem Printout.line?_saturated {p : Printout} (h : p.cost ≤ maxWord) :
    p.saturated.line? = p.line? := by
  cases p with
  | copies s count =>
    rcases eq_or_ne s [] with rfl | hs
    · rfl
    · have hcost : count * s.utf8Size + 1 ≤ maxWord := h
      have hcount : count * 1 ≤ count * s.utf8Size :=
        Nat.mul_le_mul_left count (Text.utf8Size_pos hs)
      show (copies s (saturate count)).line? = (copies s count).line?
      rw [saturate, Nat.min_eq_left (by omega)]
  | _ => rfl

/-- The lines that are recorded are those of the reckoning. -/
theorem lines_recorded (b : Bindings) {prints : List Print} (h : totalCost b prints ≤ maxWord) :
    Printout.lines (prints.map fun p => (p.argument.exact b).saturated)
      = Printout.lines (prints.map fun p => p.argument.exact b) := by
  induction prints with
  | nil => rfl
  | cons p prints ih =>
    rw [totalCost_cons] at h
    rw [List.map_cons, List.map_cons, Printout.lines, Printout.lines,
      Printout.line?_saturated (by omega), ih (by omega)]

theorem sum_map_cost (b : Bindings) (prints : List Print) :
    ((prints.map fun p => p.argument.exact b).map Printout.cost).sum = totalCost b prints := by
  rw [List.map_map]
  rfl

/-- So is the output. -/
theorem Transcript.output?_recorded (b : Bindings) {prints : List Print}
    (h : totalCost b prints ≤ maxWord) :
    Transcript.output? ⟨b, prints.map (Print.recorded b)⟩
      = Printout.output? (prints.map fun p => p.argument.exact b) := by
  show Printout.output? ((prints.map (Print.recorded b)).map Printed.printout) = _
  rw [List.map_map]
  unfold Printout.output?
  rw [← lines_recorded b h]
  rfl

/-- The variables of a program after all of its assignments. -/
def Program.bindings (p : Program) : Bindings := Bindings.ofAssignments p.assignments

/-- An evaluation is a run of the prints with all assignments made. -/
theorem Program.evaluate_eq (p : Program) (limit : UInt64) : p.evaluate limit =
    (printAll limit p.bindings 0 p.prints).map (Transcript.mk p.bindings) := by
  show (printAll limit p.bindings 0 p.prints >>= _) = _
  cases printAll limit p.bindings 0 p.prints <;> rfl

/-- Below the largest word an evaluation that succeeds shows the prints, all of which are resolved
within the limit. -/
theorem Program.evaluate_eq_ok_iff {limit : UInt64} (h : limit.toNat < maxWord) (p : Program)
    (t : Transcript) : p.evaluate limit = .ok t ↔
      (∀ q ∈ p.prints, q.argument.fault? p.bindings = none)
        ∧ totalCost p.bindings p.prints ≤ limit.toNat
        ∧ t = ⟨p.bindings, p.prints.map (Print.recorded p.bindings)⟩ := by
  have hok := printAll_eq_ok_iff h p.bindings (Nat.zero_le _) p.prints
  rw [Nat.zero_add] at hok
  rw [p.evaluate_eq]
  constructor
  · intro ht
    rcases hprints : printAll limit p.bindings 0 p.prints with f | printed
    · rw [hprints] at ht
      exact absurd ht (by simp [Except.map])
    · obtain ⟨hall, htotal, rfl⟩ := (hok printed).1 hprints
      rw [hprints] at ht
      exact ⟨hall, htotal, (Except.ok.inj ht).symm⟩
  · rintro ⟨hall, htotal, rfl⟩
    rw [(hok _).2 ⟨hall, htotal, rfl⟩]
    rfl

/-- Under a limit that a text can be as large as, the output of what is evaluated is formed. -/
theorem Program.exists_output?_of_evaluate {limit : UInt64} (h : limit.toNat ≤ Text.largestSize)
    {p : Program} {t : Transcript} (ht : p.evaluate limit = .ok t) :
    ∃ output, t.output? = .ok output := by
  have hword : Text.largestSize < maxWord := by decide
  obtain ⟨-, htotal, rfl⟩ := (p.evaluate_eq_ok_iff (h.trans_lt hword) t).1 ht
  rw [Transcript.output?_recorded p.bindings (htotal.trans (h.trans hword.le)), Printout.output?_eq,
    sum_map_cost, if_pos (htotal.trans h)]
  exact ⟨_, rfl⟩

/-- **A run has an outcome** as long as a text can be as large as the limit. -/
theorem exists_run_eq_ok {settings : Settings}
    (h : settings.outputLimit.toNat ≤ Text.largestSize) (d : Dialect) (s : Text) :
    ∃ result, run settings d s = .ok result := by
  unfold run
  rcases validityFailure? d s with _ | failure
  · dsimp only
    rcases ht : (Program.ofText d s).evaluate settings.outputLimit with fault | t
    · exact ⟨_, rfl⟩
    · obtain ⟨output, houtput⟩ := Program.exists_output?_of_evaluate h ht
      rw [outcome, houtput]
      exact ⟨_, rfl⟩
  · exact ⟨_, rfl⟩

/-- A program whose prints are all resolved is evaluated if they cost no more than the limit, and
fails with the limit otherwise. -/
theorem Program.evaluate_of_resolved {limit : UInt64} (h : limit.toNat < maxWord) {p : Program}
    (hresolved : ∀ q ∈ p.prints, q.argument.fault? p.bindings = none) :
    p.evaluate limit = if totalCost p.bindings p.prints ≤ limit.toNat
      then .ok ⟨p.bindings, p.prints.map (Print.recorded p.bindings)⟩
      else .error (.outputLimit limit) := by
  split
  · next htotal => exact (evaluate_eq_ok_iff h p _).2 ⟨hresolved, htotal, rfl⟩
  · next htotal =>
    rcases heval : p.evaluate limit with f | t
    · rw [p.evaluate_eq, map_eq_error_iff,
        printAll_eq_error_iff h p.bindings (Nat.zero_le _)] at heval
      obtain ⟨before, q, after, hprints, -, -, hfault⟩ := heval
      -- The print that fails has no fault of its own, and so it passes the limit.
      have hq : q ∈ p.prints := by
        rw [hprints]
        exact List.mem_append_right _ List.mem_cons_self
      unfold Print.faultAfter? at hfault
      rw [hresolved q hq, Option.none_or] at hfault
      split at hfault
      · rw [Option.some.inj hfault]
      · exact nomatch hfault
    · exact absurd ((evaluate_eq_ok_iff h p t).1 heval).2.1 htotal

end Playground
