/-
# Printing numbers

A number that is printed and read again is the same number, bit for bit, apart from the sign of
zero.  So a numeral may be printed in another form than it is written in, but what is printed is
printed again as it stands.

* `Binary64.run_showing` : a program that assigns a numeral and prints it.
* `Binary64.read?_toText_stable` : reading undoes printing, and printing again changes nothing.
-/
import Playground.Proofs.CommonCore.Agreement
import Playground.Proofs.Number.ShortestDigits
import Playground.Proofs.OutputLimit

namespace Playground

namespace Numeral

theorem toNat_of_isNumeralChar {c : Char} (h : isNumeralChar c = true) :
    0x20 < c.toNat ∧ c.toNat < 0x85 := by
  unfold isNumeralChar at h
  rw [Bool.or_eq_true, Bool.or_eq_true, Bool.or_eq_true] at h
  rcases h with ((halphanum | hsign) | hsign) | hpoint
  · have hname : AssignmentLine.isNameChar c = true := by
      unfold AssignmentLine.isNameChar
      rw [halphanum, Bool.true_or]
    have hbounds := AssignmentLine.toNat_of_isNameChar hname
    omega
  · rw [of_decide_eq_true hsign]
    decide
  · rw [of_decide_eq_true hsign]
    decide
  · rw [of_decide_eq_true hpoint]
    decide

end Numeral

/-! ## Numbers have short texts -/

/-- No character takes up more than four bytes. -/
theorem Text.utf8Size_le (s : Text) : s.utf8Size ≤ 4 * s.length := by
  induction s with
  | nil => exact le_rfl
  | cons c s ih =>
    have hc := c.utf8Size_le_four
    rw [utf8Size_cons, List.length_cons]
    omega

/-- The text of a decimal is not much longer than its digits. -/
theorem Decimal.length_toText_le {d : Decimal} (hpoint : (d.point - 1).natAbs < 10 ^ 3) :
    d.toText.length ≤ d.significant.length + 21 := by
  have hexponent : (Text.ofNat (d.point - 1).natAbs).length ≤ 3 :=
    (digitCount_le_iff (by decide)).2 hpoint
  unfold toText leastPlainPoint greatestPlainPoint
  split
  · unfold plainText
    split
    · rw [List.length_append, List.length_append, List.length_replicate]
      show 2 + _ + _ ≤ _
      omega
    · split
      · rw [List.length_append, List.length_replicate]
        omega
      · rw [List.length_append, List.length_cons, List.length_take, List.length_drop]
        omega
  · unfold exponentText
    dsimp only
    rw [List.length_append, List.length_append, List.length_append, List.length_take]
    split
    · show _ + 0 + 2 + _ ≤ _
      omega
    · rw [List.length_cons, List.length_drop]
      show _ + _ + 2 + _ ≤ _
      omega

namespace Binary64

/-- The text of a number is far from the largest text. -/
theorem utf8Size_toText_lt (x : Binary64) : x.toText.utf8Size < Text.largestSize := by
  have hlength : x.toText.length ≤ 39 := by
    unfold toText meaning
    by_cases hcode : x.code < infinityCode
    · rw [if_pos hcode]
      dsimp only
      split
      · decide
      · next hunits =>
        have hpos := Nat.pos_of_ne_zero fun h => hunits (units_eq_zero_iff.2 h)
        obtain ⟨hdigits, hlow, hhigh⟩ := Decimal.shortest_bounds hpos hcode
        have hdecimal := Decimal.length_toText_le (d := Decimal.shortest x.code) (by omega)
        have hsign : (signText x.isNegative).length ≤ 1 := by cases x.isNegative <;> decide
        rw [List.length_append]
        omega
    · rw [if_neg hcode]
      by_cases hinfinite : x.code = infinityCode
      · rw [if_pos hinfinite]
        dsimp only
        cases x.isNegative <;> decide
      · rw [if_neg hinfinite]
        dsimp only
        decide
  have hlargest : 4 * 39 < Text.largestSize := by decide
  have hsize := x.toText.utf8Size_le
  omega

/-! ## Numerals as values -/

/-- A numeral has no characters but spaces and those of a numeral. -/
theorem not_mem_of_read? {s : Text} {x : Binary64} (h : read? s = some x) {c : Char}
    (hspace : Text.isSpace c = false) (hc : Numeral.isNumeralChar c = false) : c ∉ s := by
  intro hmem
  rw [isNumeralChar_of_mem_trim h (Text.mem_trim hmem hspace)] at hc
  exact Bool.noConfusion hc

theorem isBlank_of_read? {s : Text} {x : Binary64} (h : read? s = some x) : s.isBlank = false := by
  rw [← Bool.not_eq_true]
  intro hblank
  unfold read? at h
  have hnone : Numeral.read? [] = none := by decide
  rw [Text.trim_of_isBlank hblank, hnone] at h
  exact absurd h (Option.some_ne_none x).symm

/-- What is assigned by a numeral is the number that it denotes. -/
theorem ofText_trim {s : Text} {x : Binary64} (h : read? s = some x) :
    Assigned.ofText s.trim = .value (.number x) := by
  have hspace : ∀ c ∈ s.trim, Text.isSpace c = false := by
    intro c hc
    have hbounds := Numeral.toNat_of_isNumeralChar (isNumeralChar_of_mem_trim h hc)
    exact Text.isSpace_eq_false hbounds.1 hbounds.2
  have hquote : s.trim.head?.any Text.isQuote = false := by
    rcases htrim : s.trim with _ | ⟨c, rest⟩
    · rfl
    · have hnumeral := isNumeralChar_of_mem_trim h (c := c) (by rw [htrim]; simp)
      show Text.isQuote c = false
      rw [← Bool.not_eq_true]
      intro hc
      unfold Text.isQuote at hc
      rw [Bool.or_eq_true] at hc
      rcases hc with hdouble | hsingle
      · rw [of_decide_eq_true hdouble] at hnumeral
        exact absurd hnumeral (by decide)
      · rw [of_decide_eq_true hsingle] at hnumeral
        exact absurd hnumeral (by decide)
  have hread : read? s.trim = some x := by
    unfold read? at h ⊢
    rw [Text.trim_of_no_space hspace]
    exact h
  unfold Assigned.ofText
  rw [hquote, if_neg Bool.false_ne_true, hread]

/-! ## Programs that print a number -/

/-- The program that assigns a numeral and prints it, with or without a newline at its end. -/
def showing (closed : Bool) (t : Text) : Text :=
  "x = ".toList ++ t ++ "\nprint(x)".toList ++ if closed then ['\n'] else []

/-- The statements of the program. -/
def showingStatements (t : Text) : List CoreStatement :=
  [.assignment "x".toList t, .print "x".toList]

theorem text_showingStatements (closed : Bool) (t : Text) :
    CoreStatement.text .python closed (showingStatements t) = showing closed t := by
  have hline : (CoreStatement.assignment "x".toList t).line .python = "x = ".toList ++ t := by
    rw [CoreStatement.line, List.append_assoc]
    rfl
  have htext : ∀ rest : Text, CoreStatement.line .python (.assignment "x".toList t) ++ '\n' :: rest
      = "x = ".toList ++ t ++ '\n' :: rest := fun rest => by rw [hline]
  unfold showing
  rw [List.append_assoc ("x = ".toList ++ t)]
  cases closed with
  | true => exact htext "print(x)\n".toList
  | false => exact htext "print(x)".toList

/-- A numeral on one line may be assigned in either dialect. -/
theorem valid_showingStatements {t : Text} {x : Binary64} (hnewline : '\n' ∉ t)
    (h : read? t = some x) : ∀ st ∈ showingStatements t, CoreStatement.Valid st := by
  refine List.forall_mem_cons.2 ⟨?_, List.forall_mem_singleton.2 ?_⟩
  · have hname : AssignmentLine.IsName "x".toList := ⟨by decide, List.all_eq_true.1 (by decide)⟩
    have hparen : '(' ∉ t := not_mem_of_read? h (by decide) (by decide)
    apply CoreStatement.Valid.assignment hname (isBlank_of_read? h) hnewline
    intro d hpart
    apply hparen
    apply hpart.subset
    cases d <;> decide
  · exact .print (by decide) (by decide) (by decide) (by decide)

/-- A line that keeps within the limit is charged exactly. -/
theorem spend_bound {limit : UInt64} (name : Text) {x : Binary64}
    (hlimit : x.toText.utf8Size + 1 ≤ limit.toNat) :
    spend limit 0 (.bound name (.number x)) = .ok (x.toText.utf8Size + 1) := by
  have hword := limit.toNat_lt
  have hmax : maxWord = 2 ^ 64 - 1 := by decide
  have htotal : saturate (saturate (0 + saturate x.toText.utf8Size) + 1)
      = x.toText.utf8Size + 1 := by
    unfold saturate
    omega
  show (if limit.toNat < saturate (saturate (0 + saturate x.toText.utf8Size) + 1)
    then Except.error (Fault.outputLimit limit)
    else Except.ok (saturate (saturate (0 + saturate x.toText.utf8Size) + 1))) = _
  rw [htotal, if_neg (by omega)]

/-- The program binds the number and prints what is bound. -/
theorem printouts_showingStatements {t : Text} {x : Binary64} (h : read? t = some x)
    {limit : UInt64} (hlimit : x.toText.utf8Size + 1 ≤ limit.toNat) :
    printouts limit
        (Bindings.ofAssignments (CoreStatement.program (showingStatements t)).assignments) 0
        (CoreStatement.program (showingStatements t)).prints
      = .ok [.bound "x".toList (.number x)] := by
  have hbindings : Bindings.ofAssignments (CoreStatement.program (showingStatements t)).assignments
      = Bindings.empty.bind "x".toList (.number x) := by
    show Bindings.empty.assign ⟨_, _, Assigned.ofText t.trim, _⟩ = _
    rw [ofText_trim h]
    rfl
  have hresolve : (Argument.operand (Operand.ofText "x".toList)).resolve
      (Bindings.empty.bind "x".toList (.number x)) = .ok (.bound "x".toList (.number x)) := by
    have htext : (Operand.ofText "x".toList).text = "x".toList := by decide
    rw [Argument.resolve, Bindings.printoutOf, htext, Bindings.get?_bind, if_pos rfl]
  rw [hbindings]
  show printouts limit _ 0 [⟨.operand (Operand.ofText "x".toList), _⟩] = _
  rw [printouts_cons, hresolve]
  show (spend limit 0 _).bind _ = _
  rw [spend_bound "x".toList hlimit]
  rfl

/-- **A program that prints a numeral** writes the number that the numeral denotes. -/
theorem run_showing {t : Text} {x : Binary64} (hnewline : '\n' ∉ t) (h : read? t = some x)
    (settings : Settings) (closed : Bool)
    (hlimit : x.toText.utf8Size + 1 ≤ settings.outputLimit.toNat) :
    run settings .python (showing closed t) = .ok (.ok (x.toText ++ ['\n'])) := by
  have hprints : ∃ st ∈ showingStatements t, st.prints = true :=
    ⟨.print "x".toList, List.mem_cons_of_mem _ List.mem_cons_self, rfl⟩
  have hvalid := valid_showingStatements hnewline h
  rw [← text_showingStatements, CoreStatement.run_text settings .python closed hvalid hprints,
    outcome_evaluate, printouts_showingStatements h hlimit]
  show Except.map _ (Printout.output? [.bound "x".toList (.number x)]) = _
  have hsize : Text.utf8Size (x.toText ++ ['\n']) ≤ Text.largestSize := by
    rw [Text.utf8Size_append]
    exact x.utf8Size_toText_lt
  have hline : Printout.wholeLine? (.bound "x".toList (.number x)) = some x.toText := rfl
  rw [Printout.output?_singleton hline, Text.formed, if_pos hsize]
  rfl

/-- **Reading undoes printing.**  Whatever number is printed is read again bit for bit, except that
zero loses its sign.  So the text that is printed for any numeral is printed for itself as well. -/
theorem read?_toText_stable :
    (∀ x : Binary64, x.meaning ≠ .notANumber →
      read? x.toText = some (if x = ofCode true 0 then ofCode false 0 else x))
    ∧ ∀ (t : Text) (x : Binary64), '\n' ∉ t → read? t = some x →
      ∀ (settings : Settings) (closed : Bool),
        x.toText.utf8Size + 1 ≤ settings.outputLimit.toNat →
        run settings .python (showing closed t) = .ok (.ok (x.toText ++ ['\n']))
          ∧ run settings .python (showing closed x.toText) = .ok (.ok (x.toText ++ ['\n'])) := by
  refine ⟨fun x hx => read?_toText hx, ?_⟩
  intro t x hnewline h settings closed hlimit
  refine ⟨run_showing hnewline h settings closed hlimit, ?_⟩
  have hx := meaning_of_read? h
  have hread := read?_toText hx
  have hline : '\n' ∉ x.toText := by
    intro hmem
    exact absurd (isSpace_of_mem_toText hx hmem) (by decide)
  by_cases hzero : x = ofCode true 0
  · -- Zero is printed without its sign, and so is the zero that is read again.
    have hsame : (ofCode false 0).toText = x.toText := by
      rw [hzero]
      decide
    rw [if_pos hzero] at hread
    rw [← hsame] at hread hline hlimit ⊢
    exact run_showing hline hread settings closed hlimit
  · rw [if_neg hzero] at hread
    exact run_showing hline hread settings closed hlimit

/-- A numeral with a sign and an exponent, which the number is printed without. -/
theorem read?_toText_thousand :
    let x := ofCode false 0x408F400000000000
    x.meaning ≠ .notANumber ∧ '\n' ∉ "+1e3".toList ∧ read? "+1e3".toList = some x
      ∧ x.toText = "1000".toList ∧ read? "1000".toList = some x
      ∧ run {} .python (showing false "+1e3".toList) = .ok (.ok "1000\n".toList)
      ∧ run {} .python (showing false "1000".toList) = .ok (.ok "1000\n".toList) := by
  intro x
  have hx : x.meaning ≠ .notANumber := by decide +kernel
  have hnewline : '\n' ∉ "+1e3".toList := by decide
  have hread : read? "+1e3".toList = some x := by decide +kernel
  have htext : x.toText = "1000".toList := by decide +kernel
  have hzero : x ≠ ofCode true 0 := by decide
  have hback := read?_toText_stable.1 x hx
  have hrun := read?_toText_stable.2 "+1e3".toList x hnewline hread {} false (by
    rw [htext]
    decide)
  rw [htext] at hback hrun
  rw [if_neg hzero] at hback
  exact ⟨hx, hnewline, hread, htext, hback, hrun⟩

end Binary64

end Playground
