/-
# Valid Go programs

A Go program is refused by the first of five rules that it breaks.  The last one asks for the
package `strings` if a text is repeated.  Whether an import block names the package is found by a
scan of the lines that knows only whether it is inside of a block; here it is said of two lines and
what stands between them.  A program that is not refused repeats no text without the package.

* `blockImportsStrings_iff` : what the scan finds, from inside or outside of a block.
* `importsStrings_iff` : a program imports the package on a line or in a block.
* `validityFailure?_go_exact` : the rules in their order, and what they are good for.
-/
import Playground.Proofs.Reading
import Playground.Validity

namespace Playground

/-! ## Import blocks -/

/-- A line opens an import block. -/
def OpensImports (line : Text) : Prop := "import (".toList <+: line.trim

/-- A line closes a block. -/
def ClosesBlock (line : Text) : Prop := [')'] <+: line.trim

/-- A line names the package `strings` as a block does: behind a space or a tab, with nothing else
on it but spaces. -/
def NamesStrings (line : Text) : Prop :=
  (line.head? = some ' ' ∨ line.head? = some '\t') ∧ line.trim = "\"strings\"".toList

/-- Some line names the package, and no line before it closes the block. -/
def NamesStringsInside (lines : List Text) : Prop :=
  ∃ between line after, lines = between ++ line :: after
    ∧ (∀ l ∈ between, ¬ ClosesBlock l) ∧ NamesStrings line

/-- Some line opens an import block, and a later one names the package before the block is
closed. -/
def BlockNamesStrings (lines : List Text) : Prop :=
  ∃ before opening rest, lines = before ++ opening :: rest
    ∧ OpensImports opening ∧ NamesStringsInside rest

theorem namesStringsInside_cons_iff {line : Text} {rest : List Text} :
    NamesStringsInside (line :: rest) ↔
      NamesStrings line ∨ ¬ ClosesBlock line ∧ NamesStringsInside rest := by
  constructor
  · rintro ⟨between, l, after, hlines, hbetween, hl⟩
    rcases between with _ | ⟨first, between⟩
    · obtain ⟨rfl, rfl⟩ := List.cons.inj hlines
      exact Or.inl hl
    · obtain ⟨rfl, rfl⟩ := List.cons.inj hlines
      rw [List.forall_mem_cons] at hbetween
      exact Or.inr ⟨hbetween.1, between, l, after, rfl, hbetween.2, hl⟩
  · rintro (hline | ⟨hline, between, l, after, rfl, hbetween, hl⟩)
    · exact ⟨[], line, rest, rfl, fun l h => absurd h List.not_mem_nil, hline⟩
    · exact ⟨line :: between, l, after, rfl, List.forall_mem_cons.2 ⟨hline, hbetween⟩, hl⟩

theorem blockNamesStrings_cons_iff {line : Text} {rest : List Text} :
    BlockNamesStrings (line :: rest) ↔
      OpensImports line ∧ NamesStringsInside rest ∨ BlockNamesStrings rest := by
  constructor
  · rintro ⟨before, opening, rest', hlines, hopening, hinside⟩
    rcases before with _ | ⟨first, before⟩
    · obtain ⟨rfl, rfl⟩ := List.cons.inj hlines
      exact Or.inl ⟨hopening, hinside⟩
    · obtain ⟨rfl, rfl⟩ := List.cons.inj hlines
      exact Or.inr ⟨before, opening, rest', rfl, hopening, hinside⟩
  · rintro (⟨hline, hinside⟩ | ⟨before, opening, rest', rfl, hopening, hinside⟩)
    · exact ⟨[], line, rest, rfl, hline, hinside⟩
    · exact ⟨line :: before, opening, rest', rfl, hopening, hinside⟩

/-- A line that closes a block does nothing else. -/
theorem not_of_closesBlock {line : Text} (h : ClosesBlock line) :
    ¬ OpensImports line ∧ ¬ NamesStrings line := by
  obtain ⟨s, hs⟩ := h
  refine ⟨?_, ?_⟩
  · rintro ⟨t, ht⟩
    have heq := hs.trans ht.symm
    exact absurd (List.cons.inj heq).1 (by decide)
  · rintro ⟨-, htrim⟩
    have heq := hs.trans htrim
    exact absurd (List.cons.inj heq).1 (by decide)

theorem namesStrings_iff {line : Text} :
    (isIndented line && line.trim = "\"strings\"".toList) = true ↔ NamesStrings line := by
  unfold NamesStrings isIndented
  rw [Bool.and_eq_true, decide_eq_true_iff]
  refine and_congr_left fun _ => ?_
  rcases line with _ | ⟨c, line⟩
  · simp
  · simp

/-- **What the scan finds.**  From inside of a block that is a line that names the package before
the block is closed; from either state it is one in a block that is opened later. -/
theorem blockImportsStrings_iff (inside : Bool) (lines : List Text) :
    blockImportsStrings inside lines = true ↔
      inside = true ∧ NamesStringsInside lines ∨ BlockNamesStrings lines := by
  induction lines generalizing inside with
  | nil => simp [blockImportsStrings, NamesStringsInside, BlockNamesStrings]
  | cons line rest ih =>
    rw [namesStringsInside_cons_iff, blockNamesStrings_cons_iff]
    unfold blockImportsStrings
    dsimp only
    cases inside with
    | true =>
      rw [if_pos rfl]
      split
      · next hcloses =>
        have hline : ClosesBlock line := Text.startsWith_iff.1 hcloses
        obtain ⟨hopens, hnames⟩ := not_of_closesBlock hline
        rw [ih]
        tauto
      · next hcloses =>
        have hline : ¬ ClosesBlock line := fun h => hcloses (Text.startsWith_iff.2 h)
        split
        · next hnames => exact iff_of_true rfl (Or.inl ⟨rfl, Or.inl (namesStrings_iff.1 hnames)⟩)
        · next hnames =>
          have hnot : ¬ NamesStrings line := fun h => hnames (namesStrings_iff.2 h)
          rw [ih]
          tauto
    | false =>
      have hopens : Text.startsWith line.trim "import (".toList = true ↔ OpensImports line :=
        Text.startsWith_iff
      rw [if_neg Bool.false_ne_true, ih, hopens]
      tauto

/-! ## The package for repeating text -/

/-- The package `strings` is imported, by a declaration of its own or in a block. -/
def StringsImported (s : Text) : Prop :=
  "import \"strings\"".toList <:+: s ∨ BlockNamesStrings s.lines

/-- **A program imports the package** by a declaration of its own or in a block. -/
theorem importsStrings_iff {s : Text} : importsStrings s = true ↔ StringsImported s := by
  unfold importsStrings StringsImported
  rw [Bool.or_eq_true, Text.includes_iff, blockImportsStrings_iff]
  simp

instance (s : Text) : Decidable (StringsImported s) := decidable_of_iff _ importsStrings_iff

/-- An argument that repeats a text, or seems to, names the function that does. -/
theorem Argument.repeatName_infix {argument : Text}
    (h : (∃ r, ofText .go argument = .repetition r) ∨ ∃ e, ofText .go argument = .unmatched e) :
    repeatName <:+: argument := by
  by_contra hnot
  rw [Argument.ofText_go hnot] at h
  rcases h with ⟨r, hr⟩ | ⟨e, he⟩
  · exact nomatch hr
  · exact nomatch he

/-- A program with such a print includes the name of the function. -/
theorem Program.repeatName_infix {s : Text} {p : Print} (h : p ∈ (ofText .go s).prints)
    (hp : (∃ r, p.argument = .repetition r) ∨ ∃ e, p.argument = .unmatched e) :
    Argument.repeatName <:+: s := by
  obtain ⟨line, hline, call, hcall, hargument⟩ := exists_call_of_mem_prints h
  rw [hargument] at hp
  calc Argument.repeatName <:+: call.argument := Argument.repeatName_infix hp
    _ <:+: line := CallSplit.argument_infix_of_mem hcall
    _ <:+: s := Text.infix_of_mem_lines hline

/-! ## The rules in their order -/

theorem validityFailure?_go_eq (s : Text) :
    validityFailure? .go s = if s.all Text.isSpace then some .blank
      else if ¬ "package main".toList <:+: s then some .noPackage
      else if ¬ "import".toList <:+: s then some .noImport
      else if ¬ "fmt.Println(".toList <:+: s then some .noPrint
      else if "strings.Repeat".toList <:+: s ∧ ¬ StringsImported s then some .noStringsImport
      else none := by
  have hlacks : ∀ key : Text, (!s.includes key) = true ↔ ¬ key <:+: s := fun key => by
    rw [Bool.not_eq_true', Text.includes_eq_false_iff]
  have hrepeats : (s.includes "strings.Repeat".toList && !importsStrings s) = true ↔
      "strings.Repeat".toList <:+: s ∧ ¬ StringsImported s := by
    rw [Bool.and_eq_true, Text.includes_iff, Bool.not_eq_true', ← importsStrings_iff,
      Bool.not_eq_true]
  unfold validityFailure? goFailure?
  refine if_congr Iff.rfl rfl ?_
  refine if_congr (hlacks _) rfl (if_congr (hlacks _) rfl (if_congr (hlacks _) rfl ?_))
  exact if_congr hrepeats rfl rfl

/-- A program that keeps the rules is valid. -/
theorem validityFailure?_go_eq_none {s : Text} (hpackage : "package main".toList <:+: s)
    (himport : "import".toList <:+: s) (hprint : "fmt.Println(".toList <:+: s)
    (hstrings : StringsImported s) : validityFailure? .go s = none := by
  have hblank : ¬ s.all Text.isSpace = true := fun hall =>
    absurd (List.all_eq_true.1 hall 'p' (hpackage.subset (by decide))) (by decide)
  have hkept : ¬ ("strings.Repeat".toList <:+: s ∧ ¬ StringsImported s) := fun h => h.2 hstrings
  rw [validityFailure?_go_eq, if_neg hblank, if_neg (not_not_intro hpackage),
    if_neg (not_not_intro himport), if_neg (not_not_intro hprint), if_neg hkept]

/-- **Valid Go programs.**  A program is refused by the first rule that it breaks: it is not blank,
declares its package, imports something, prints something, and does not name the function that
repeats a text unless it imports the package `strings`.  So a program that is not refused, and in
which any print repeats a text or seems to, imports the package. -/
theorem validityFailure?_go_exact (s : Text) :
    (validityFailure? .go s = if s.all Text.isSpace then some .blank
      else if ¬ "package main".toList <:+: s then some .noPackage
      else if ¬ "import".toList <:+: s then some .noImport
      else if ¬ "fmt.Println(".toList <:+: s then some .noPrint
      else if "strings.Repeat".toList <:+: s ∧ ¬ StringsImported s then some .noStringsImport
      else none)
    ∧ (validityFailure? .go s = none → ∀ p ∈ (Program.ofText .go s).prints,
      (∃ r, p.argument = .repetition r) ∨ (∃ e, p.argument = .unmatched e) →
      StringsImported s) := by
  refine ⟨validityFailure?_go_eq s, fun hvalid p hp hrepeats => ?_⟩
  by_contra hnot
  have hbroken : "strings.Repeat".toList <:+: s ∧ ¬ StringsImported s :=
    ⟨Program.repeatName_infix hp hrepeats, hnot⟩
  -- The last rule is broken, so that the program is refused even if it keeps the others.
  rw [validityFailure?_go_eq, if_pos hbroken] at hvalid
  split_ifs at hvalid

/-- A block that opens within a block and names the package behind a tab, and one that is closed
before the package is named. -/
theorem validityFailure?_go_blocks :
    let header := "package main\nimport (\n import (\n".toList
    let call := "fmt.Println(strings.Repeat(\"a\", n))".toList
    let valid := header ++ "\t\"strings\" \n".toList ++ call
    let refused := header ++ ") \n\t\"strings\"\n".toList ++ call
    validityFailure? .go refused = some .noStringsImport
      ∧ validityFailure? .go valid = none
      ∧ (∃ p ∈ (Program.ofText .go valid).prints,
        p.argument = .unmatched "strings.Repeat(\"a\", n)".toList)
      ∧ StringsImported valid := by
  intro header call valid refused
  have hvalid : validityFailure? .go valid = none := by decide +kernel
  have hprint : ∃ p ∈ (Program.ofText .go valid).prints,
      p.argument = .unmatched "strings.Repeat(\"a\", n)".toList := by decide +kernel
  obtain ⟨hrefused, -⟩ := validityFailure?_go_exact refused
  obtain ⟨-, himported⟩ := validityFailure?_go_exact valid
  obtain ⟨p, hp, hargument⟩ := hprint
  exact ⟨hrefused.trans (by decide +kernel), hvalid, ⟨p, hp, hargument⟩,
    himported hvalid p hp (Or.inr ⟨_, hargument⟩)⟩

end Playground
