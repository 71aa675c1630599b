/-
# The spans of a program

The tokens of a program select what they stand for, in the order of the page, and a mark ends them.
Every statement keeps the place of its token, and every printout the place of its print.

* `Program.forall₂_statements` : every token but the last is one statement, in the same place.
* `Program.map_span_of_evaluate` : what is printed is recorded in the places of the prints.
* `Program.spans_exact` : the spans of a program and of what it prints.
-/
import Playground.Proofs.OutputLimit
import Playground.Proofs.Spans.Order

namespace Playground

/-! ## Statements and printouts -/

/-- The place of a statement. -/
def Statement.span : Statement → Span
  | assignment a => a.span
  | print p => p.span

/-- A statement keeps the place of its token. -/
theorem Statement.span_ofToken? {d : Dialect} {token : Token} {s : Statement}
    (h : ofToken? d token = some s) : s.span = token.span := by
  unfold ofToken? at h
  split at h
  · rw [← Option.some.inj h]
    rfl
  · rw [← Option.some.inj h]
    rfl
  · exact nomatch h

/-- **Every token but the last** is one statement, in the same place. -/
theorem Program.forall₂_statements (d : Dialect) (s : Text) :
    List.Forall₂ (fun token st => Statement.ofToken? d token = some st ∧ st.span = token.span)
      (Token.ofText d s).dropLast (ofText d s).statements := by
  have hpairs : List.Forall₂ (fun token st => Statement.ofToken? d token = some st)
      (Token.ofText d s).dropLast (ofText d s).statements := by
    rw [← @List.forall₂_map_right_iff _ _ _ _ some, ← List.forall₂_map_left_iff, map_ofToken?,
      List.forall₂_eq_eq_eq]
  exact hpairs.imp fun token st h => ⟨h, Statement.span_ofToken? h⟩

/-- What prints do is recorded with their places. -/
theorem map_span_of_printAll {limit : UInt64} {b : Bindings} {used : Nat} {prints : List Print}
    {printed : List Printed} (h : printAll limit b used prints = .ok printed) :
    printed.map Printed.span = prints.map Print.span := by
  have hspans : List.Forall₂ (fun p q => q.span = p.span) prints printed :=
    (forall₂_printAll h).imp fun p q hpq => hpq.1
  rw [← List.forall₂_eq_eq_eq, List.forall₂_map_left_iff, List.forall₂_map_right_iff]
  exact hspans.flip

/-- What a program prints is recorded in the places of its prints. -/
theorem Program.map_span_of_evaluate {p : Program} {limit : UInt64} {t : Transcript}
    (h : p.evaluate limit = .ok t) : t.printed.map Printed.span = p.prints.map Print.span := by
  obtain ⟨printed, hprinted, heq⟩ := exists_of_bind_eq_ok h
  obtain rfl := Except.ok.inj heq
  exact map_span_of_printAll hprinted

/-! ## Programs -/

/-- The mark at the end of a text stands at the first column behind its last line, and in front of it
no other mark stands. -/
structure Token.EndsOnce (s : Text) (tokens : List Token) : Prop where
  /-- The last token is a mark. -/
  last : ∃ t, tokens.getLast? = some t ∧ t.construct = .endOfText
    ∧ t.span = Span.ofPlace t.span.startLine 1 ∧ t.span.startLine.toNat = s.lines.length + 1
  /-- The others are not. -/
  single : ∀ t ∈ tokens.dropLast, t.construct ≠ .endOfText

theorem Token.endsOnce_ofText {d : Dialect} {s : Text}
    (hcount : s.lines.length + 1 < UInt32.size) : EndsOnce s (ofText d s) := by
  constructor
  · refine ⟨atEnd s.lines.length, ?_, rfl, rfl, UInt32.toNat_ofNat_of_lt' hcount⟩
    unfold ofText
    rw [List.getLast?_concat]
  · intro t ht hend
    rw [dropLast_ofText, List.mem_flatMap] at ht
    obtain ⟨⟨number, line⟩, -, hmem⟩ := ht
    rcases construct_of_mem_ofLine hmem with ⟨a, -, ha⟩ | ⟨call, -, hcall⟩
    · exact nomatch ha.symm.trans hend
    · exact nomatch hcall.symm.trans hend

/-- **Every span selects the text that it stands for.**  In a program of fewer than `2 ^ 32 - 1` lines
of fewer than `2 ^ 32 - 1` characters, a token in front of the mark at the end selects what it stands
for on its line, and the span of a name selects the name.  Every such token is one statement, in its
place, and every printout is in the place of its print.  The tokens follow one another: lines never
decrease, a line has at most one assignment, which comes first, and calls behind it, whose columns do
not overlap and which lie in its value.  The mark is the last token and the only one of its kind, at
the first column behind the last line. -/
theorem Program.spans_exact (d : Dialect) {s : Text} (hcount : s.lines.length + 1 < UInt32.size)
    (hlong : ∀ line ∈ s.lines, line.length + 1 < UInt32.size) :
    (∀ token ∈ (Token.ofText d s).dropLast, token.Selects d s)
    ∧ (∀ a ∈ (ofText d s).assignments, a.NameStands s)
    ∧ List.Forall₂ (fun token st => Statement.ofToken? d token = some st ∧ st.span = token.span)
      (Token.ofText d s).dropLast (ofText d s).statements
    ∧ (∀ limit t, (ofText d s).evaluate limit = .ok t →
      t.printed.map Printed.span = (ofText d s).prints.map Print.span)
    ∧ (Token.ofText d s).Pairwise Token.Precedes
    ∧ Token.EndsOnce s (Token.ofText d s) := by
  refine ⟨fun token htoken => Token.selects_of_mem hcount hlong htoken,
    fun a ha => Assignment.nameStands_of_mem hcount hlong ha, forall₂_statements d s,
    fun limit t ht => map_span_of_evaluate ht, Token.pairwise_precedes_ofText hcount hlong,
    Token.endsOnce_ofText hcount⟩

/-- An indented assignment whose value holds two calls, with characters of several bytes in front of
and between them. -/
theorem Program.spans_indented :
    let s : Text := "\n\t\u3000name := \"é\" fmt.Println(\"ü\") ñ fmt.Println(name)".toList
    (Token.ofText .go s).map (fun token => token.span.select? s)
      = [some "name := \"é\" fmt.Println(\"ü\") ñ fmt.Println(name)".toList,
        some "fmt.Println(\"ü\")".toList, some "fmt.Println(name)".toList, none]
    ∧ (ofText .go s).assignments.map (fun a => a.nameSpan.select? s) = [some "name".toList]
    ∧ s.lines.length + 1 < UInt32.size ∧ (∀ line ∈ s.lines, line.length + 1 < UInt32.size)
    ∧ (∃ t, (ofText .go s).evaluate 100 = .ok t
      ∧ t.printed.map Printed.span = [Span.ofColumns 2 15 30, Span.ofColumns 2 34 50])
    ∧ (∀ token ∈ (Token.ofText .go s).dropLast, token.Selects .go s)
    ∧ (∀ a ∈ (ofText .go s).assignments, a.NameStands s)
    ∧ (Token.ofText .go s).Pairwise Token.Precedes := by
  intro s
  have hcount : s.lines.length + 1 < UInt32.size := by decide
  have hlong : ∀ line ∈ s.lines, line.length + 1 < UInt32.size := by decide
  obtain ⟨hselects, hnames, -, hprinted, hordered, -⟩ := spans_exact .go hcount hlong
  have hprints : (ofText .go s).prints.map Print.span
      = [Span.ofColumns 2 15 30, Span.ofColumns 2 34 50] := by decide +kernel
  have hok : ((ofText .go s).evaluate 100).isOk = true := by decide +kernel
  refine ⟨by decide +kernel, by decide +kernel, hcount, hlong, ?_, hselects, hnames, hordered⟩
  rcases ht : (ofText .go s).evaluate 100 with f | t
  · rw [ht] at hok
    exact nomatch hok
  · exact ⟨t, rfl, (hprinted 100 t ht).trans hprints⟩

end Playground
