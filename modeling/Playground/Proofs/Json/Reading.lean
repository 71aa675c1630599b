/-
# Reading what the grammar allows

Whatever way a value is written in, it is read as that value: the reader is complete for the grammar.
So a text denotes at most one value.  The proof goes along the fuel, since each step of the reader
spends one unit on a shorter text, and treats the four kinds of things that are read side by side.

* `Json.reads` : values, items and members with enough fuel.
* `Json.read?_of_isText` : whole texts.
* `Json.IsText.unique` : a text denotes at most one value.
-/
import Playground.Proofs.Json.Scalars

namespace Playground

namespace Json

/-! ## Blanks -/

/-- No character of a number follows. -/
def Ends (rest : Text) : Prop := ∀ c ∈ rest.head?, isNumberChar c = false

/-- Blanks are skipped. -/
theorem IsBlanks.isBlankChar_of_mem {blanks : Text} (h : IsBlanks blanks) :
    ∀ c ∈ blanks, isBlankChar c = true := by
  intro c hc
  have hblank := h c hc
  simp only [List.mem_cons, List.not_mem_nil, or_false] at hblank
  rcases hblank with rfl | rfl | rfl | rfl <;> rfl

/-- A blank is no part of a number. -/
theorem isNumberChar_of_isBlankChar {c : Char} (h : isBlankChar c = true) :
    isNumberChar c = false := by
  unfold isBlankChar at h
  simp only [Bool.or_eq_true, decide_eq_true_iff] at h
  rcases h with ((rfl | rfl) | rfl) | rfl <;> decide

/-- A number ends where blanks and a mark between values follow. -/
theorem ends_append {blanks : Text} (h : IsBlanks blanks) {c : Char} (hc : isNumberChar c = false)
    (rest : Text) : Ends (blanks ++ c :: rest) := by
  cases blanks with
  | nil =>
    rintro d ⟨⟩
    exact hc
  | cons blank blanks =>
    rintro d ⟨⟩
    exact isNumberChar_of_isBlankChar (h.isBlankChar_of_mem blank List.mem_cons_self)

/-- A number ends at the end of a text and in front of blanks there. -/
theorem ends_of_isBlanks {blanks : Text} (h : IsBlanks blanks) : Ends blanks :=
  fun c hc => isNumberChar_of_isBlankChar (h.isBlankChar_of_mem c (List.mem_of_head? hc))

theorem skipBlanks_append {blanks : Text} (h : IsBlanks blanks) (s : Text) :
    skipBlanks (blanks ++ s) = skipBlanks s :=
  List.dropWhile_append_of_pos h.isBlankChar_of_mem

theorem skipBlanks_cons {c : Char} (h : isBlankChar c = false) (s : Text) :
    skipBlanks (c :: s) = c :: s :=
  List.dropWhile_cons_of_neg (by rw [h]; exact Bool.false_ne_true)

/-- Blanks are skipped up to a mark between values. -/
theorem skipBlanks_append_cons {blanks : Text} (h : IsBlanks blanks) {c : Char}
    (hc : isBlankChar c = false) (s : Text) : skipBlanks (blanks ++ c :: s) = c :: s := by
  rw [skipBlanks_append h, skipBlanks_cons hc]

theorem skipBlanks_skipBlanks (s : Text) : skipBlanks (skipBlanks s) = skipBlanks s :=
  List.dropWhile_idempotent isBlankChar s

/-! Blanks may be skipped in front of whatever is read. -/

theorem readValue?_skipBlanks (fuel : Nat) (s : Text) :
    readValue? fuel (skipBlanks s) = readValue? fuel s := by
  cases fuel with
  | zero => rfl
  | succ fuel => rw [readValue?, readValue?, skipBlanks_skipBlanks]

theorem readItems?_skipBlanks (fuel : Nat) (s : Text) :
    readItems? fuel (skipBlanks s) = readItems? fuel s := by
  cases fuel with
  | zero => rfl
  | succ fuel => rw [readItems?, readItems?, readValue?_skipBlanks]

theorem readMember?_skipBlanks (fuel : Nat) (s : Text) :
    readMember? fuel (skipBlanks s) = readMember? fuel s := by
  cases fuel with
  | zero => rfl
  | succ fuel => rw [readMember?, readMember?, skipBlanks_skipBlanks]

theorem readMembers?_skipBlanks (fuel : Nat) (s : Text) :
    readMembers? fuel (skipBlanks s) = readMembers? fuel s := by
  cases fuel with
  | zero => rfl
  | succ fuel => rw [readMembers?, readMembers?, readMember?_skipBlanks]

theorem readValue?_append {blanks : Text} (h : IsBlanks blanks) (fuel : Nat) (s : Text) :
    readValue? fuel (blanks ++ s) = readValue? fuel s := by
  rw [← readValue?_skipBlanks, skipBlanks_append h, readValue?_skipBlanks]

/-! ## How values begin -/

/-- A value begins with a character that is no blank and closes nothing. -/
theorem Spells.exists_head {j : Json} {s : Text} (h : Spells j s) :
    ∃ c rest, s = c :: rest ∧ isBlankChar c = false ∧ c ≠ ']' := by
  cases h with
  | null => exact ⟨'n', "ull".toList, rfl, by decide, by decide⟩
  | bool value =>
    cases value with
    | true => exact ⟨'t', "rue".toList, rfl, by decide, by decide⟩
    | false => exact ⟨'f', "alse".toList, rfl, by decide, by decide⟩
  | number hnumber =>
    obtain ⟨c, rest, rfl, hc⟩ := hnumber.exists_head
    have hchar := hnumber.isNumberChar_of_mem c List.mem_cons_self
    refine ⟨c, rest, rfl, ?_, ?_⟩
    · rw [← Bool.not_eq_true]
      intro hblank
      rw [isNumberChar_of_isBlankChar hblank] at hchar
      exact Bool.false_ne_true hchar
    · rintro rfl
      exact absurd hchar (by decide)
  | string => exact ⟨'"', _, rfl, by decide, by decide⟩
  | emptyArray => exact ⟨'[', _, rfl, by decide, by decide⟩
  | array => exact ⟨'[', _, rfl, by decide, by decide⟩
  | emptyObject => exact ⟨'\x7b', _, rfl, by decide, by decide⟩
  | object => exact ⟨'\x7b', _, rfl, by decide, by decide⟩

/-- So do items, behind blanks. -/
theorem ItemsSpell.skipBlanks_ne {items : List Json} {s : Text} (h : ItemsSpell items s)
    (more rest : Text) : skipBlanks (s ++ more) ≠ ']' :: rest := by
  have hbegins : ∃ front c behind, s = front ++ c :: behind ∧ IsBlanks front
      ∧ isBlankChar c = false ∧ c ≠ ']' := by
    cases h with
    | last hfront hvalue hbehind =>
      obtain ⟨c, behind, rfl, hblank, hc⟩ := hvalue.exists_head
      exact ⟨_, c, _, rfl, hfront, hblank, hc⟩
    | cons hfront hvalue hbehind hrest =>
      obtain ⟨c, behind, rfl, hblank, hc⟩ := hvalue.exists_head
      exact ⟨_, c, _, rfl, hfront, hblank, hc⟩
  obtain ⟨front, c, behind, rfl, hfront, hblank, hc⟩ := hbegins
  rw [List.append_assoc, List.cons_append, skipBlanks_append_cons hfront hblank]
  exact fun heq => hc (List.cons.inj heq).1

/-- Members begin with the quote of a key, behind blanks. -/
theorem MembersSpell.skipBlanks_ne {members : List (Text × Json)} {s : Text}
    (h : MembersSpell members s) (more rest : Text) : skipBlanks (s ++ more) ≠ '\x7d' :: rest := by
  have hbegins : ∃ front behind, s = front ++ '"' :: behind ∧ IsBlanks front := by
    cases h with
    | last hmember hbehind =>
      cases hmember with
      | parts hfront hkey hgap hspace hvalue => exact ⟨_, _, List.append_assoc _ _ _, hfront⟩
    | cons hmember hbehind hrest =>
      cases hmember with
      | parts hfront hkey hgap hspace hvalue => exact ⟨_, _, List.append_assoc _ _ _, hfront⟩
  obtain ⟨front, behind, rfl, hfront⟩ := hbegins
  rw [List.append_assoc, List.cons_append, skipBlanks_append_cons hfront (by decide)]
  exact fun heq => absurd (List.cons.inj heq).1 (by decide)

/-! ## Values -/

/-- With this much fuel, whatever is written in half as many characters is read. -/
structure Reads (fuel : Nat) : Prop where
  /-- Values. -/
  value : ∀ {j : Json} {text : Text}, Spells j text → 2 * text.length ≤ fuel →
    ∀ rest, Ends rest → readValue? fuel (text ++ rest) = some (j, rest)
  /-- Items up to the bracket behind them. -/
  items : ∀ {items : List Json} {text : Text}, ItemsSpell items text → 2 * text.length < fuel →
    ∀ rest, readItems? fuel (text ++ ']' :: rest) = some (items, rest)
  /-- Members, one by one. -/
  member : ∀ {member : Text × Json} {text : Text}, MemberSpells member text → 2 * text.length ≤ fuel →
    ∀ rest, Ends rest → readMember? fuel (text ++ rest) = some (member, rest)
  /-- Members up to the brace behind them. -/
  members : ∀ {members : List (Text × Json)} {text : Text}, MembersSpell members text →
    2 * text.length < fuel → ∀ rest, readMembers? fuel (text ++ '\x7d' :: rest) = some (members, rest)

/-- A number is read to its end. -/
theorem readValue?_number {text rest : Text} (h : NumberSpells text) (hrest : Ends rest)
    (fuel : Nat) : readValue? (fuel + 1) (text ++ rest) = some (.number text, rest) := by
  have htake : (text ++ rest).takeWhile isNumberChar = text :=
    Text.takeWhile_append_stop h.isNumberChar_of_mem hrest
  have hdrop : (text ++ rest).dropWhile isNumberChar = rest :=
    Text.dropWhile_append_stop h.isNumberChar_of_mem hrest
  obtain ⟨c, s, htext, hblank, -⟩ := (Spells.number h).exists_head
  have hchar := h.isNumberChar_of_mem c (htext ▸ List.mem_cons_self)
  have hskip : skipBlanks (text ++ rest) = c :: (s ++ rest) := by
    rw [htext, List.cons_append, skipBlanks_cons hblank]
  have hne : ∀ {d : Char} {more : Text}, isNumberChar d = false → c :: (s ++ rest) ≠ d :: more := by
    intro d more hd heq
    rw [(List.cons.inj heq).1, hd] at hchar
    exact Bool.false_ne_true hchar
  rw [readValue?, hskip]
  -- No other value begins with a character of a number.
  split
  · next heq => exact nomatch heq
  · next heq => exact absurd heq (hne (by decide))
  · next heq => exact absurd heq (hne (by decide))
  · next heq => exact absurd heq (hne (by decide))
  · next heq => exact absurd heq (hne (by decide))
  · next heq => exact absurd heq (hne (by decide))
  · next heq => exact absurd heq (hne (by decide))
  · rw [← List.cons_append, ← htext, htake, hdrop]
    exact if_pos (isNumber_spells h)

/-! The first character tells which kind of value is read. -/

theorem readValue?_quote (fuel : Nat) (s : Text) : readValue? (fuel + 1) ('"' :: s)
    = (readString? [] s).map fun read => (.string read.1, read.2) := by
  rw [readValue?, skipBlanks_cons (by decide)]
  rfl

theorem readValue?_bracket (fuel : Nat) (s : Text) : readValue? (fuel + 1) ('[' :: s)
    = match skipBlanks s with
      | ']' :: rest => some (.array [], rest)
      | rest => (readItems? fuel rest).map fun (read : List Json × Text) =>
        (.array read.1, read.2) := by
  rw [readValue?, skipBlanks_cons (by decide)]
  rfl

theorem readValue?_brace (fuel : Nat) (s : Text) : readValue? (fuel + 1) ('\x7b' :: s)
    = match skipBlanks s with
      | '\x7d' :: rest => some (.object [], rest)
      | rest => (readMembers? fuel rest).map fun (read : List (Text × Json) × Text) =>
        (.object read.1, read.2) := by
  rw [readValue?, skipBlanks_cons (by decide)]
  rfl

/-- A word is read as its value. -/
theorem readValue?_word (fuel : Nat) (rest : Text) :
    readValue? (fuel + 1) ("null".toList ++ rest) = some (.null, rest)
    ∧ readValue? (fuel + 1) ("true".toList ++ rest) = some (.bool true, rest)
    ∧ readValue? (fuel + 1) ("false".toList ++ rest) = some (.bool false, rest) := by
  have hnull : skipBlanks ("null".toList ++ rest) = 'n' :: ("ull".toList ++ rest) := rfl
  have htrue : skipBlanks ("true".toList ++ rest) = 't' :: ("rue".toList ++ rest) := rfl
  have hfalse : skipBlanks ("false".toList ++ rest) = 'f' :: ("alse".toList ++ rest) := rfl
  refine ⟨?_, ?_, ?_⟩
  · rw [readValue?, hnull]
    show (Text.after? "ull".toList ("ull".toList ++ rest)).map _ = _
    rw [Text.after?_append]
    rfl
  · rw [readValue?, htrue]
    show (Text.after? "rue".toList ("rue".toList ++ rest)).map _ = _
    rw [Text.after?_append]
    rfl
  · rw [readValue?, hfalse]
    show (Text.after? "alse".toList ("alse".toList ++ rest)).map _ = _
    rw [Text.after?_append]
    rfl

/-- What stands between a mark and the one that closes it. -/
theorem append_close (mark close : Char) (body rest : Text) :
    mark :: body ++ [close] ++ rest = mark :: (body ++ close :: rest) := by
  rw [List.cons_append, List.cons_append, ← List.append_cons]

theorem length_between {mark close : Char} {body : Text} {fuel : Nat}
    (h : 2 * (mark :: body ++ [close]).length ≤ fuel + 1) : 2 * body.length < fuel := by
  simp only [List.length_append, List.length_cons, List.length_nil] at h
  omega

section

variable {fuel : Nat} (h : Reads fuel)
include h

/-- One step of reading a value. -/
theorem readValue?_spells {j : Json} {text : Text} (hj : Spells j text)
    (hfuel : 2 * text.length ≤ fuel + 1) (rest : Text) (hrest : Ends rest) :
    readValue? (fuel + 1) (text ++ rest) = some (j, rest) := by
  obtain ⟨hnull, htrue, hfalse⟩ := readValue?_word fuel rest
  cases hj with
  | null => exact hnull
  | bool value =>
    cases value with
    | true => exact htrue
    | false => exact hfalse
  | number hnumber => exact readValue?_number hnumber hrest fuel
  | @string s body hbody =>
    rw [append_close, readValue?_quote, readString?_spells hbody]
    rfl
  | @emptyArray blanks hblanks =>
    rw [append_close, readValue?_bracket, skipBlanks_append_cons hblanks (by decide)]
    rfl
  | @array items body hbody =>
    rw [append_close, readValue?_bracket]
    split
    · next heq => exact absurd heq (hbody.skipBlanks_ne _ _)
    · rw [readItems?_skipBlanks, h.items hbody (length_between hfuel)]
      rfl
  | @emptyObject blanks hblanks =>
    rw [append_close, readValue?_brace, skipBlanks_append_cons hblanks (by decide)]
    rfl
  | @object members body hbody =>
    rw [append_close, readValue?_brace]
    split
    · next heq => exact absurd heq (hbody.skipBlanks_ne _ _)
    · rw [readMembers?_skipBlanks, h.members hbody (length_between hfuel)]
      rfl

/-- One step of reading items. -/
theorem readItems?_spells {items : List Json} {text : Text} (hitems : ItemsSpell items text)
    (hfuel : 2 * text.length < fuel + 1) (rest : Text) :
    readItems? (fuel + 1) (text ++ ']' :: rest) = some (items, rest) := by
  cases hitems with
  | @last item front text behind hfront hitem hbehind =>
    simp only [List.length_append] at hfuel
    have hread := h.value hitem (by omega) (behind ++ ']' :: rest)
      (ends_append hbehind (by decide) rest)
    rw [List.append_assoc, List.append_assoc, readItems?, readValue?_append hfront, hread]
    dsimp only
    rw [skipBlanks_append_cons hbehind (by decide)]
    rfl
  | @cons item items front text behind more hfront hitem hbehind hmore =>
    simp only [List.length_append, List.length_cons] at hfuel
    have hread := h.value hitem (by omega) (behind ++ ',' :: (more ++ ']' :: rest))
      (ends_append hbehind (by decide) _)
    rw [List.append_assoc, List.append_assoc, List.append_assoc, List.cons_append, readItems?,
      readValue?_append hfront, hread]
    dsimp only
    rw [skipBlanks_append_cons hbehind (by decide)]
    show (readItems? fuel (more ++ ']' :: rest)).map _ = _
    rw [h.items hmore (by omega)]
    rfl

/-- One step of reading a member. -/
theorem readMember?_spells {member : Text × Json} {text : Text} (hmember : MemberSpells member text)
    (hfuel : 2 * text.length ≤ fuel + 1) (rest : Text) (hrest : Ends rest) :
    readMember? (fuel + 1) (text ++ rest) = some (member, rest) := by
  obtain @⟨key, body, text, front, gap, space, value, hfront, hkey, hgap, hspace, hvalue⟩ := hmember
  simp only [List.length_append, List.length_cons] at hfuel
  have hread := h.value hvalue (by omega) rest hrest
  have hassoc : front ++ '"' :: (body ++ '"' :: (gap ++ ':' :: (space ++ text))) ++ rest
      = front ++ '"' :: (body ++ '"' :: (gap ++ ':' :: (space ++ (text ++ rest)))) := by
    simp only [List.append_assoc, List.cons_append]
  have hmark : ∀ (c : Char) (s : Text), Text.after? [c] (c :: s) = some s := fun c s =>
    Text.after?_append [c] s
  rw [hassoc, readMember?, skipBlanks_append_cons hfront (by decide), hmark]
  dsimp only
  rw [readString?_spells hkey]
  dsimp only
  rw [skipBlanks_append_cons hgap (by decide), hmark]
  dsimp only
  rw [readValue?_append hspace, hread]
  rfl

/-- One step of reading members. -/
theorem readMembers?_spells {members : List (Text × Json)} {text : Text}
    (hmembers : MembersSpell members text) (hfuel : 2 * text.length < fuel + 1) (rest : Text) :
    readMembers? (fuel + 1) (text ++ '\x7d' :: rest) = some (members, rest) := by
  cases hmembers with
  | @last member text behind hmember hbehind =>
    simp only [List.length_append] at hfuel
    have hread := h.member hmember (by omega) (behind ++ '\x7d' :: rest)
      (ends_append hbehind (by decide) rest)
    rw [List.append_assoc, readMembers?, hread]
    dsimp only
    rw [skipBlanks_append_cons hbehind (by decide)]
    rfl
  | @cons member members text behind more hmember hbehind hmore =>
    simp only [List.length_append, List.length_cons] at hfuel
    have hread := h.member hmember (by omega) (behind ++ ',' :: (more ++ '\x7d' :: rest))
      (ends_append hbehind (by decide) _)
    rw [List.append_assoc, List.append_assoc, List.cons_append, readMembers?, hread]
    dsimp only
    rw [skipBlanks_append_cons hbehind (by decide)]
    show (readMembers? fuel (more ++ '\x7d' :: rest)).map _ = _
    rw [h.members hmore (by omega)]
    rfl

end

/-- **With enough fuel**, whatever the grammar allows is read. -/
theorem reads (fuel : Nat) : Reads fuel := by
  induction fuel with
  | zero =>
    -- Nothing is written in no characters.
    refine ⟨?_, fun _ hfuel => absurd hfuel (Nat.not_lt_zero _), ?_,
      fun _ hfuel => absurd hfuel (Nat.not_lt_zero _)⟩
    · intro j text hj hfuel
      obtain ⟨c, s, rfl, -⟩ := hj.exists_head
      simp at hfuel
    · intro member text hmember hfuel
      cases hmember
      simp at hfuel
  | succ fuel ih =>
    exact ⟨readValue?_spells ih, readItems?_spells ih, readMember?_spells ih, readMembers?_spells ih⟩

/-! ## Texts -/

/-- **A text that denotes a value** is read as that value. -/
theorem read?_of_isText {j : Json} {s : Text} (h : IsText j s) : read? s = some j := by
  obtain @⟨front, text, behind, hfront, hj, hbehind⟩ := h
  have hlength : 2 * text.length ≤ 2 * (front ++ (text ++ behind)).length + 2 := by
    simp only [List.length_append]
    omega
  have hread := (reads _).value hj hlength behind (ends_of_isBlanks hbehind)
  have hend : skipBlanks behind = [] := by
    rw [← List.append_nil behind, skipBlanks_append hbehind]
    rfl
  unfold read?
  rw [readValue?_append hfront, hread]
  dsimp only
  rw [hend, if_pos rfl]

/-- So a text denotes at most one value. -/
theorem IsText.unique {j j' : Json} {s : Text} (h : IsText j s) (h' : IsText j' s) : j = j' :=
  Option.some.inj ((read?_of_isText h).symm.trans (read?_of_isText h'))

end Json

end Playground
