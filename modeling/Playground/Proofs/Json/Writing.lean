/-
# What is written follows the grammar

A value in compact form is one of the ways in which the grammar writes it, so it is read back.  A number
is written by its text, which must be a number.

* `Json.charSpells_escape` : a character is escaped where it must be.
* `Json.spells_write` : what is written follows the grammar.
* `Json.read?_write` : what is written is read back.
-/
import Playground.Proofs.Json.Reading

namespace Playground

namespace Json

/-! ## Strings -/

theorem digitIn_digitChar {n : Nat} (h : n < 16) : Text.digitIn 16 (Nat.digitChar n) = some n := by
  have hall : ∀ n < 16, Text.digitIn 16 (Nat.digitChar n) = some n := by decide
  exact hall n h

/-- A control character is written by its unit. -/
theorem unitSpells_control {c : Char} (h : c < ' ') : UnitSpells c.toNat
    ['0', '0', Nat.digitChar (c.toNat / 16), Nat.digitChar (c.toNat % 16)] := by
  have hlt : c.toNat < 32 := h
  have hzero : Text.digitIn 16 '0' = some 0 := by decide
  have hspells := UnitSpells.digits hzero hzero
    (digitIn_digitChar (n := c.toNat / 16) (by omega)) (digitIn_digitChar (n := c.toNat % 16) (by omega))
  have hvalue : 0 * 0x1000 + 0 * 0x100 + c.toNat / 16 * 0x10 + c.toNat % 16 = c.toNat := by omega
  rw [hvalue] at hspells
  exact hspells

/-- The letters that are written are letters of the grammar. -/
theorem mem_letters {entry : Char × Char} (h : entry ∈ letterEscapes) : entry ∈ letters := by
  have hall : (letterEscapes.all fun entry => decide (entry ∈ letters)) = true := by decide
  exact of_decide_eq_true (List.all_eq_true.1 hall entry h)

/-- **A character is escaped** where it must be. -/
theorem charSpells_escape (c : Char) : CharSpells c (escape c) := by
  unfold escape
  split
  · next letter hletter =>
    obtain ⟨before, after, hsplit, -⟩ := List.lookup_eq_some_iff.1 hletter
    refine .letter (mem_letters ?_)
    rw [hsplit]
    exact List.mem_append_right _ List.mem_cons_self
  · next hnone =>
    split
    · next hlow => exact .unit (unitSpells_control hlow)
    · next hlow =>
      refine .plain hlow ?_ ?_
      · rintro rfl
        exact absurd hnone (by decide)
      · rintro rfl
        exact absurd hnone (by decide)

theorem stringSpells_flatMap_escape (s : Text) : StringSpells s (s.flatMap escape) := by
  induction s with
  | nil => exact .nil
  | cons c s ih =>
    rw [List.flatMap_cons]
    exact .cons (charSpells_escape c) ih

/-! ## Values -/

mutual

/-- The numbers in a value are numbers by their texts. -/
def IsWellFormed : Json → Prop
  | .null => True
  | .bool _ => True
  | .number text => NumberSpells text
  | .string _ => True
  | .array items => ItemsWellFormed items
  | .object members => MembersWellFormed members

/-- So are the numbers in items. -/
def ItemsWellFormed : List Json → Prop
  | [] => True
  | item :: items => IsWellFormed item ∧ ItemsWellFormed items

/-- So are the numbers in members. -/
def MembersWellFormed : List (Text × Json) → Prop
  | [] => True
  | (_, value) :: members => IsWellFormed value ∧ MembersWellFormed members

end

/-- A member is written as its key, a colon and its value. -/
theorem memberSpells_write (key : Text) {value : Json} {text : Text} (h : Spells value text) :
    MemberSpells (key, value) (writeString key ++ ':' :: text) := by
  have hmember := MemberSpells.parts isBlanks_nil (stringSpells_flatMap_escape key) isBlanks_nil
    isBlanks_nil h
  have hkey : writeString key ++ ':' :: text = '"' :: (key.flatMap escape ++ '"' :: ':' :: text) := by
    unfold writeString
    rw [List.append_assoc]
    rfl
  rw [hkey]
  exact hmember

mutual

/-- **What is written** follows the grammar. -/
theorem spells_write : ∀ j : Json, j.IsWellFormed → Spells j j.write
  | .null, _ => .null
  | .bool value, _ => .bool value
  | .number _, h => .number h
  | .string s, _ => .string (stringSpells_flatMap_escape s)
  | .array [], _ => .emptyArray isBlanks_nil
  | .array (item :: items), h =>
    .array (itemsSpell_writeItems (item :: items) (List.cons_ne_nil item items) h)
  | .object [], _ => .emptyObject isBlanks_nil
  | .object (member :: members), h =>
    .object (membersSpell_writeMembers (member :: members) (List.cons_ne_nil member members) h)

/-- So do items, with commas between them. -/
theorem itemsSpell_writeItems : ∀ items : List Json, items ≠ [] → ItemsWellFormed items →
    ItemsSpell items (writeItems items)
  | [], hne, _ => absurd rfl hne
  | [item], _, h => by
    have hitem := ItemsSpell.last isBlanks_nil (spells_write item h.1) isBlanks_nil
    rw [List.nil_append, List.append_nil] at hitem
    exact hitem
  | item :: item' :: items, _, h =>
    .cons isBlanks_nil (spells_write item h.1) isBlanks_nil
      (itemsSpell_writeItems (item' :: items) (List.cons_ne_nil item' items) h.2)

/-- So do members, each with a colon behind its key. -/
theorem membersSpell_writeMembers : ∀ members : List (Text × Json), members ≠ [] →
    MembersWellFormed members → MembersSpell members (writeMembers members)
  | [], hne, _ => absurd rfl hne
  | [(key, value)], _, h => by
    have hmember := memberSpells_write key (spells_write value h.1)
    have hmembers := MembersSpell.last hmember isBlanks_nil
    rw [List.append_nil] at hmembers
    exact hmembers
  | (key, value) :: member :: members, _, h => by
    have hmember := memberSpells_write key (spells_write value h.1)
    have hmembers := MembersSpell.cons hmember isBlanks_nil
      (membersSpell_writeMembers (member :: members) (List.cons_ne_nil member members) h.2)
    rw [List.append_assoc] at hmembers
    exact hmembers

end

/-- What is written is the text of its value. -/
theorem isText_write {j : Json} (h : j.IsWellFormed) : IsText j j.write := by
  have htext := IsText.parts isBlanks_nil (spells_write j h) isBlanks_nil
  rw [List.nil_append, List.append_nil] at htext
  exact htext

/-- **What is written is read back.** -/
theorem read?_write {j : Json} (h : j.IsWellFormed) : read? j.write = some j :=
  read?_of_isText (isText_write h)

end Json

end Playground
