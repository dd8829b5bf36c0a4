import LabelQuery.Proofs.Json.Denotation
import Mathlib.Data.List.Induction

/-!
# Where a value ends

Reading stops behind the value, so what stands further on has no part in it. Of all values only
numbers can go on: any other one is read in the same way, whatever is put behind the text
(`gives_value_append`). And whether a value is a number shows at its first character, which a text
shares with everything that is cut off its front. **So no value but a number has a part that is read
as a value** (`allBlank_of_gives_front`).

A fault is marked by what is left of the text and told as line and column. The two are joined here:
`inText_behindByte` says where a fault in the middle of a text is.
-/

namespace LabelQuery.Json

open Text (byteLength)

/-! ## Going on behind a value -/

section Value

variable {range : NumberRange} {levels : Nat} {cs front more rest : List Char} {v w : Value}

/-- A value begins with a solid character, which tells numbers from all others: a minus sign or a
digit begins a number and nothing else. -/
theorem begins_of_valueGiven {item? : Option (Reader Value)}
    (given : ValueGiven range item? cs v rest) :
    ∃ c more, cs = c :: more ∧ isBlank c = false ∧ (v = .number ↔ c = '-' ∨ c.isDigit = true) := by
  cases given with
  | number numeric _ =>
    refine ⟨_, _, rfl, ?_, iff_of_true rfl numeric⟩
    rcases numeric with rfl | digit
    · rfl
    · exact isBlank_of_isDigit digit
  | null | true | false | string _ | array _ _ | object _ _ =>
    exact ⟨_, _, rfl, rfl, iff_of_false nofun (by decide)⟩

/-- The first solid character of a text that a value is read from tells whether the value is a
number. A text and its front share that character. -/
theorem begins_of_gives_value (given : Gives (value range levels cs) v rest) :
    ∃ c more, cs.dropWhile isBlank = c :: more ∧ (v = .number ↔ c = '-' ∨ c.isDigit = true) := by
  obtain ⟨item?, same⟩ : ∃ item?, value range levels = valueWith range item? := by
    cases levels with
    | zero => exact ⟨none, rfl⟩
    | succ levels => exact ⟨some (value range levels), rfl⟩
  rw [same] at given
  obtain ⟨gap, core, blank, inner, rfl⟩ := gives_valueWith_iff.mp given
  obtain ⟨c, more, rfl, solid, known⟩ := begins_of_valueGiven inner
  exact ⟨c, more, congrArg Taken.rest (blanks_of_solid blank solid), known⟩

/-- What is read of a text and of its front are both numbers, or neither is, because both readings
begin at the same solid character. -/
theorem eq_number_iff_of_gives_front {left : List Char}
    (whole : Gives (value range levels (front ++ more)) v rest)
    (given : Gives (value range levels front) w left) : v = .number ↔ w = .number := by
  obtain ⟨c, tail, first, known⟩ := begins_of_gives_value given
  obtain ⟨d, tail', first', known'⟩ := begins_of_gives_value whole
  rw [List.dropWhile_append, first, List.isEmpty_cons, if_neg Bool.false_ne_true,
    List.cons_append] at first'
  obtain ⟨rfl, -⟩ := List.cons.inj first'
  rw [known, known']

/-- **A value that is no number is read in the same way, whatever is put behind the text.** -/
theorem gives_value_append (other : v ≠ .number) (given : Gives (value range levels front) v rest) :
    Gives (value range levels (front ++ more)) v (rest ++ more) := by
  obtain ⟨core, rfl, denotes⟩ := (reads_value levels).sound given
  rw [List.append_assoc]
  exact (reads_value levels).complete denotes fun number => absurd number other

/-- **If a front of a text that denotes no number is read as a value, it is nearly all of the
text**: what it leaves and what was cut off are blank. -/
theorem allBlank_of_gives_front (whole : Padded (Denotes range levels) (front ++ more) v)
    (other : v ≠ .number) (given : Gives (value range levels front) w rest) :
    AllBlank (rest ++ more) := by
  obtain ⟨left, given', clean⟩ := value_iff_padded.mpr whole
  have other' : w ≠ .number := fun number =>
    other ((eq_number_iff_of_gives_front given' given).mpr number)
  -- what the front leaves is left of the whole text as well, with what was cut off behind it
  obtain ⟨-, rfl⟩ := (gives_value_append other' given).unique given'
  exact trailing?_eq_none_iff.mp clean

end Value

/-! ## Places -/

namespace Position

variable {cs : List Char} {c : Char}

theorem behind_nil : behind [] = first := rfl

/-- Going over one character more at the end: a newline begins a line, and any other character adds
its bytes to the column. -/
theorem behind_concat : behind (cs ++ [c]) =
    if c = '\n' then ⟨(behind cs).line + 1, 0⟩
    else ⟨(behind cs).line, (behind cs).column + c.utf8Size⟩ := by
  by_cases newline : c = '\n'
  · subst newline
    simp [behind, List.count_append, Nat.add_assoc]
  · simp [behind, newline, List.count_append, Nat.add_comm]

/-- Going over a character whole, when the bytes to be gone over reach to its end: a newline leads
to the next line, any other character along the line. -/
theorem advance_cons (position : Position) (bytes : Nat) :
    position.advance (c.utf8Size + bytes) (c :: cs) =
      (if c = '\n' then ⟨position.line + 1, 0⟩
        else ⟨position.line, position.column + c.utf8Size⟩ : Position).advance bytes cs := by
  have positive := c.utf8Size_pos
  rw [advance, if_neg (by omega), if_neg (by omega), Nat.add_sub_cancel_left]
  split <;> rfl

/-- To go on from behind a part of a text is to go over the part first. By induction on the part
from its end, where `behind_concat` splits off a character. -/
theorem first_advance_append (front rest : List Char) (bytes : Nat) :
    first.advance (byteLength front + bytes) (front ++ rest) =
      (behind front).advance bytes rest := by
  induction front using List.reverseRecOn generalizing rest bytes with
  | nil => rw [List.nil_append, Text.byteLength_nil, Nat.zero_add, behind_nil]
  | append_singleton front c ih =>
    rw [Text.byteLength_append, Nat.add_assoc, List.append_assoc, List.singleton_append, ih,
      Text.byteLength_cons, Text.byteLength_nil, Nat.add_zero, advance_cons, behind_concat]

/-- The place one byte further, which may lie inside a character: a character of more bytes is not
gone over, and yet the column counts one more. -/
theorem advance_one (position : Position) (other : c ≠ '\n') :
    position.advance 1 (c :: cs) = ⟨position.line, position.column + 1⟩ := by
  have positive := c.utf8Size_pos
  rw [advance, if_neg one_ne_zero]
  split
  · rfl
  · next wide =>
    -- here the character has one byte, and nothing is left to go over behind it
    have narrow : c.utf8Size = 1 := by omega
    rw [narrow, Nat.sub_self]
    cases cs with
    | nil => rfl
    | cons d ds => rw [advance, if_pos rfl]

end Position

/-- **A fault one byte behind a place is one column behind the lines and bytes before the place.** A
reader marks faults by what is left; this says where they are in the whole text. -/
theorem Fault.inText_behindByte (cause : Cause) {front rest : List Char} {c : Char}
    (other : c ≠ '\n') : (Fault.behindByte cause (c :: rest)).inText (front ++ c :: rest) =
      ⟨cause, (Position.behind front).line, (Position.behind front).column + 1⟩ := by
  have positive := c.utf8Size_pos
  have bytes : byteLength (front ++ c :: rest) - (byteLength (c :: rest) - 1) =
      byteLength front + 1 := by
    rw [Text.byteLength_append, Text.byteLength_cons]
    omega
  rw [behindByte, inText, bytes, Position.first_advance_append, Position.advance_one _ other]

end LabelQuery.Json
