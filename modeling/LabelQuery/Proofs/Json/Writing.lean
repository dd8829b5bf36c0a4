import LabelQuery.Json.Escaping
import LabelQuery.Proofs.Json.Entries
import Mathlib.Data.List.Forall2

/-!
# What is written denotes what was meant

A string that is written with some escaping denotes the string (`Writes.denotes`): each character is
spelled by what is written for it, be it one escape, two for the halves of a surrogate pair, or the
character itself. Entries that are written one after another with commas between them are entries
of the grammar (`entriesDenote_of_forall₂`).
-/

namespace LabelQuery.Json

/-! ## Strings -/

namespace Escaping

variable (escaping : Escaping)

/-- A number below sixteen is read back from its hexadecimal digit, in either case of the
letters. -/
theorem hexDigit?_hexDigit {n : Nat} (small : n < 16) :
    hexDigit? (escaping.hexDigit n) = some n := by
  obtain ⟨everyUnit, capital⟩ := escaping
  revert n
  cases everyUnit <;> cases capital <;> decide

/-- The digits that are written for a 16-bit unit spell it, and there are four of them. -/
theorem exists_hexSpells (unit : Nat) (small : unit < 0x10000) :
    ∃ digits, HexSpells digits unit ∧ escaping.writeUnit unit = '\\' :: 'u' :: digits := by
  have digit (n : Nat) : hexDigit? (escaping.hexDigit (n % 16)) = some (n % 16) :=
    escaping.hexDigit?_hexDigit (Nat.mod_lt n (by decide))
  have spells := HexSpells.intro (digit (unit / 0x1000)) (digit (unit / 0x100))
    (digit (unit / 0x10)) (digit unit)
  have whole : ((unit / 0x1000 % 16 * 16 + unit / 0x100 % 16) * 16 + unit / 0x10 % 16) * 16 +
      unit % 16 = unit := by omega
  rw [whole] at spells
  exact ⟨_, spells, rfl⟩

/-- A character is spelled by its UTF-16 units, each as an escape: one unit, or the two halves of a
surrogate pair. -/
theorem charSpells_units (c : Char) :
    CharSpells ((unitsOf c).flatMap escaping.writeUnit) c := by
  unfold unitsOf
  split
  · next small =>
    obtain ⟨digits, spells, written⟩ := escaping.exists_hexSpells _ small
    rw [List.flatMap_singleton, written]
    exact .unit spells
  · next large =>
    have bound : c.toNat < 0x110000 := by
      rcases c.valid with low | ⟨_, high⟩
      · exact Nat.lt_trans low (by decide)
      · exact high
    obtain ⟨first, high, written⟩ := escaping.exists_hexSpells
      (0xD800 + (c.toNat - 0x10000) / 0x400) (by omega)
    obtain ⟨second, low, written'⟩ := escaping.exists_hexSpells
      (0xDC00 + (c.toNat - 0x10000) % 0x400) (by omega)
    have pair := CharSpells.pair high low (by simp [isHighSurrogate]; omega)
      (by simp [isLowSurrogate]; omega)
    have same : surrogatePair (0xD800 + (c.toNat - 0x10000) / 0x400)
        (0xDC00 + (c.toNat - 0x10000) % 0x400) = c := by
      have sum : 0x10000 + (0xD800 + (c.toNat - 0x10000) / 0x400 - 0xD800) * 0x400 +
          (0xDC00 + (c.toNat - 0x10000) % 0x400 - 0xDC00) = c.toNat := by omega
      rw [surrogatePair, sum, Char.ofNat_toNat]
    rw [same] at pair
    rw [List.flatMap_cons, List.flatMap_singleton, written, written']
    exact pair

/-- The least way to write a character spells it. Quotes, backslashes and control characters are
escaped, by a letter where there is one, and every other character stands for itself. -/
theorem charSpells_writeLeast (c : Char) : CharSpells (escaping.writeLeast c) c := by
  have letter {l d : Char} (escapes : letterEscape? l = some d) (same : c = d) :
      CharSpells ['\\', l] c := .letter (same ▸ escapes)
  unfold writeLeast
  split
  · next same => exact letter rfl same
  · next notQuote =>
    split
    · next same => exact letter rfl same
    · next notBackslash =>
      -- the five control characters with a letter of their own
      iterate 5
        split
        · next same => exact letter rfl same
      split
      · next control =>
        have small : c.toNat < 32 := control
        obtain ⟨digits, spells, written⟩ := escaping.exists_hexSpells c.toNat (by omega)
        rw [written]
        exact .unit spells
      · next printable => exact .plain (Nat.le_of_not_lt printable) notQuote notBackslash

/-- Both ways to write a character, the least one and that by units, spell it. -/
theorem charSpells_writeChar (c : Char) : CharSpells (escaping.writeChar c) c := by
  unfold writeChar
  split
  · exact escaping.charSpells_units c
  · exact escaping.charSpells_writeLeast c

/-- What is written for characters, one after another, spells them in order. -/
theorem charsSpell_flatMap (cs : List Char) : CharsSpell (cs.flatMap escaping.writeChar) cs := by
  induction cs with
  | nil => exact .nil
  | cons c cs ih => exact .cons (escaping.charSpells_writeChar c) ih

end Escaping

/-- **A string that is written denotes the string**, however its characters are escaped. Nothing is
asked of the string: control characters, quotes and characters beyond 16 bits are all written in
some way. -/
theorem Writes.denotes {s : String} {cs : List Char} (writes : Writes s cs) :
    StringDenotes cs s := by
  obtain ⟨escaping, rfl⟩ := writes
  exact ⟨_, escaping.charsSpell_flatMap s.toList, rfl⟩

/-! ## Values -/

/-- What denotes something denotes it with blanks around it too, namely none. -/
theorem Padded.of_denote {α : Type} {Denote : List Char → α → Prop} {core : List Char} {a : α}
    (denotes : Denote core a) : Padded Denote core a :=
  ⟨[], core, [], allBlank_nil, allBlank_nil, (List.append_nil core).symm, denotes⟩

/-- A scalar denotes its value at every level, as it holds nothing that could nest. -/
theorem Denotes.of_scalar {range : NumberRange} {levels : Nat} {cs : List Char} {v : Value}
    (scalar : ScalarDenotes range cs v) : Denotes range levels cs v := by
  cases levels with
  | zero => exact scalar
  | succ levels => exact .inl scalar

/-- Entries with commas between them, and blanks around each, are the text of a list of entries. By
induction on the entries; a comma is put in from the second one on. -/
theorem entriesDenote_of_padded {α : Type} {Denote : List Char → α → Prop}
    {texts : List (List Char)} {as : List α} (all : List.Forall₂ (Padded Denote) texts as) :
    EntriesDenote Denote ([','].intercalate texts) as := by
  induction all with
  | nil => exact .nil allBlank_nil
  | @cons text a texts as padded tail ih =>
    cases tail with
    | nil =>
      rw [List.intercalate_singleton]
      exact entriesDenote_singleton_iff.mpr padded
    | cons _ _ =>
      rw [List.intercalate_cons_cons, List.append_assoc]
      exact entriesDenote_cons_cons_iff.mpr ⟨text, _, padded, ih, rfl⟩

/-- Entries with nothing but commas between them are the text of a list of entries. -/
theorem entriesDenote_of_forall₂ {α : Type} {Denote : List Char → α → Prop}
    {texts : List (List Char)} {as : List α} (all : List.Forall₂ Denote texts as) :
    EntriesDenote Denote ([','].intercalate texts) as :=
  entriesDenote_of_padded (all.imp fun _ _ => Padded.of_denote)

end LabelQuery.Json
