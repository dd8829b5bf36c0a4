/-!
# Writing JSON strings

A string has many spellings in JSON; an `Escaping` picks one. The least escapes only what cannot
stand for itself, with a letter where there is one. The greatest escapes every 16-bit unit of every
character, so that what is written is ASCII whatever the string.
-/

namespace LabelQuery.Json

/-- A way to escape the characters of a string. -/
structure Escaping where
  /-- Whether every character is escaped, unit by unit, or only those that cannot stand for
  themselves. -/
  everyUnit : Bool
  /-- Whether hexadecimal digits are written with capital letters. -/
  capital : Bool
deriving DecidableEq, Repr

/-- The 16-bit units of a character in UTF-16. -/
def unitsOf (c : Char) : List Nat :=
  if c.toNat < 0x10000 then [c.toNat]
  else [0xD800 + (c.toNat - 0x10000) / 0x400, 0xDC00 + (c.toNat - 0x10000) % 0x400]

namespace Escaping

/-- A hexadecimal digit. -/
def hexDigit (escaping : Escaping) (n : Nat) : Char :=
  if n < 10 then Char.ofNat ('0'.toNat + n)
  else Char.ofNat ((if escaping.capital then 'A' else 'a').toNat + (n - 10))

/-- The escape of a 16-bit unit. -/
def writeUnit (escaping : Escaping) (unit : Nat) : List Char :=
  ['\\', 'u', escaping.hexDigit (unit / 0x1000 % 16), escaping.hexDigit (unit / 0x100 % 16),
    escaping.hexDigit (unit / 0x10 % 16), escaping.hexDigit (unit % 16)]

/-- A character, escaped only if it cannot stand for itself. -/
def writeLeast (escaping : Escaping) (c : Char) : List Char :=
  if c = '"' then ['\\', '"']
  else if c = '\\' then ['\\', '\\']
  else if c = '\u0008' then ['\\', 'b']
  else if c = '\u000C' then ['\\', 'f']
  else if c = '\n' then ['\\', 'n']
  else if c = '\r' then ['\\', 'r']
  else if c = '\t' then ['\\', 't']
  else if c < ' ' then escaping.writeUnit c.toNat
  else [c]

/-- A character. -/
def writeChar (escaping : Escaping) (c : Char) : List Char :=
  if escaping.everyUnit then (unitsOf c).flatMap escaping.writeUnit else escaping.writeLeast c

/-- A string, with its quotes. -/
def writeString (escaping : Escaping) (s : String) : List Char :=
  '"' :: s.toList.flatMap escaping.writeChar ++ ['"']

example : writeString ⟨true, false⟩ "é😀" = "\"\\u00e9\\ud83d\\ude00\"".toList := by decide

example : writeString ⟨false, true⟩ "a\n\u001F/" = "\"a\\n\\u001F/\"".toList := by decide

end Escaping

/-- Whether the characters are the string, written with some escaping. -/
def Writes (s : String) (cs : List Char) : Prop :=
  ∃ escaping : Escaping, cs = escaping.writeString s

end LabelQuery.Json
