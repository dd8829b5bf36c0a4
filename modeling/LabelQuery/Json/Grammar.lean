import LabelQuery.Json.Number
import LabelQuery.Json.Quoted

/-!
# The grammar of JSON texts

Which texts denote which values, said without reading any of them. `Json.Denotes range levels cs v`
holds if the characters `cs`, from the first to the last and with no blanks around them, denote the
value `v` with arrays and objects nested at most `levels` deep. A text may denote one value only,
but a value is denoted by many texts: there may be blanks between the parts, and a character of a
string may be escaped or not.

The relation is built like the values are: what denotes the items of an array is a parameter of
what denotes arrays, and the level says which relation is put there. Which numbers are in range is
for a `NumberRange` to say, the same one that the readers are given.
-/

namespace LabelQuery.Json

open Text (byteLength)

/-- Whether all of the characters are blanks. -/
def AllBlank (cs : List Char) : Prop :=
  ∀ c ∈ cs, isBlank c = true

/-- Whether `cs` is something that denotes `a`, with blanks around it. -/
def Padded {α : Type} (Denote : List Char → α → Prop) (cs : List Char) (a : α) : Prop :=
  ∃ before core after, AllBlank before ∧ AllBlank after ∧ cs = before ++ core ++ after ∧
    Denote core a

/-! ## Strings -/

/-- The number that four hexadecimal digits spell, in either case of the letters. -/
inductive HexSpells : List Char → Nat → Prop where
  | intro {a b c d : Char} {i j k l : Nat} :
    hexDigit? a = some i → hexDigit? b = some j → hexDigit? c = some k → hexDigit? d = some l →
    HexSpells [a, b, c, d] (((i * 16 + j) * 16 + k) * 16 + l)

/-- Which characters of a text stand for one character of a string. -/
inductive CharSpells : List Char → Char → Prop where
  /-- A character stands for itself, unless it is a control character, a quote or a backslash. -/
  | plain {c : Char} : ' ' ≤ c → c ≠ '"' → c ≠ '\\' → CharSpells [c] c
  /-- A backslash and a letter. -/
  | letter {letter c : Char} : letterEscape? letter = some c → CharSpells ['\\', letter] c
  /-- A character that is one 16-bit unit. -/
  | unit {digits : List Char} {c : Char} : HexSpells digits c.toNat →
    CharSpells ('\\' :: 'u' :: digits) c
  /-- A character that takes a surrogate pair. -/
  | pair {first second : List Char} {high low : Nat} : HexSpells first high →
    HexSpells second low → isHighSurrogate high = true → isLowSurrogate low = true →
    CharSpells ('\\' :: 'u' :: first ++ '\\' :: 'u' :: second) (surrogatePair high low)

/-- Which characters of a text stand for the characters of a string, in order. -/
inductive CharsSpell : List Char → List Char → Prop where
  /-- Nothing stands for nothing. -/
  | nil : CharsSpell [] []
  /-- One character after another. -/
  | cons {spelling rest : List Char} {c : Char} {cs : List Char} : CharSpells spelling c →
    CharsSpell rest cs → CharsSpell (spelling ++ rest) (c :: cs)

/-- Which texts denote a string: its characters, spelled in some way, in quotes. -/
def StringDenotes (cs : List Char) (s : String) : Prop :=
  ∃ body, CharsSpell body s.toList ∧ cs = '"' :: body ++ ['"']

/-! ## Numbers -/

/-- The parts of a number as it is written. -/
structure Numeral where
  /-- Whether there is a minus sign. -/
  isNegative : Bool
  /-- The digits before the decimal point. -/
  whole : List Char
  /-- The digits behind the decimal point; there is no point if there are none. -/
  fraction : List Char
  /-- The exponent, if there is one: its mark, its sign and its digits. -/
  exponent? : Option (Char × List Char × List Char)

namespace Numeral

/-- The text of a number. -/
def chars (n : Numeral) : List Char :=
  (if n.isNegative then ['-'] else []) ++ n.whole ++
    (if n.fraction = [] then [] else '.' :: n.fraction) ++
    n.exponent?.elim [] fun (mark, sign, digits) => mark :: sign ++ digits

/-- Whether the parts are of the right form. -/
structure IsProper (n : Numeral) : Prop where
  /-- There are digits before the point. -/
  whole_ne_nil : n.whole ≠ []
  /-- These are digits. -/
  whole : ∀ c ∈ n.whole, c.isDigit = true
  /-- A leading zero stands alone. -/
  leadingZero : n.whole.head? = some '0' → n.whole = ['0']
  /-- What stands behind the point are digits. -/
  fraction : ∀ c ∈ n.fraction, c.isDigit = true
  /-- An exponent has a mark, at most one sign, and digits. -/
  exponent : ∀ mark sign digits, n.exponent? = some (mark, sign, digits) →
    (mark = 'e' ∨ mark = 'E') ∧ (sign = [] ∨ sign = ['+'] ∨ sign = ['-']) ∧ digits ≠ [] ∧
      ∀ c ∈ digits, c.isDigit = true

/-- The digits of a number, without the point. -/
def digits (n : Numeral) : List Char :=
  n.whole ++ n.fraction

/-- The magnitude of the exponent. -/
def exponent (n : Numeral) : Nat :=
  n.exponent?.elim 0 fun (_, _, digits) => decimalValue digits

/-- Whether the exponent has a minus sign. -/
def hasNegativeExponent (n : Numeral) : Bool :=
  n.exponent?.any fun (_, sign, _) => sign = ['-']

/-- Whether the number is not too large for the range.

An exponent over `maxExponent` counts as unbounded: only zero stays small under one, and everything
does under a negative one. -/
def IsInRange (range : NumberRange) (n : Numeral) : Prop :=
  if maxExponent < n.exponent then n.hasNegativeExponent = true ∨ ∀ c ∈ n.digits, c = '0'
  else
    range.excludes n.whole n.fraction (if n.hasNegativeExponent then -n.exponent else n.exponent) =
      false

end Numeral

/-! ## Values -/

/-- Which texts denote values that are neither arrays nor objects. -/
inductive ScalarDenotes (range : NumberRange) : List Char → Value → Prop where
  /-- The literal `null`. -/
  | null : ScalarDenotes range ['n', 'u', 'l', 'l'] .null
  /-- The literal `true`. -/
  | true : ScalarDenotes range ['t', 'r', 'u', 'e'] (.bool true)
  /-- The literal `false`. -/
  | false : ScalarDenotes range ['f', 'a', 'l', 's', 'e'] (.bool false)
  /-- A number that is not too large. -/
  | number {n : Numeral} : n.IsProper → n.IsInRange range → ScalarDenotes range n.chars .number
  /-- A string. -/
  | string {cs : List Char} {s : String} : StringDenotes cs s →
    ScalarDenotes range cs (.string s)

/-- Which texts denote a field of an object, where `Item` says which ones denote its value: the
name, a colon and the value, with blanks on both sides of the colon. -/
def FieldDenotes (Item : List Char → Value → Prop) (cs : List Char) (field : String × Value) :
    Prop :=
  ∃ name gap value, StringDenotes name field.1 ∧ AllBlank gap ∧ Padded Item value field.2 ∧
    cs = name ++ gap ++ ':' :: value

/-- Which texts denote the entries of an array or of an object, where `Entry` says which ones denote
one entry: either there are none, and only blanks, or there are commas between them. -/
inductive EntriesDenote {α : Type} (Entry : List Char → α → Prop) : List Char → List α → Prop where
  /-- No entries. -/
  | nil {gap : List Char} : AllBlank gap → EntriesDenote Entry gap []
  /-- One entry or more, each as it is written, with blanks around it. -/
  | cons {first : List Char × α} {others : List (List Char × α)} :
    (∀ part ∈ first :: others, Padded Entry part.1 part.2) →
    EntriesDenote Entry ([','].intercalate ((first :: others).map (·.1)))
      ((first :: others).map (·.2))

/-- Which texts denote arrays and objects, where `Item` says which ones denote what is in them. -/
inductive ContainerDenotes (Item : List Char → Value → Prop) : List Char → Value → Prop where
  /-- An array. -/
  | array {body : List Char} {items : List Value} : EntriesDenote Item body items →
    ContainerDenotes Item ('[' :: body ++ [']']) (.array items)
  /-- An object. -/
  | object {body : List Char} {fields : List (String × Value)} :
    EntriesDenote (FieldDenotes Item) body fields →
    ContainerDenotes Item ('{' :: body ++ ['}']) (.object fields)

/-- Which texts denote values in which arrays and objects nest at most so deep. -/
def Denotes (range : NumberRange) : (levels : Nat) → List Char → Value → Prop
  | 0, cs, v => ScalarDenotes range cs v
  | levels + 1, cs, v => ScalarDenotes range cs v ∨ ContainerDenotes (Denotes range levels) cs v

end LabelQuery.Json
