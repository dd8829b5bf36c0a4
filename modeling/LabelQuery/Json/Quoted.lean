import LabelQuery.Json.Basic

/-!
# JSON strings

Between its quotes a string stands for itself, character by character, except for escapes, which a
backslash begins. A character beyond U+FFFF is escaped as two **surrogates**, one escape each; half
a pair stands for no character and is refused, as are control characters that are not escaped.
-/

namespace LabelQuery.Json

open Text (byteLength)

/-- The character that a backslash and one letter stand for. -/
def letterEscape? : Char → Option Char
  | '"' => some '"'
  | '\\' => some '\\'
  | '/' => some '/'
  | 'b' => some '\u0008'
  | 'f' => some '\u000C'
  | 'n' => some '\n'
  | 'r' => some '\r'
  | 't' => some '\t'
  | _ => none

/-- The value of a hexadecimal digit. -/
def hexDigit? (c : Char) : Option Nat :=
  if '0' ≤ c && c ≤ '9' then some (c.toNat - '0'.toNat)
  else if 'a' ≤ c && c ≤ 'f' then some (c.toNat - 'a'.toNat + 10)
  else if 'A' ≤ c && c ≤ 'F' then some (c.toNat - 'A'.toNat + 10)
  else none

/-- Takes the four hexadecimal digits of an escape.

The digits are looked for in the next four bytes, whatever characters these are part of. -/
def hexUnit : Reader Nat := fun cs =>
  match cs with
  | a :: b :: c :: d :: rest =>
    match hexDigit? a, hexDigit? b, hexDigit? c, hexDigit? d with
    | some a, some b, some c, some d =>
      .ok ⟨((a * 16 + b) * 16 + c) * 16 + d, rest, by
        iterate 4 refine List.IsSuffix.trans ?_ (List.suffix_cons ..)
        exact List.suffix_rfl⟩
    | _, _, _, _ => .error (refusal (a :: b :: c :: d :: rest))
  | cs => .error (refusal cs)
where
  /-- The fault of a text that does not begin with four hexadecimal digits. -/
  refusal (cs : List Char) : Fault :=
    if byteLength cs < 4 then .before .unfinishedString [] else ⟨.invalidEscape, byteLength cs - 4⟩

/-- Takes one character of the escape that has to follow the first half of a surrogate pair. -/
def surrogateMark (mark : Char) : Reader Unit
  | [] => .error (.before .unfinishedString [])
  | c :: rest =>
    if c = mark then .ok ⟨(), rest, List.suffix_cons ..⟩
    else .error (.behindByte .missingSurrogate (c :: rest))

/-- Whether a 16-bit unit is the first half of a surrogate pair. -/
def isHighSurrogate (unit : Nat) : Bool := 0xD800 ≤ unit && unit ≤ 0xDBFF

/-- Whether a 16-bit unit is the second half of a surrogate pair. -/
def isLowSurrogate (unit : Nat) : Bool := 0xDC00 ≤ unit && unit ≤ 0xDFFF

/-- The character that a surrogate pair stands for. -/
def surrogatePair (high low : Nat) : Char :=
  Char.ofNat (0x10000 + (high - 0xD800) * 0x400 + (low - 0xDC00))

/-- Takes the digits of an escaped 16-bit unit, and the whole escape of the second half where the
unit is the first half of a surrogate pair. -/
def unitEscape : Reader Char := fun cs => do
  let ⟨unit, rest, h⟩ ← hexUnit cs
  if isLowSurrogate unit then throw (.before .loneSurrogate rest)
  if isHighSurrogate unit then
    let ⟨_, rest, h₁⟩ ← surrogateMark '\\' rest
    let ⟨_, rest, h₂⟩ ← surrogateMark 'u' rest
    let ⟨low, rest, h₃⟩ ← hexUnit rest
    if isLowSurrogate low then
      return ⟨surrogatePair unit low, rest, ((h₃.trans h₂).trans h₁).trans h⟩
    else throw (.before .loneSurrogate rest)
  else return ⟨Char.ofNat unit, rest, h⟩

/-- Takes what follows the backslash of an escape. -/
def escape : Reader Char
  | [] => .error (.before .unfinishedString [])
  | c :: rest =>
    match letterEscape? c with
    | some character => .ok ⟨character, rest, List.suffix_cons ..⟩
    | none =>
      if c = 'u' then (unitEscape rest).map (·.widen (List.suffix_cons ..))
      else .error (.behindByte .invalidEscape (c :: rest))

/-- Takes the characters of a string up to its closing quote, and the quote, where `read` has been
read of the string and `cs` is what is left of the text. -/
def quotedFrom {text : List Char} (read : String) (cs : List Char) (h : cs <:+ text) :
    Except Fault (Taken String text) :=
  match cs with
  | [] => .error (.before .unfinishedString [])
  | c :: rest =>
    if c = '"' then .ok ⟨read, rest, suffix_of_cons h⟩
    else if c = '\\' then
      match escape rest with
      | .error fault => .error fault
      | .ok ⟨escaped, rest', h'⟩ =>
        quotedFrom (read.push escaped) rest' (suffix_of_suffix_cons h' h)
    else if c < ' ' then .error (.before .controlCharacter rest)
    else quotedFrom (read.push c) rest (suffix_of_cons h)
termination_by cs.length
decreasing_by
  · exact Nat.lt_succ_of_le h'.length_le
  · simp

/-- Takes a string whose opening quote has been taken. -/
def quoted : Reader String := fun cs =>
  quotedFrom "" cs List.suffix_rfl

end LabelQuery.Json
