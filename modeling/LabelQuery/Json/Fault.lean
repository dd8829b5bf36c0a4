import LabelQuery.Text.Basic

/-!
# Faults of JSON texts

A **fault** is a cause and a place. While a text is being read only its rest is at hand, so a fault
marks its place by the number of bytes that lie behind it; `Fault.inText` counts them off the whole
text and gives the place as line and column.

There are two ways to mark the place of a fault in front of which the rest begins. `Fault.before`
marks the rest itself. `Fault.behindByte` marks the place one byte further, which may lie inside a
character; at the end of the text the two are the same.
-/

namespace LabelQuery.Json

open Text (byteLength)

/-- What can be wrong with a JSON text. -/
inductive Cause where
  /-- The text ends where a value, or the rest of one, has to follow. -/
  | unfinishedValue
  /-- The text ends inside a string. -/
  | unfinishedString
  /-- The text ends inside an array. -/
  | unfinishedList
  /-- The text ends inside an object. -/
  | unfinishedObject
  /-- No value begins here. -/
  | expectedValue
  /-- A literal word has another letter here. -/
  | expectedIdent
  /-- A number has another character where a digit has to stand, or a digit behind a leading
  zero. -/
  | invalidNumber
  /-- The number is too large. -/
  | numberOutOfRange
  /-- A control character stands in a string. -/
  | controlCharacter
  /-- A backslash in a string is followed by no escape. -/
  | invalidEscape
  /-- The escape of half a surrogate pair stands alone, or behind the wrong half. -/
  | loneSurrogate
  /-- The first half of a surrogate pair is followed by no escape. -/
  | missingSurrogate
  /-- Arrays and objects are nested too deeply. -/
  | nestedTooDeeply
  /-- An item of an array is followed by neither a comma nor the end of the array. -/
  | expectedCommaOrBracket
  /-- A field of an object is followed by neither a comma nor the end of the object. -/
  | expectedCommaOrBrace
  /-- A comma is the last thing in an array or an object. -/
  | trailingComma
  /-- A field of an object begins with something else than a string. -/
  | keyNotString
  /-- The name of a field is not followed by a colon. -/
  | expectedColon
  /-- Something follows the value. -/
  | trailingCharacters
deriving DecidableEq, Repr

/-- What the cause is called in messages. -/
def Cause.description : Cause → String
  | unfinishedValue => "EOF while parsing a value"
  | unfinishedString => "EOF while parsing a string"
  | unfinishedList => "EOF while parsing a list"
  | unfinishedObject => "EOF while parsing an object"
  | expectedValue => "expected value"
  | expectedIdent => "expected ident"
  | invalidNumber => "invalid number"
  | numberOutOfRange => "number out of range"
  | controlCharacter => "control character (\\u0000-\\u001F) found while parsing a string"
  | invalidEscape => "invalid escape"
  | loneSurrogate => "lone leading surrogate in hex escape"
  | missingSurrogate => "unexpected end of hex escape"
  | nestedTooDeeply => "recursion limit exceeded"
  | expectedCommaOrBracket => "expected `,` or `]`"
  | expectedCommaOrBrace => "expected `,` or `\x7d`"
  | trailingComma => "trailing comma"
  | keyNotString => "key must be a string"
  | expectedColon => "expected `:`"
  | trailingCharacters => "trailing characters"

/-- A place in a text. -/
structure Position where
  /-- The number of the line, from one. -/
  line : Nat
  /-- The number of bytes of the line that lie before the place. -/
  column : Nat
deriving DecidableEq, Repr

namespace Position

/-- The place before the first character. -/
def first : Position := ⟨1, 0⟩

/-- The place `bytes` bytes further on, where `cs` is the text from here on. -/
def advance (position : Position) (bytes : Nat) (cs : List Char) : Position :=
  match cs with
  | [] => position
  | c :: cs =>
    if bytes = 0 then position
    else if bytes < c.utf8Size then ⟨position.line, position.column + bytes⟩
    else if c = '\n' then advance ⟨position.line + 1, 0⟩ (bytes - c.utf8Size) cs
    else advance ⟨position.line, position.column + c.utf8Size⟩ (bytes - c.utf8Size) cs

/-- The place behind the characters: the number of their lines, and the bytes of the last one. -/
def behind (cs : List Char) : Position :=
  ⟨1 + cs.count '\n', byteLength (cs.reverse.takeWhile (· ≠ '\n'))⟩

end Position

/-- A cause, and where it was met: the number of bytes between there and the end of the text. -/
structure Fault where
  /-- What is wrong. -/
  cause : Cause
  /-- The number of bytes behind the place. -/
  bytesLeft : Nat
deriving DecidableEq, Repr

/-- A cause with its place in a text. -/
structure Malformation where
  /-- What is wrong. -/
  cause : Cause
  /-- Where. -/
  position : Position
deriving DecidableEq, Repr

namespace Fault

/-- A fault at the place where the rest of the text begins. -/
def before (cause : Cause) (rest : List Char) : Fault :=
  ⟨cause, byteLength rest⟩

/-- A fault one byte behind the place where the rest of the text begins. -/
def behindByte (cause : Cause) (rest : List Char) : Fault :=
  ⟨cause, byteLength rest - 1⟩

/-- The fault with its place as line and column of the text. -/
def inText (text : List Char) (fault : Fault) : Malformation :=
  ⟨fault.cause, Position.first.advance (byteLength text - fault.bytesLeft) text⟩

end Fault

/-- The cause, with the line and the column. -/
def Malformation.message (malformation : Malformation) : String :=
  let ⟨line, column⟩ := malformation.position
  s!"{malformation.cause.description} at line {line} column {column}"

end LabelQuery.Json
