import LabelQuery.Json.Fault

/-!
# JSON values and their readers

The value that a JSON text denotes. Objects keep their fields as they are written, in order and
with repetitions, because what a repeated field means is for the reader of the object to say.
Numbers are read for their form and their range only: no structured requirement holds one, so a
number's value is not kept.

A reader takes what it reads off the front of a text and leaves a **suffix** of it. `Taken` keeps
the proof, so a loop that reads one thing after another ends by construction, and no reader can
invent or reorder text.
-/

namespace LabelQuery.Json

/-! ## Values -/

/-- A JSON value. -/
inductive Value where
  /-- The literal `null`. -/
  | null
  /-- One of the literals `true` and `false`. -/
  | bool (value : Bool)
  /-- A number, whichever it is. -/
  | number
  /-- A string, with its escapes resolved. -/
  | string (value : String)
  /-- An array. -/
  | array (items : List Value)
  /-- An object, with every field as it is written. -/
  | object (fields : List (String × Value))
deriving Repr

/-- The text of a string value. -/
def Value.string? : Value → Option String
  | string value => some value
  | _ => none

/-! ## Taking something off a text -/

/-- What is left of a text without its first character is still its end. Readers that step over one
character need it for the `suffix` of what they return. -/
theorem suffix_of_cons {c : Char} {rest cs : List Char} (h : c :: rest <:+ cs) : rest <:+ cs :=
  (List.suffix_cons c rest).trans h

theorem suffix_of_suffix_cons {c : Char} {rest' rest cs : List Char} (h' : rest' <:+ rest)
    (h : c :: rest <:+ cs) : rest' <:+ cs :=
  h'.trans (suffix_of_cons h)

/-- What was read off the front of a text, and the suffix that is left of it. -/
structure Taken (α : Type) (cs : List Char) where
  /-- What was read. -/
  value : α
  /-- What is left of the text. -/
  rest : List Char
  /-- What is left stands at the end of the text. -/
  suffix : rest <:+ cs

/-- Readers of `α`: each takes a value off the front of a text, or says what is wrong with it. -/
abbrev Reader (α : Type) :=
  (cs : List Char) → Except Fault (Taken α cs)

namespace Taken

variable {α β : Type} {cs ds : List Char}

/-- The same, seen from a longer text. -/
def widen (h : ds <:+ cs) (taken : Taken α ds) : Taken α cs :=
  ⟨taken.value, taken.rest, taken.suffix.trans h⟩

/-- The same with another value. -/
def map (f : α → β) (taken : Taken α cs) : Taken β cs :=
  ⟨f taken.value, taken.rest, taken.suffix⟩

end Taken

/-- Whether a character may stand between the parts of a JSON text. -/
def isBlank (c : Char) : Bool :=
  c = ' ' || c = '\n' || c = '\t' || c = '\r'

/-- Takes the blanks off the front of a text. -/
def blanks (cs : List Char) : Taken Unit cs :=
  ⟨(), cs.dropWhile isBlank, List.dropWhile_suffix _⟩

end LabelQuery.Json
