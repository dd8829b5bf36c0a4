import LabelQuery.Json.Number
import LabelQuery.Json.Quoted

/-!
# Reading JSON

A value is read in one pass from the left; the first thing that cannot stand where it stands is the
fault. Arrays and objects nest at most `nestingLimit` deep, and the recursion is on that bound: a
reader of values with one level less is what reads the items of an array and the fields of an
object. The readers of items and fields are therefore ordinary loops over a given reader.

Reading stops behind the value. What follows it is looked at by `trailing?` alone, so a caller
decides when, and whether, it counts.
-/

namespace LabelQuery.Json

/-- Takes the letters of a literal word. -/
def word : List Char → Reader Unit
  | [], cs => .ok ⟨(), cs, List.suffix_rfl⟩
  | _ :: _, [] => .error (.before .unfinishedValue [])
  | letter :: letters, c :: rest =>
    if c = letter then (word letters rest).map (·.widen (List.suffix_cons ..))
    else .error (.behindByte .expectedIdent (c :: rest))

/-! ## Arrays -/

/-- Takes the further items of an array and its end, where `read` are the items read so far and
`cs` is what is left of the text. -/
def itemsFrom {text : List Char} (item : Reader Value) (read : Array Value) (cs : List Char)
    (h : cs <:+ text) : Except Fault (Taken (List Value) text) :=
  match blanks cs with
  | ⟨_, [], _⟩ => .error (.before .unfinishedList [])
  | ⟨_, c :: rest, h₁⟩ =>
    have hrest : rest <:+ text := (suffix_of_cons h₁).trans h
    if c = ']' then .ok ⟨read.toList, rest, hrest⟩
    else if c = ',' then
      match blanks rest with
      | ⟨_, [], _⟩ => .error (.before .unfinishedValue [])
      | ⟨_, d :: ds, h₂⟩ =>
        if d = ']' then .error (.behindByte .trailingComma (d :: ds))
        else
          match item (d :: ds) with
          | .error fault => .error fault
          | .ok ⟨value, rest', h₃⟩ =>
            itemsFrom item (read.push value) rest' ((h₃.trans h₂).trans hrest)
    else .error (.behindByte .expectedCommaOrBracket (c :: rest))
termination_by cs.length
decreasing_by
  exact Nat.lt_of_lt_of_le (Nat.lt_succ_of_le (h₃.trans h₂).length_le) h₁.length_le

/-- Takes an array whose opening bracket has been taken. -/
def items (item : Reader Value) : Reader (List Value) := fun cs =>
  match blanks cs with
  | ⟨_, [], _⟩ => .error (.before .unfinishedList [])
  | ⟨_, c :: rest, h⟩ =>
    if c = ']' then .ok ⟨[], rest, suffix_of_cons h⟩
    else
      match item (c :: rest) with
      | .error fault => .error fault
      | .ok ⟨value, rest', h'⟩ => itemsFrom item #[value] rest' (h'.trans h)

/-! ## Objects -/

/-- Takes a field, the opening quote of whose name has been taken. -/
def field (item : Reader Value) : Reader (String × Value) := fun cs =>
  match quoted cs with
  | .error fault => .error fault
  | .ok ⟨name, rest, h⟩ =>
    match blanks rest with
    | ⟨_, [], _⟩ => .error (.before .unfinishedObject [])
    | ⟨_, c :: rest', h'⟩ =>
      if c = ':' then
        match item rest' with
        | .error fault => .error fault
        | .ok ⟨value, rest'', h''⟩ =>
          .ok ⟨(name, value), rest'', ((h''.trans (List.suffix_cons ..)).trans h').trans h⟩
      else .error (.behindByte .expectedColon (c :: rest'))

/-- Takes the further fields of an object and its end, where `read` are the fields read so far and
`cs` is what is left of the text. -/
def fieldsFrom {text : List Char} (item : Reader Value) (read : Array (String × Value))
    (cs : List Char) (h : cs <:+ text) : Except Fault (Taken (List (String × Value)) text) :=
  match blanks cs with
  | ⟨_, [], _⟩ => .error (.before .unfinishedObject [])
  | ⟨_, c :: rest, h₁⟩ =>
    have hrest : rest <:+ text := (suffix_of_cons h₁).trans h
    if c = '}' then .ok ⟨read.toList, rest, hrest⟩
    else if c = ',' then
      match blanks rest with
      | ⟨_, [], _⟩ => .error (.before .unfinishedValue [])
      | ⟨_, d :: ds, h₂⟩ =>
        if d = '}' then .error (.behindByte .trailingComma (d :: ds))
        else if d = '"' then
          match field item ds with
          | .error fault => .error fault
          | .ok ⟨entry, rest', h₃⟩ =>
            fieldsFrom item (read.push entry) rest'
              (((h₃.trans (List.suffix_cons ..)).trans h₂).trans hrest)
        else .error (.behindByte .keyNotString (d :: ds))
    else .error (.behindByte .expectedCommaOrBrace (c :: rest))
termination_by cs.length
decreasing_by
  exact Nat.lt_of_lt_of_le
    (Nat.lt_succ_of_le ((h₃.trans (List.suffix_cons ..)).trans h₂).length_le) h₁.length_le

/-- Takes an object whose opening brace has been taken. -/
def fields (item : Reader Value) : Reader (List (String × Value)) := fun cs =>
  match blanks cs with
  | ⟨_, [], _⟩ => .error (.before .unfinishedObject [])
  | ⟨_, c :: rest, h⟩ =>
    if c = '}' then .ok ⟨[], rest, suffix_of_cons h⟩
    else if c = '"' then
      match field item rest with
      | .error fault => .error fault
      | .ok ⟨entry, rest', h'⟩ =>
        fieldsFrom item #[entry] rest' (suffix_of_suffix_cons h' h)
    else .error (.behindByte .keyNotString (c :: rest))

/-! ## Values -/

/-- Takes a value, where `item?` reads the values inside an array or an object, and is missing
where no further level of nesting is allowed. -/
def valueWith (range : NumberRange) (item? : Option (Reader Value)) : Reader Value := fun cs =>
  match blanks cs with
  | ⟨_, [], _⟩ => .error (.before .unfinishedValue [])
  | ⟨_, c :: rest, h⟩ =>
    have hrest : rest <:+ cs := suffix_of_cons h
    match c with
    | 'n' => (word ['u', 'l', 'l'] rest).map fun taken => (taken.map fun _ => .null).widen hrest
    | 't' =>
      (word ['r', 'u', 'e'] rest).map fun taken => (taken.map fun _ => .bool true).widen hrest
    | 'f' =>
      (word ['a', 'l', 's', 'e'] rest).map fun taken =>
        (taken.map fun _ => .bool false).widen hrest
    | '"' => (quoted rest).map fun taken => (taken.map .string).widen hrest
    | '[' =>
      match item? with
      | none => .error (.behindByte .nestedTooDeeply ('[' :: rest))
      | some item => (items item rest).map fun taken => (taken.map .array).widen hrest
    | '{' =>
      match item? with
      | none => .error (.behindByte .nestedTooDeeply ('{' :: rest))
      | some item => (fields item rest).map fun taken => (taken.map .object).widen hrest
    | c =>
      if c = '-' || c.isDigit then
        (number range (c :: rest)).map fun taken => (taken.map fun _ => .number).widen h
      else .error (.behindByte .expectedValue (c :: rest))

/-- Takes a value in which arrays and objects nest at most so deep. -/
def value (range : NumberRange) : (levels : Nat) → Reader Value
  | 0 => valueWith range none
  | levels + 1 => valueWith range (some (value range levels))

/-- How deep arrays and objects may nest. -/
def nestingLimit : Nat := 127

/-- The fault of a rest in which something else than blanks is left. -/
def trailing? (rest : List Char) : Option Fault :=
  match blanks rest with
  | ⟨_, [], _⟩ => none
  | ⟨_, c :: rest, _⟩ => some (.behindByte .trailingCharacters (c :: rest))

end LabelQuery.Json
