import LabelQuery.Json.Reader
import LabelQuery.Selector.Basic
import LabelQuery.Structured.Record

/-!
# Decoding structured selectors

A structured selector is a JSON text of one record, or of an array of records, which are taken as a
conjunction. It is decoded in four steps, and **the first step that fails is the answer**, whatever
the later ones would have to say:

1. a JSON value is read from the front of the text;
2. the value has to be a record, or an array of records;
3. nothing but blanks may follow it;
4. each record, in order, has to state a requirement.
-/

namespace LabelQuery

open Structured

/-- Why a text is no structured selector. -/
inductive DecodingError where
  /-- The text is not the text of one JSON value. -/
  | malformed (malformation : Json.Malformation)
  /-- The value is neither a record nor an array of records. -/
  | unmatched
  /-- A record states no requirement. -/
  | record (error : RecordError)
deriving DecidableEq, Repr

/-- What the error says to the author of the text. -/
def DecodingError.message : DecodingError → String
  | malformed malformation => malformation.message
  | unmatched => "data did not match any variant of untagged enum JsonSelector"
  | record error => error.message

namespace Structured

/-- The records of a structured selector. -/
def records (text : String) (range : Json.NumberRange) : Except DecodingError (List Record) :=
  let cs := text.toList
  match Json.value range Json.nestingLimit cs with
  | .error fault => .error (.malformed (fault.inText cs))
  | .ok taken =>
    match Record.listOfValue? taken.value with
    | none => .error .unmatched
    | some records =>
      match Json.trailing? taken.rest with
      | some fault => .error (.malformed (fault.inText cs))
      | none => .ok records

/-- The selector that the records state, or what is wrong with the first that states nothing. -/
def conjunction (records : List Record) : Except RecordError Selector :=
  return ⟨← records.mapM Record.toRequirement⟩

end Structured

/-- The selector that a structured text states. -/
def Selector.decode (text : String) (range : Json.NumberRange) : Except DecodingError Selector := do
  let records ← Structured.records text range
  (Structured.conjunction records).mapError .record

end LabelQuery
