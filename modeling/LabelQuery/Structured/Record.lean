import LabelQuery.Json.Basic
import LabelQuery.Requirement

/-!
# Structured records

A requirement can be given as a **record** with an operator, a key and values, in place of selector
text. As a JSON value a record is an object with the fields `operator`, `key` and `values`, or an
array of their contents in that order; `values` may be missing or null. Fields of other names say
nothing, however often they occur, but none of the three may be repeated.

Recognising a record (`Record.ofValue?`) and understanding it (`Record.toRequirement`) are two
steps: whether the operator is known, and has the values that it needs, is asked only of records.
-/

namespace LabelQuery.Structured

open Json (Value)

/-- A requirement as operator, key and values, before the operator has been looked at. -/
structure Record where
  /-- The name of the operator, as it is written. -/
  operator : String
  /-- The name of the label. -/
  key : String
  /-- The values, if any are given. -/
  values? : Option (List String)
deriving DecidableEq, Repr

/-! ## Recognising records -/

/-- The values that a field gives: none for null, and the texts of an array of strings. -/
def valuesOf? : Value → Option (Option (List String))
  | .null => some none
  | .array items => (items.mapM Value.string?).map some
  | _ => none

namespace Record

/-- The values of the fields with the given name, in their order. -/
def fieldsNamed (name : String) (fields : List (String × Value)) : List Value :=
  (fields.filter (·.1 == name)).map (·.2)

/-- The record that an object's fields make up. -/
def ofFields? (fields : List (String × Value)) : Option Record :=
  match fieldsNamed "operator" fields, fieldsNamed "key" fields, fieldsNamed "values" fields with
  | [operator], [key], [] => do
    return ⟨← operator.string?, ← key.string?, none⟩
  | [operator], [key], [values] => do
    return ⟨← operator.string?, ← key.string?, ← valuesOf? values⟩
  | _, _, _ => none

/-- The record that an array's items make up. -/
def ofItems? : List Value → Option Record
  | [operator, key] => do
    return ⟨← operator.string?, ← key.string?, none⟩
  | [operator, key, values] => do
    return ⟨← operator.string?, ← key.string?, ← valuesOf? values⟩
  | _ => none

/-- The record that a value is, if it is one. -/
def ofValue? : Value → Option Record
  | .object fields => ofFields? fields
  | .array items => ofItems? items
  | _ => none

/-- The records that a value holds: the value itself if it is a record, and otherwise the items of
an array of records. -/
def listOfValue? (value : Value) : Option (List Record) :=
  match ofValue? value with
  | some record => some [record]
  | none =>
    match value with
    | .array items => items.mapM ofValue?
    | _ => none

end Record

/-! ## Understanding records -/

/-- What the operator of a record asks for. -/
inductive Operator where
  /-- The label has one of the values, or has none of them. -/
  | membership (polarity : Polarity)
  /-- The label is there. -/
  | presence
  /-- The label is not there. -/
  | absence
deriving DecidableEq, Repr

/-- The operator of the given name. The case of ASCII letters does not matter, and no other
character occurs in a name. -/
def Operator.ofName? (name : String) : Option Operator :=
  match name.toLower with
  | "in" => some (.membership .among)
  | "notin" => some (.membership .outside)
  | "exists" => some .presence
  | "notexists" => some .absence
  | _ => none

/-- Why a record states no requirement. -/
inductive RecordError where
  /-- No operator has this name. -/
  | unknownOperator (operator : String)
  /-- The operator, as it is written, asks for values, and the record with this key gives none. -/
  | missingValues (operator key : String)
deriving DecidableEq, Repr

/-- What the error says to the author of the record. -/
def RecordError.message : RecordError → String
  | unknownOperator operator => s!"unknown operator `{operator}`"
  | missingValues operator key =>
    s!"operator `{operator}` on key `{key}` requires at least one value"

/-- The requirement that a record states. -/
def Record.toRequirement (record : Record) : Except RecordError Requirement :=
  match Operator.ofName? record.operator with
  | none => .error (.unknownOperator record.operator)
  | some .presence => .ok ⟨record.key, .present⟩
  | some .absence => .ok ⟨record.key, .absent⟩
  | some (.membership polarity) =>
    match record.values? with
    | some (value :: values) => .ok ⟨record.key, polarity.ofValues (value :: values)⟩
    | _ => .error (.missingValues record.operator record.key)

end LabelQuery.Structured
