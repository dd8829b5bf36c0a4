import LabelQuery.Json.Grammar
import LabelQuery.Structured.Encoding
import LabelQuery.Structured.Record
import LabelQuery.Text.LowerCase
import Mathlib.Data.List.Forall2
import Mathlib.Logic.Relation

/-!
# The format of structured selectors

Which JSON values are records, and which requirements the records state, said without a search
through the fields or a trial of one form after another. `IsRecord` and `Converts` are the other
side of `Record.ofValue?` and `Record.toRequirement`, and `States` is that of a whole decoding.
What is wrong with a record that states no requirement is said in the same way: `FailsWith`.
-/

namespace LabelQuery.Structured

open Json (Value NumberRange Padded Denotes)

/-! ## Records -/

/-- Whether exactly one of the fields has the name, and holds the value. -/
def OccursOnce (name : String) (value : Value) (fields : List (String × Value)) : Prop :=
  ∃ before after, fields = before ++ (name, value) :: after ∧
    ∀ field ∈ before ++ after, field.1 ≠ name

/-- Whether none of the fields has the name. -/
def IsMissing (name : String) (fields : List (String × Value)) : Prop :=
  ∀ field ∈ fields, field.1 ≠ name

/-- Whether a value can stand for the values of a record: null for none, or an array of strings. -/
inductive IsValues : Value → Option (List String) → Prop where
  /-- No values. -/
  | null : IsValues .null none
  /-- These values, maybe an empty list. -/
  | strings (values : List String) : IsValues (.array (values.map .string)) (some values)

/-- Whether a value is a record. -/
inductive IsRecord : Value → Record → Prop where
  /-- An object without values. -/
  | plain {fields : List (String × Value)} {operator key : String} :
    OccursOnce "operator" (.string operator) fields → OccursOnce "key" (.string key) fields →
    IsMissing "values" fields → IsRecord (.object fields) ⟨operator, key, none⟩
  /-- An object with values. -/
  | valued {fields : List (String × Value)} {operator key : String} {values : Value}
    {values? : Option (List String)} :
    OccursOnce "operator" (.string operator) fields → OccursOnce "key" (.string key) fields →
    OccursOnce "values" values fields → IsValues values values? →
    IsRecord (.object fields) ⟨operator, key, values?⟩
  /-- An array of two items. -/
  | pair (operator key : String) :
    IsRecord (.array [.string operator, .string key]) ⟨operator, key, none⟩
  /-- An array of three items. -/
  | triple (operator key : String) {values : Value} {values? : Option (List String)} :
    IsValues values values? →
    IsRecord (.array [.string operator, .string key, values]) ⟨operator, key, values?⟩

/-- Whether a value holds the records: it is the only one of them, or an array of them, in order. -/
inductive HoldsRecords : Value → List Record → Prop where
  /-- One record. -/
  | one {value : Value} {record : Record} : IsRecord value record → HoldsRecords value [record]
  /-- An array of records, maybe of none. -/
  | several {items : List Value} {records : List Record} : List.Forall₂ IsRecord items records →
    HoldsRecords (.array items) records

/-- Whether the characters are the text of one record, with blanks around it, in which arrays and
objects nest at most so deep. -/
def IsRecordText (range : NumberRange) (levels : Nat) (cs : List Char) (record : Record) : Prop :=
  ∃ value, Padded (Denotes range levels) cs value ∧ IsRecord value record

/-- Whether the characters are the text of one value, with blanks around it, that holds the records,
and in which arrays and objects nest at most so deep. -/
def IsRecordsText (range : NumberRange) (levels : Nat) (cs : List Char) (records : List Record) :
    Prop :=
  ∃ value, Padded (Denotes range levels) cs value ∧ HoldsRecords value records

/-! ## Requirements -/

/-- The names of the operators. -/
def operatorNames : List String :=
  ["exists", "notexists", "in", "notin"]

/-- Whether a record states a requirement: its operator has the name, in any case of ASCII letters,
and there are values where the operator asks for them. -/
inductive Converts : Record → Requirement → Prop where
  /-- The label is there, whatever the values are. -/
  | present {operator key : String} {values? : Option (List String)} :
    SameName operator "exists" → Converts ⟨operator, key, values?⟩ ⟨key, .present⟩
  /-- The label is not there, whatever the values are. -/
  | absent {operator key : String} {values? : Option (List String)} :
    SameName operator "notexists" → Converts ⟨operator, key, values?⟩ ⟨key, .absent⟩
  /-- The label has one of the values. -/
  | oneOf {operator key : String} {values : List String} :
    SameName operator "in" → values ≠ [] →
    Converts ⟨operator, key, some values⟩ ⟨key, .oneOf values⟩
  /-- The label has none of the values. -/
  | noneOf {operator key : String} {values : List String} :
    SameName operator "notin" → values ≠ [] →
    Converts ⟨operator, key, some values⟩ ⟨key, .noneOf values⟩

/-- Whether a record states no requirement, for the given cause. What the cause names is named as it
is written in the record, not as it is lowered. -/
inductive FailsWith (lowering : Text.LowerCasing) : Record → RecordError → Prop where
  /-- The operator has none of the names in lower case. -/
  | unknownOperator {operator key : String} {values? : Option (List String)} :
    lowering.apply operator ∉ operatorNames →
    FailsWith lowering ⟨operator, key, values?⟩ (.unknownOperator operator)
  /-- The operator asks for values, and there are none. -/
  | missingValues {operator key : String} {values? : Option (List String)} :
    lowering.apply operator = "in" ∨ lowering.apply operator = "notin" →
    values? = none ∨ values? = some [] →
    FailsWith lowering ⟨operator, key, values?⟩ (.missingValues operator key)

/-- Whether a value states a selector: it is a record, and states one requirement, or it is an array
of records, and they state the requirements in order. -/
inductive States : Value → Selector → Prop where
  /-- A record. -/
  | record {value : Value} {record : Record} {requirement : Requirement} : IsRecord value record →
    Converts record requirement → States value ⟨[requirement]⟩
  /-- An array of records, maybe of none. -/
  | records {items : List Value} {records : List Record} {requirements : List Requirement} :
    List.Forall₂ IsRecord items records → List.Forall₂ Converts records requirements →
    States (.array items) ⟨requirements⟩

/-! ## Rearranged values

What an object says as a record lies in its fields of three names. A `Change` does nothing to these:
the fields of an object come in another order, a field of another name is put in anywhere, or null
is put in where there are no values; and any of it may be done to a value that lies in an array or
in a field, at any depth. Two values are **rearranged** if one comes of the other by such changes,
made or undone. -/

/-- The names of the fields that say something in a record. -/
def recordFields : List String :=
  ["operator", "key", "values"]

/-- Whether the second value is the first after one change that says nothing. -/
inductive Change : Value → Value → Prop where
  /-- The fields of an object come in another order. -/
  | permute {fields fields' : List (String × Value)} : fields.Perm fields' →
    Change (.object fields) (.object fields')
  /-- A field is put into an object that has none of the names of a record's fields. -/
  | insert {before after : List (String × Value)} {name : String} (value : Value) :
    name ∉ recordFields →
    Change (.object (before ++ after)) (.object (before ++ (name, value) :: after))
  /-- Null is put in for the values that an object does not have. -/
  | insertNull {before after : List (String × Value)} : IsMissing "values" (before ++ after) →
    Change (.object (before ++ after)) (.object (before ++ ("values", .null) :: after))
  /-- A change is made in a field of an object. -/
  | field {before after : List (String × Value)} {name : String} {value value' : Value} :
    Change value value' →
    Change (.object (before ++ (name, value) :: after)) (.object (before ++ (name, value') :: after))
  /-- A change is made in an item of an array. -/
  | item {before after : List Value} {value value' : Value} : Change value value' →
    Change (.array (before ++ value :: after)) (.array (before ++ value' :: after))

/-- Whether two values come of each other by changes that say nothing. -/
def Rearranged : Value → Value → Prop :=
  Relation.EqvGen Change

end LabelQuery.Structured
