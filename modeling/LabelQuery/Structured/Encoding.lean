import LabelQuery.Json.Escaping
import LabelQuery.Selector.Basic

/-!
# Structured selectors in writing

Which JSON texts write down a selector as an array of records. Only the choices that change nothing
are left open: the case of the letters of an operator, the escaping of each string, and whether a
record without values says so or says nothing. Requirements of the equality forms have no operator
and cannot be written, nor can a list of values that is empty.
-/

namespace LabelQuery.Structured

open Json (Writes)

/-- The name of the operator that asks for the condition, if there is one. -/
def operatorOf? : Condition → Option String
  | .present => some "exists"
  | .absent => some "notexists"
  | .oneOf _ => some "in"
  | .noneOf _ => some "notin"
  | .equals _ | .differs _ => none

/-- Whether two names differ in the case of ASCII letters at most. -/
def SameName (name other : String) : Prop :=
  name.toList.map Char.toLower = other.toList.map Char.toLower

/-- The parts with commas between them. -/
def commaSeparated (parts : List (List Char)) : List Char :=
  [','].intercalate parts

/-- Whether the characters write the strings as an array. -/
def WritesStrings (values : List String) (cs : List Char) : Prop :=
  ∃ parts : List (String × List Char), (∀ part ∈ parts, Writes part.1 part.2) ∧
    values = parts.map (·.1) ∧ cs = '[' :: commaSeparated (parts.map (·.2)) ++ [']']

/-- Whether the characters write a field of the given name, with a content that is written so. -/
def WritesField (name : String) (Content : List Char → Prop) (cs : List Char) : Prop :=
  ∃ quoted content, Writes name quoted ∧ Content content ∧ cs = quoted ++ ':' :: content

/-- Whether the characters write the part of a record that holds the values of a condition: a list
if there are values, and otherwise null, or nothing at all. -/
inductive WritesValues : Condition → List (List Char) → Prop where
  /-- One of the values. -/
  | oneOf {values : List String} {cs : List Char} : values ≠ [] →
    WritesField "values" (WritesStrings values) cs → WritesValues (.oneOf values) [cs]
  /-- None of the values. -/
  | noneOf {values : List String} {cs : List Char} : values ≠ [] →
    WritesField "values" (WritesStrings values) cs → WritesValues (.noneOf values) [cs]
  /-- No values, in words. -/
  | null {condition : Condition} {cs : List Char} : condition = .present ∨ condition = .absent →
    WritesField "values" (· = ['n', 'u', 'l', 'l']) cs → WritesValues condition [cs]
  /-- No values, and no field for them. -/
  | missing {condition : Condition} : condition = .present ∨ condition = .absent →
    WritesValues condition []

/-- Whether the characters write the requirement as a record. -/
inductive WritesRecord : Requirement → List Char → Prop where
  | intro {requirement : Requirement} {operator name : String} {operatorField keyField : List Char}
    {valuesFields : List (List Char)} :
    operatorOf? requirement.condition = some name → SameName operator name →
    WritesField "operator" (Writes operator) operatorField →
    WritesField "key" (Writes requirement.key) keyField →
    WritesValues requirement.condition valuesFields →
    WritesRecord requirement
      ('{' :: commaSeparated (operatorField :: keyField :: valuesFields) ++ ['}'])

/-- Whether the characters write the selector as an array of records. -/
def WritesSelector (s : Selector) (cs : List Char) : Prop :=
  ∃ parts : List (Requirement × List Char), (∀ part ∈ parts, WritesRecord part.1 part.2) ∧
    s.requirements = parts.map (·.1) ∧ cs = '[' :: commaSeparated (parts.map (·.2)) ++ [']']

end LabelQuery.Structured
