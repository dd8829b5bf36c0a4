import LabelQuery.Labelling

/-!
# Requirements

A **requirement** asks one thing of one label: its key names the label, and its condition says what
is asked. `Condition.admits` is the whole meaning of a condition, a set of possible answers to
"which value stands under the key?". The answer "none" is among the possible ones: a missing label
meets `absent`, `noneOf` and `differs`, and no other condition.
-/

namespace LabelQuery

/-- What can be asked of a label. -/
inductive Condition where
  /-- The label is there, with any value. -/
  | present
  /-- The label is not there. -/
  | absent
  /-- The label is there, and its value is one of these. -/
  | oneOf (values : List String)
  /-- The label is not there, or its value is none of these. -/
  | noneOf (values : List String)
  /-- The label is there, with this value. -/
  | equals (value : String)
  /-- The label is not there, or has another value. -/
  | differs (value : String)
deriving DecidableEq, Repr

/-- Whether the condition holds of a label with the given value, or of a missing label. -/
def Condition.admits : Condition → Option String → Bool
  | present, found => found.isSome
  | absent, found => found.isNone
  | oneOf values, found => found.any fun label => values.any (· == label)
  | noneOf values, found => found.all fun label => values.all (· != label)
  | equals value, found => found == some value
  | differs value, found => found != some value

/-- Whether a condition asks for a value or rules it out. -/
inductive Polarity where
  /-- The label has the value, or one of the values. -/
  | among
  /-- The label does not. -/
  | outside
deriving DecidableEq, Repr

namespace Polarity

/-- The condition on a list of values. -/
def ofValues : Polarity → List String → Condition
  | among, values => .oneOf values
  | outside, values => .noneOf values

/-- The condition on a single value. -/
def ofValue : Polarity → String → Condition
  | among, value => .equals value
  | outside, value => .differs value

end Polarity

/-- One requirement of a selector: a condition on the label that the key names. -/
structure Requirement where
  /-- The name of the label. -/
  key : String
  /-- What is asked of it. -/
  condition : Condition
deriving DecidableEq, Repr

namespace Requirement

variable {α : Type} [Labelling α]

/-- Whether the requirement holds of a labelling. -/
def holds (labels : α) (requirement : Requirement) : Bool :=
  requirement.condition.admits (Labelling.value? labels requirement.key)

/-- The requirement as selector text. -/
def render : Requirement → String
  | ⟨key, .present⟩ => key
  | ⟨key, .absent⟩ => "!" ++ key
  | ⟨key, .oneOf values⟩ => key ++ " in (" ++ ", ".intercalate values ++ ")"
  | ⟨key, .noneOf values⟩ => key ++ " notin (" ++ ", ".intercalate values ++ ")"
  | ⟨key, .equals value⟩ => key ++ "=" ++ value
  | ⟨key, .differs value⟩ => key ++ "!=" ++ value

end Requirement

end LabelQuery
