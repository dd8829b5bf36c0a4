import LabelQuery.Requirement

/-!
# Selectors

A **selector** is a list of requirements, read as their conjunction. Their order has no influence
on what the selector matches; it is kept for the text of the selector and because evaluation stops
at the first requirement that fails, which `Selector.firstUnmet?` names.
-/

namespace LabelQuery

/-- A conjunction of requirements, in their order. -/
structure Selector where
  /-- The requirements. -/
  requirements : List Requirement
deriving DecidableEq, Repr

namespace Selector

instance : EmptyCollection Selector := ⟨⟨[]⟩⟩

/-- The requirements of one selector, then those of another. -/
instance : Append Selector := ⟨fun s t => ⟨s.requirements ++ t.requirements⟩⟩

/-- The requirements of all the selectors, in order. -/
def join (selectors : List Selector) : Selector :=
  ⟨selectors.flatMap requirements⟩

/-- The number of requirements. -/
def size (s : Selector) : Nat :=
  s.requirements.length

/-- Whether the selector asks for nothing. -/
def isEmpty (s : Selector) : Bool :=
  s.requirements.isEmpty

/-- The names of the labels that the selector asks about. -/
def keys (s : Selector) : List String :=
  s.requirements.map (·.key)

/-- The selector as text: its requirements, with a comma and a space between them. -/
def render (s : Selector) : String :=
  ", ".intercalate (s.requirements.map Requirement.render)

variable {α : Type} [Labelling α]

/-- The first requirement that does not hold of the labelling. -/
def firstUnmet? (labels : α) (s : Selector) : Option Requirement :=
  s.requirements.find? fun requirement => !requirement.holds labels

/-- Whether every requirement holds of the labelling. -/
def isMet (labels : α) (s : Selector) : Bool :=
  s.requirements.all (·.holds labels)

@[simp] theorem requirements_append (s t : Selector) :
    (s ++ t).requirements = s.requirements ++ t.requirements := rfl

end Selector

/-! ## Requirements that ask the same

Two requirements can differ in how they are written down and still ask the same of the same label:
where a condition lists values, neither their order nor how often a value is listed is part of what
it asks. Such requirements are **counterparts**. Two selectors are counterparts if each requirement
of either one has a counterpart in the other; how many it has and where they stand is left open. -/

/-- Whether two conditions are of one form and name the same values. -/
inductive Condition.Counterpart : Condition → Condition → Prop where
  /-- Both ask for the label. -/
  | present : Counterpart .present .present
  /-- Both rule the label out. -/
  | absent : Counterpart .absent .absent
  /-- Both list the same values, maybe none. -/
  | oneOf {values values' : List String} : (∀ value, value ∈ values ↔ value ∈ values') →
    Counterpart (.oneOf values) (.oneOf values')
  /-- Both rule out the same values, maybe none. -/
  | noneOf {values values' : List String} : (∀ value, value ∈ values ↔ value ∈ values') →
    Counterpart (.noneOf values) (.noneOf values')
  /-- Both ask for one value. -/
  | equals (value : String) : Counterpart (.equals value) (.equals value)
  /-- Both rule one value out. -/
  | differs (value : String) : Counterpart (.differs value) (.differs value)

/-- Whether two requirements are about one label, and their conditions are counterparts. -/
structure Requirement.Counterpart (requirement other : Requirement) : Prop where
  /-- They name the same label. -/
  key : requirement.key = other.key
  /-- They ask the same of it. -/
  condition : requirement.condition.Counterpart other.condition

/-- Whether each requirement of either selector has a counterpart in the other. -/
structure Selector.Counterpart (s t : Selector) : Prop where
  /-- What the first asks, the second asks. -/
  forth : ∀ requirement ∈ s.requirements, ∃ other ∈ t.requirements, requirement.Counterpart other
  /-- What the second asks, the first asks. -/
  back : ∀ other ∈ t.requirements, ∃ requirement ∈ s.requirements, requirement.Counterpart other

end LabelQuery
