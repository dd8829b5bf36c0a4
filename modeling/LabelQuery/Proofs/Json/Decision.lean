import LabelQuery.Proofs.Json.Denotation

/-!
# Whether a text denotes a value can be decided

The grammar says which texts denote which values without reading them, so nothing follows from it by
computation. But reading agrees with it: to find out whether a text denotes a value, the text is
read, and what comes out is compared with the value.
-/

namespace LabelQuery.Json

/-! ## Comparing values -/

namespace Value

mutual

/-- Whether two values are the same. -/
def isSame : Value → Value → Bool
  | .null, .null => true
  | .bool a, .bool b => a == b
  | .number, .number => true
  | .string s, .string t => s == t
  | .array items, .array items' => areSameItems items items'
  | .object fields, .object fields' => areSameFields fields fields'
  | _, _ => false

/-- Whether the items of two arrays are the same. -/
def areSameItems : List Value → List Value → Bool
  | [], [] => true
  | value :: items, value' :: items' => value.isSame value' && areSameItems items items'
  | _, _ => false

/-- Whether the fields of two objects are the same. -/
def areSameFields : List (String × Value) → List (String × Value) → Bool
  | [], [] => true
  | (name, value) :: fields, (name', value') :: fields' =>
    name == name' && value.isSame value' && areSameFields fields fields'
  | _, _ => false

end

mutual

/-- Comparing two values by their structure tells whether they are equal. It is proved together with
the same of the items of arrays and of the fields of objects, as values are built from lists of
values. -/
theorem isSame_iff : (value value' : Value) → (value.isSame value' = true ↔ value = value')
  | .array items, value' => by cases value' <;> simp [isSame, areSameItems_iff items]
  | .object fields, value' => by cases value' <;> simp [isSame, areSameFields_iff fields]
  | .null, value' | .number, value' | .bool _, value' | .string _, value' => by
    cases value' <;> simp [isSame]

/-- Comparing the items of two arrays in step tells whether the lists are equal; a list that ends
first is not equal to the other. -/
theorem areSameItems_iff : (items items' : List Value) →
    (areSameItems items items' = true ↔ items = items')
  | [], items' => by cases items' <;> simp [areSameItems]
  | value :: items, items' => by
    cases items' <;> simp [areSameItems, isSame_iff value, areSameItems_iff items]

/-- Comparing the fields of two objects in step, names and values, tells whether the lists are
equal. The order of the fields counts here. -/
theorem areSameFields_iff : (fields fields' : List (String × Value)) →
    (areSameFields fields fields' = true ↔ fields = fields')
  | [], fields' => by cases fields' <;> simp [areSameFields]
  | (name, value) :: fields, fields' => by
    cases fields' <;> simp [areSameFields, isSame_iff value, areSameFields_iff fields, Prod.ext_iff]

end

instance : DecidableEq Value := fun value value' => decidable_of_iff _ (isSame_iff value value')

end Value

/-! ## Comparing what is read -/

variable {range : NumberRange} {levels : Nat} {cs : List Char} {v : Value}

/-- Where a value is read, the text denotes that value and no other, and only if nothing trails
behind it. This is the case of `value_iff_padded` that a computation can decide. -/
theorem padded_iff_of_ok {taken : Taken Value cs} (read : value range levels cs = .ok taken) :
    taken.value = v ∧ trailing? taken.rest = none ↔ Padded (Denotes range levels) cs v := by
  have given : Gives (value range levels cs) taken.value taken.rest := ⟨taken.suffix, read⟩
  rw [← value_iff_padded]
  constructor
  · rintro ⟨rfl, clean⟩
    exact ⟨_, given, clean⟩
  · rintro ⟨rest, given', clean⟩
    obtain ⟨rfl, rfl⟩ := given.unique given'
    exact ⟨rfl, clean⟩

theorem not_padded_of_error {fault : Fault} (read : value range levels cs = .error fault) :
    ¬ Padded (Denotes range levels) cs v := by
  rw [← value_iff_padded, read]
  rintro ⟨rest, given, -⟩
  exact not_gives_error given

/-- Whether a text denotes a value is decided by reading it. -/
instance : Decidable (Padded (Denotes range levels) cs v) :=
  match read : value range levels cs with
  | .error _ => isFalse (not_padded_of_error read)
  | .ok _ => decidable_of_iff _ (padded_iff_of_ok read)

example :
    Padded (Denotes .binary64 1) " [0, \"\\n\"] ".toList (.array [.number, .string "\n"]) := by
  decide +kernel

example : ¬ Padded (Denotes .binary64 1) "[[]]".toList (.array [.array []]) := by decide +kernel

end LabelQuery.Json
