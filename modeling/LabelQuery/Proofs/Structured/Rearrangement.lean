import LabelQuery.Proofs.Json.Decision
import LabelQuery.Proofs.Structured.Precedence

/-!
# Rearranged texts are decoded alike

The order of the fields of a record does not matter, and neither do fields of other names or a null
for missing values. **The law** (`Selector.decode_rearranged`) is about two runs, and about all that
can come of them: the selector, the error of a record, or that there are no records.

A value counts in three ways: as the content of a field of a record, as a record, and as an array of
records. `Alike` says that two values count the same in all three. One change keeps to it
(`Change.alike`), by induction on how deep in the value it is made, and so does any number of them
(`Rearranged.alike`).

An object is a record by the contents of its three fields, each as often as it occurs
(`isRecord_object_iff`), so a name that is repeated anywhere is seen wherever it stands.
-/

namespace LabelQuery

open Structured
open Json (Value NumberRange Padded Denotes nestingLimit)

namespace Structured

/-! ## What an object is a record by -/

section Fields

variable {fields fields' before after : List (String × Value)} {name other : String}
  {value : Value} {record : Record}

/-- What a value can be in a field of a record: a text, or the values. -/
def content (value : Value) : Option String × Option (Option (List String)) :=
  (value.string?, valuesOf? value)

theorem fieldsNamed_append : Record.fieldsNamed name (before ++ after) =
    Record.fieldsNamed name before ++ Record.fieldsNamed name after := by
  simp only [Record.fieldsNamed, List.filter_append, List.map_append]

theorem fieldsNamed_cons : Record.fieldsNamed name ((other, value) :: after) =
    (if other = name then [value] else []) ++ Record.fieldsNamed name after := by
  by_cases same : other = name
  · simp [Record.fieldsNamed, same]
  · simp [Record.fieldsNamed, same]

/-- A field of another name is passed over, so wherever it is put in, the values under the name stay
what they were. -/
theorem fieldsNamed_insert (apart : other ≠ name) :
    Record.fieldsNamed name (before ++ (other, value) :: after) =
      Record.fieldsNamed name (before ++ after) := by
  rw [fieldsNamed_append, fieldsNamed_cons, if_neg apart, List.nil_append, fieldsNamed_append]

/-- **An object is a record by its fields of three names**: it has one operator and one key, which
are texts, and at most once some values. -/
theorem isRecord_object_iff : IsRecord (.object fields) record ↔
    (Record.fieldsNamed "operator" fields).map Value.string? = [some record.operator] ∧
    (Record.fieldsNamed "key" fields).map Value.string? = [some record.key] ∧
    ((Record.fieldsNamed "values" fields).map valuesOf? = [] ∧ record.values? = none ∨
      (Record.fieldsNamed "values" fields).map valuesOf? = [some record.values?]) := by
  simp only [List.map_eq_singleton_iff, List.map_eq_nil_iff, string?_eq_some_iff,
    valuesOf?_eq_some_iff, fieldsNamed_eq_singleton_iff, fieldsNamed_eq_nil_iff]
  constructor
  · intro h
    cases h with
    | plain operator key missing =>
      exact ⟨⟨_, operator, rfl⟩, ⟨_, key, rfl⟩, .inl ⟨missing, rfl⟩⟩
    | valued operator key values isValues =>
      exact ⟨⟨_, operator, rfl⟩, ⟨_, key, rfl⟩, .inr ⟨_, values, isValues⟩⟩
  · obtain ⟨operator, key, values?⟩ := record
    rintro ⟨⟨_, operator, rfl⟩, ⟨_, key, rfl⟩, ⟨missing, rfl⟩ | ⟨_, values, isValues⟩⟩
    · exact .plain operator key missing
    · exact .valued operator key values isValues

/-- Two objects are the same record if their fields of the three names have the same contents, in
whichever order. -/
theorem isRecord_object_congr
    (same : ∀ name ∈ recordFields, ((Record.fieldsNamed name fields).map content).Perm
      ((Record.fieldsNamed name fields').map content)) :
    IsRecord (.object fields) record ↔ IsRecord (.object fields') record := by
  have texts : ∀ name ∈ recordFields, ((Record.fieldsNamed name fields).map Value.string?).Perm
      ((Record.fieldsNamed name fields').map Value.string?) := by
    intro name mem
    have firsts := (same name mem).map Prod.fst
    rw [List.map_map, List.map_map] at firsts
    exact firsts
  have values : ∀ name ∈ recordFields, ((Record.fieldsNamed name fields).map valuesOf?).Perm
      ((Record.fieldsNamed name fields').map valuesOf?) := by
    intro name mem
    have seconds := (same name mem).map Prod.snd
    rw [List.map_map, List.map_map] at seconds
    exact seconds
  have single {α : Type} {as bs : List α} (perm : as.Perm bs) (a : α) : as = [a] ↔ bs = [a] := by
    rw [← List.perm_singleton, perm.congr_left, List.perm_singleton]
  have empty {α : Type} {as bs : List α} (perm : as.Perm bs) : as = [] ↔ bs = [] := by
    rw [← List.perm_nil, perm.congr_left, List.perm_nil]
  rw [isRecord_object_iff, isRecord_object_iff, single (texts "operator" (by decide)),
    single (texts "key" (by decide)), single (values "values" (by decide)),
    empty (values "values" (by decide))]

/-- Null says the same as missing values: the object is the same record with it, or no record in
either case. -/
theorem isRecord_insertNull (missing : IsMissing "values" (before ++ after)) :
    IsRecord (.object (before ++ after)) record ↔
      IsRecord (.object (before ++ ("values", .null) :: after)) record := by
  have none := fieldsNamed_eq_nil_iff.mpr missing
  have one : Record.fieldsNamed "values" (before ++ ("values", .null) :: after) = [.null] :=
    fieldsNamed_eq_singleton_iff.mpr ⟨before, after, rfl, missing⟩
  rw [isRecord_object_iff, isRecord_object_iff, fieldsNamed_insert (by decide),
    fieldsNamed_insert (by decide), none, one]
  simp [valuesOf?, eq_comm]

end Fields

/-! ## Values that count the same -/

/-- Whether two values count the same, as the content of a record's field, as a record, and as an
array of records. -/
structure Alike (value value' : Value) : Prop where
  content : content value = content value'
  record : Record.ofValue? value = Record.ofValue? value'
  records : Record.listOfValue? value = Record.listOfValue? value'

namespace Alike

variable {value value' value'' : Value}

theorem refl (value : Value) : Alike value value := ⟨rfl, rfl, rfl⟩

theorem symm (h : Alike value value') : Alike value' value :=
  ⟨h.content.symm, h.record.symm, h.records.symm⟩

theorem trans (first : Alike value value') (second : Alike value' value'') : Alike value value'' :=
  ⟨first.content.trans second.content, first.record.trans second.record,
    first.records.trans second.records⟩

theorem string? (h : Alike value value') : value.string? = value'.string? :=
  congrArg Prod.fst h.content

theorem valuesOf? (h : Alike value value') : valuesOf? value = Structured.valuesOf? value' :=
  congrArg Prod.snd h.content

/-- Objects that are the same record count the same, since an object is never an operator, a key, or
values of a record, and never an array of records. -/
theorem of_isRecord {fields fields' : List (String × Value)}
    (same : ∀ record, IsRecord (.object fields) record ↔ IsRecord (.object fields') record) :
    Alike (.object fields) (.object fields') := by
  have record : Record.ofValue? (.object fields) = Record.ofValue? (.object fields') := by
    ext record
    rw [ofValue?_eq_some_iff, ofValue?_eq_some_iff, same]
  exact ⟨rfl, record, by simp only [Record.listOfValue?, record]⟩

/-- Arrays count the same if their items do, one by one; as a record an array is looked at up to its
third item. -/
theorem of_forall₂ {items items' : List Value} (all : List.Forall₂ Alike items items') :
    Alike (.array items) (.array items') := by
  have traverse {α : Type} {f : Value → Option α}
      (same : ∀ {v w}, Alike v w → f v = f w) : items.mapM f = items'.mapM f := by
    induction all with
    | nil => rfl
    | cons head _ ih => rw [List.mapM_cons, List.mapM_cons, same head, ih]
  have record : Record.ofItems? items = Record.ofItems? items' := by
    -- only two items, or three, are looked at
    cases all with
    | nil => rfl
    | cons first all =>
      cases all with
      | nil => rfl
      | cons second all =>
        cases all with
        | nil => simp only [Record.ofItems?, first.string?, second.string?]
        | cons third all =>
          cases all with
          | nil => simp only [Record.ofItems?, first.string?, second.string?, third.valuesOf?]
          | cons _ _ => rfl
  have whole : Record.ofValue? (.array items) = Record.ofValue? (.array items') := record
  refine ⟨?_, whole, ?_⟩
  · simp only [Structured.content, Structured.valuesOf?, traverse string?, Value.string?]
  · simp only [Record.listOfValue?, whole, traverse Alike.record]

end Alike

/-! ## One change, and any number of them -/

/-- **A change leaves a value to count as it did.** The induction goes down to where in the value
the change is made. -/
theorem Change.alike {value value' : Value} (change : Change value value') : Alike value value' := by
  induction change with
  | permute perm =>
    refine .of_isRecord fun record => isRecord_object_congr fun name _ => ?_
    exact ((perm.filter _).map _).map _
  | @insert before after other value unknown =>
    refine .of_isRecord fun record => isRecord_object_congr fun name known => ?_
    have apart : other ≠ name := by
      rintro rfl
      exact unknown known
    rw [fieldsNamed_insert apart]
  | insertNull missing => exact .of_isRecord fun record => isRecord_insertNull missing
  | @field before after name value value' _ ih =>
    refine .of_isRecord fun record => isRecord_object_congr fun known _ => .of_eq ?_
    -- the field has the same name, and the same content
    rw [fieldsNamed_append, fieldsNamed_append, fieldsNamed_cons, fieldsNamed_cons]
    by_cases same : name = known
    · simp only [if_pos same, List.map_append, List.map_singleton, ih.content]
    · simp only [if_neg same]
  | item _ ih =>
    have refl (items : List Value) : List.Forall₂ Alike items items :=
      List.forall₂_same.mpr fun value _ => .refl value
    exact .of_forall₂ (List.rel_append (refl _) (.cons ih (refl _)))

/-- **Rearranged values count the same**, after any number of changes in either direction, by what
one change does. -/
theorem Rearranged.alike {value value' : Value} (rearranged : Rearranged value value') :
    Alike value value' := by
  induction rearranged with
  | rel _ _ change => exact change.alike
  | refl value => exact .refl value
  | symm _ _ _ ih => exact ih.symm
  | trans _ _ _ _ _ first second => exact first.trans second

/-- The records of a text that denotes a value are found, unless the value holds none; no text that
denotes one is malformed. -/
theorem records_of_denotes {range : NumberRange} {text : String} {value : Value}
    (denotes : Padded (Denotes range nestingLimit) text.toList value) :
    records text range = (Record.listOfValue? value).elim (.error .unmatched) .ok := by
  obtain ⟨rest, ⟨_, read⟩, clean⟩ := Json.value_iff_padded.mpr denotes
  unfold records
  simp only [read, clean]
  cases Record.listOfValue? value <;> rfl

end Structured

/-- **The order of fields and fields of other names do not matter.** Two JSON texts whose values are
rearranged have the same outcome: the same selector, the same error of the same record, or that
there are no records. In objects of any depth the fields may come in any order, fields with other
names than those of a record may be put in or taken out, with any values and however often, and null
may stand for missing values. What else a text consists of, such as its blanks and its escapes, is
not held against it either. -/
theorem Selector.decode_rearranged {range : NumberRange} {text text' : String}
    {value value' : Value}
    (denotes : Padded (Denotes range nestingLimit) text.toList value)
    (denotes' : Padded (Denotes range nestingLimit) text'.toList value')
    (rearranged : Rearranged value value') :
    decode text range = decode text' range ∧
      ∀ malformation, decode text range ≠ .error (.malformed malformation) := by
  have found := records_of_denotes denotes
  constructor
  · rw [decode, decode, found, records_of_denotes denotes', rearranged.alike.records]
  · intro malformation
    rw [Ne, decode_eq_malformed_iff, found]
    cases Record.listOfValue? value <;> simp

/-- A record whose fields change places and have others put around them, one of these twice and
with an object in it, and null for the values that its operator asks for. -/
theorem Selector.decode_rearranged_missingValues :
    let text := "[\x7b\"operator\":\"In\",\"key\":\"a\"\x7d]"
    let text' := "[\x7b\"n\":[\x7b\"key\":0\x7d],\"key\":\"a\",\"values\":null," ++
      "\"operator\":\"In\",\"n\":[]\x7d]"
    decode text .binary64 = decode text' .binary64 ∧
      decode text .binary64 = .error (.record (.missingValues "In" "a")) := by
  intro text text'
  let operator : String × Value := ("operator", .string "In")
  let key : String × Value := ("key", .string "a")
  let note : Value := .array [.object [("key", .number)]]
  have denotes : Padded (Denotes .binary64 nestingLimit) text.toList
      (.array [.object [operator, key]]) := by
    decide +kernel
  have denotes' : Padded (Denotes .binary64 nestingLimit) text'.toList (.array [.object
      [("n", note), key, ("values", .null), operator, ("n", .array [])]]) := by
    decide +kernel
  have swapped : Change (.object [operator, key]) (.object [key, operator]) :=
    .permute (.swap _ _ _)
  have nulled : Change (.object [key, operator]) (.object [key, ("values", .null), operator]) :=
    @Change.insertNull [key] [operator] (by unfold IsMissing; decide)
  have once : Change (.object [key, ("values", .null), operator])
      (.object [("n", note), key, ("values", .null), operator]) :=
    @Change.insert [] _ _ note (by decide)
  have twice : Change (.object [("n", note), key, ("values", .null), operator])
      (.object [("n", note), key, ("values", .null), operator, ("n", .array [])]) :=
    @Change.insert [("n", note), key, ("values", .null), operator] [] _ _ (by decide)
  have step {value value' : Value} (change : Change value value') :
      Rearranged (.array [value]) (.array [value']) :=
    .rel _ _ (@Change.item [] [] _ _ change)
  have rearranged := ((step swapped).trans _ _ _ (step nulled)).trans _ _ _
    ((step once).trans _ _ _ (step twice))
  exact ⟨(decode_rearranged denotes denotes' rearranged).1, by decide +kernel⟩

end LabelQuery
