import LabelQuery.Selector.Symbols
import LabelQuery.Structured.Decoding
import LabelQuery.Structured.Format
import LabelQuery.Text.LowerCase
import Mathlib.Data.List.Forall2

/-!
# Records are recognised by their format

`Record.ofValue?` finds the record that a value is by looking for its fields one name at a time, and
`Record.toRequirement` tries the names of operators one after another. Both agree with the format:
`ofValue?_eq_some_iff` and `toRequirement_eq_ok_iff`.

A value that is a record is tried before an array of records, which would matter if some array were
both. None is, since the first item of the one is a string and of the other a record
(`IsRecord.not_records`); so the two attempts are one relation, `listOfValue?_eq_some_iff`.

What is wrong with a record that states no requirement agrees with the format too,
`toRequirement_eq_error_iff`.
-/

namespace LabelQuery.Structured

open Json (Value)

/-! ## Results in order -/

section Results

variable {α β γ ε δ : Type}

/-- What there is for each element there is for the list, in order, and with as many results as
there are elements. -/
theorem exists_forall₂_iff {R : α → β → Prop} {as : List α} :
    (∃ bs, List.Forall₂ R as bs) ↔ ∀ a ∈ as, ∃ b, R a b := by
  induction as with
  | nil => simp
  | cons a as ih =>
    rw [List.forall_mem_cons, ← ih]
    constructor
    · intro ⟨bs, all⟩
      cases all with
      | cons head tail => exact ⟨⟨_, head⟩, _, tail⟩
    · intro ⟨⟨b, head⟩, bs, tail⟩
      exact ⟨b :: bs, .cons head tail⟩

/-- Two steps for each element are two steps for the list: what lies between the two can be
collected in a list of its own. -/
theorem exists_forall₂_forall₂ {R : α → β → Prop} {S : β → γ → Prop} {as : List α} {cs : List γ}
    (all : List.Forall₂ (fun a c => ∃ b, R a b ∧ S b c) as cs) :
    ∃ bs, List.Forall₂ R as bs ∧ List.Forall₂ S bs cs := by
  induction all with
  | nil => exact ⟨[], .nil, .nil⟩
  | cons both _ ih =>
    obtain ⟨b, first, second⟩ := both
    obtain ⟨bs, firsts, seconds⟩ := ih
    exact ⟨b :: bs, .cons first firsts, .cons second seconds⟩

theorem bind_eq_ok_iff {result : Except ε α} {next : α → Except ε β} {b : β} :
    result >>= next = .ok b ↔ ∃ a, result = .ok a ∧ next a = .ok b := by
  cases result with
  | error e => exact iff_of_false nofun nofun
  | ok a => exact ⟨fun h => ⟨a, rfl, h⟩, fun ⟨_, rfl, h⟩ => h⟩

theorem mapError_eq_ok_iff {result : Except ε α} {f : ε → δ} {a : α} :
    result.mapError f = .ok a ↔ result = .ok a := by
  cases result with
  | error e => exact iff_of_false nofun nofun
  | ok b => simp [Except.mapError]

theorem mapError_eq_error_iff {result : Except ε α} {f : ε → δ} {d : δ} :
    result.mapError f = .error d ↔ ∃ e, result = .error e ∧ f e = d := by
  cases result with
  | error e => simp [Except.mapError]
  | ok a => simp [Except.mapError]

/-- A traversal that may come to nothing comes to a list exactly if each element comes to the item
at its place. -/
theorem mapM_eq_some_iff {f : α → Option β} {as : List α} {bs : List β} :
    as.mapM f = some bs ↔ List.Forall₂ (fun a b => f a = some b) as bs := by
  induction as generalizing bs with
  | nil => simp [eq_comm]
  | cons a as ih =>
    simp only [List.mapM_cons, Option.bind_eq_bind, Option.bind_eq_some_iff, Option.pure_def,
      Option.some.injEq, List.forall₂_cons_left_iff, ih]
    constructor
    · intro ⟨b, head, bs, tail, same⟩
      exact ⟨b, bs, head, tail, same.symm⟩
    · intro ⟨b, bs, head, tail, same⟩
      exact ⟨b, head, bs, tail, same.symm⟩

theorem mapM_eq_ok_iff {f : α → Except ε β} {as : List α} {bs : List β} :
    as.mapM f = .ok bs ↔ List.Forall₂ (fun a b => f a = .ok b) as bs := by
  induction as generalizing bs with
  | nil => simp [pure, Except.pure, eq_comm]
  | cons a as ih =>
    simp only [List.mapM_cons, bind_eq_ok_iff, List.forall₂_cons_left_iff, ih, pure, Except.pure,
      Except.ok.injEq]
    constructor
    · intro ⟨b, head, bs, tail, same⟩
      exact ⟨b, bs, head, tail, same.symm⟩
    · intro ⟨b, bs, head, tail, same⟩
      exact ⟨b, head, bs, tail, same.symm⟩

theorem bind_eq_error_iff {result : Except ε α} {next : α → Except ε β} {e : ε} :
    result >>= next = .error e ↔ result = .error e ∨ ∃ a, result = .ok a ∧ next a = .error e := by
  cases result with
  | error e' =>
    show Except.error e' = .error e ↔ _
    simp
  | ok a =>
    show next a = .error e ↔ _
    simp

theorem bind_pure_eq_error_iff {result : Except ε α} {f : α → β} {e : ε} :
    (result >>= fun a => pure (f a)) = .error e ↔ result = .error e := by
  rw [bind_eq_error_iff]
  apply or_iff_left
  intro h
  obtain ⟨_, -, made⟩ := h
  cases made

/-- What is found first in a list is its head, or is found first behind the head. -/
theorem exists_first_cons_iff {P Q : α → Prop} {a : α} {as : List α} :
    (∃ before found after, a :: as = before ++ found :: after ∧
      (∀ earlier ∈ before, P earlier) ∧ Q found) ↔
    Q a ∨ P a ∧ ∃ before found after, as = before ++ found :: after ∧
      (∀ earlier ∈ before, P earlier) ∧ Q found := by
  constructor
  · intro ⟨before, found, after, whole, others, holds⟩
    cases before with
    | nil =>
      obtain ⟨rfl, -⟩ := List.cons.inj whole
      exact .inl holds
    | cons first before =>
      obtain ⟨rfl, tail⟩ := List.cons.inj whole
      obtain ⟨head, others⟩ := List.forall_mem_cons.mp others
      exact .inr ⟨head, before, found, after, tail, others, holds⟩
  · intro h
    rcases h with holds | ⟨head, before, found, after, rfl, others, holds⟩
    · exact ⟨[], a, as, rfl, nofun, holds⟩
    · exact ⟨a :: before, found, after, rfl, List.forall_mem_cons.mpr ⟨head, others⟩, holds⟩

/-- A traversal fails with the first failure that there is. -/
theorem mapM_eq_error_iff {f : α → Except ε β} {as : List α} {e : ε} :
    as.mapM f = .error e ↔ ∃ before failing after, as = before ++ failing :: after ∧
      (∀ earlier ∈ before, ∃ b, f earlier = .ok b) ∧ f failing = .error e := by
  induction as with
  | nil => simp [pure, Except.pure]
  | cons a as ih =>
    rw [List.mapM_cons, bind_eq_error_iff, exists_first_cons_iff, ← ih]
    simp only [bind_pure_eq_error_iff, exists_and_right]

end Results

/-! ## Fields -/

section Fields

variable {name : String} {fields : List (String × Value)}

/-- No value is found under a name exactly if no field has it, so a missing field need not be told
from an empty search. -/
theorem fieldsNamed_eq_nil_iff : Record.fieldsNamed name fields = [] ↔ IsMissing name fields := by
  simp only [Record.fieldsNamed, List.map_eq_nil_iff, List.filter_eq_nil_iff, beq_iff_eq, IsMissing]

/-- One value is found under a name exactly if the name occurs once and holds it; a name that is
repeated gives more. -/
theorem fieldsNamed_eq_singleton_iff {value : Value} :
    Record.fieldsNamed name fields = [value] ↔ OccursOnce name value fields := by
  unfold Record.fieldsNamed OccursOnce
  constructor
  · intro h
    obtain ⟨⟨found, _⟩, rest, only, rfl, none⟩ := List.map_eq_cons_iff.mp h
    obtain rfl := List.map_eq_nil_iff.mp none
    obtain ⟨before, after, rfl, others, same, others'⟩ := List.filter_eq_cons_iff.mp only
    obtain rfl : found = name := by simpa using same
    refine ⟨before, after, rfl, fun field mem => ?_⟩
    rcases List.mem_append.mp mem with mem | mem
    · simpa using others field mem
    · simpa using List.filter_eq_nil_iff.mp others' field mem
  · rintro ⟨before, after, rfl, others⟩
    have without : ∀ part : List (String × Value), (∀ field ∈ part, field.1 ≠ name) →
        part.filter (·.1 == name) = [] := fun part all =>
      List.filter_eq_nil_iff.mpr fun field mem => by simpa using all field mem
    rw [List.filter_append, List.filter_cons_of_pos (by simp),
      without before fun field mem => others field (List.mem_append_left _ mem),
      without after fun field mem => others field (List.mem_append_right _ mem)]
    rfl

end Fields

/-! ## Values -/

theorem string?_eq_some_iff {value : Value} {s : String} :
    value.string? = some s ↔ value = .string s := by
  cases value <;> simp [Value.string?]

/-- A list of values gives texts exactly if it is the list of these strings, so one item of another
kind spoils all of it. -/
theorem mapM_string?_eq_some_iff {items : List Value} {values : List String} :
    items.mapM Value.string? = some values ↔ items = values.map .string := by
  rw [mapM_eq_some_iff]
  simp only [string?_eq_some_iff]
  constructor
  · intro all
    induction all with
    | nil => rfl
    | cons head _ ih => rw [head, ih, List.map_cons]
  · rintro rfl
    induction values with
    | nil => exact .nil
    | cons value values ih => exact .cons rfl ih

/-- The values that a field gives are found by the format: null for none of them, and otherwise an
array of nothing but strings. -/
theorem valuesOf?_eq_some_iff {value : Value} {values? : Option (List String)} :
    valuesOf? value = some values? ↔ IsValues value values? := by
  constructor
  · intro h
    unfold valuesOf? at h
    split at h
    · cases h
      exact .null
    · obtain ⟨values, texts, rfl⟩ := Option.map_eq_some_iff.mp h
      obtain rfl := mapM_string?_eq_some_iff.mp texts
      exact .strings values
    · cases h
  · intro h
    cases h with
    | null => rfl
    | strings values =>
      rw [valuesOf?, mapM_string?_eq_some_iff.mpr rfl]
      rfl

/-! ## Records -/

/-- The record of an object is found by the format: an operator and a key that are strings, values
at most once, and no name repeated. -/
theorem ofFields?_eq_some_iff {fields : List (String × Value)} {record : Record} :
    Record.ofFields? fields = some record ↔ IsRecord (.object fields) record := by
  unfold Record.ofFields?
  constructor
  · intro h
    split at h
    · next operator key one one' none =>
      simp only [Option.bind_eq_bind, Option.bind_eq_some_iff, Option.pure_def, Option.some.injEq,
        string?_eq_some_iff] at h
      obtain ⟨operator, rfl, key, rfl, rfl⟩ := h
      exact .plain (fieldsNamed_eq_singleton_iff.mp one) (fieldsNamed_eq_singleton_iff.mp one')
        (fieldsNamed_eq_nil_iff.mp none)
    · next operator key values one one' one'' =>
      simp only [Option.bind_eq_bind, Option.bind_eq_some_iff, Option.pure_def, Option.some.injEq,
        string?_eq_some_iff, valuesOf?_eq_some_iff] at h
      obtain ⟨operator, rfl, key, rfl, values?, isValues, rfl⟩ := h
      exact .valued (fieldsNamed_eq_singleton_iff.mp one) (fieldsNamed_eq_singleton_iff.mp one')
        (fieldsNamed_eq_singleton_iff.mp one'') isValues
    · cases h
  · intro h
    cases h with
    | plain one one' none =>
      rw [fieldsNamed_eq_singleton_iff.mpr one, fieldsNamed_eq_singleton_iff.mpr one',
        fieldsNamed_eq_nil_iff.mpr none]
      rfl
    | valued one one' one'' isValues =>
      rw [fieldsNamed_eq_singleton_iff.mpr one, fieldsNamed_eq_singleton_iff.mpr one',
        fieldsNamed_eq_singleton_iff.mpr one'']
      simp only [Value.string?, valuesOf?_eq_some_iff.mpr isValues]
      rfl

/-- The record of an array is found by the format: two strings, and then nothing or what can stand
for the values. -/
theorem ofItems?_eq_some_iff {items : List Value} {record : Record} :
    Record.ofItems? items = some record ↔ IsRecord (.array items) record := by
  unfold Record.ofItems?
  constructor
  · intro h
    split at h
    · simp only [Option.bind_eq_bind, Option.bind_eq_some_iff, Option.pure_def, Option.some.injEq,
        string?_eq_some_iff] at h
      obtain ⟨operator, rfl, key, rfl, rfl⟩ := h
      exact .pair operator key
    · simp only [Option.bind_eq_bind, Option.bind_eq_some_iff, Option.pure_def, Option.some.injEq,
        string?_eq_some_iff, valuesOf?_eq_some_iff] at h
      obtain ⟨operator, rfl, key, rfl, values?, isValues, rfl⟩ := h
      exact .triple operator key isValues
    · cases h
  · intro h
    cases h with
    | pair operator key => rfl
    | triple operator key isValues =>
      simp only [Value.string?, valuesOf?_eq_some_iff.mpr isValues]
      rfl

/-- **Records are recognised by their format**, in either of their forms, and a value that is
neither an object nor an array is none. -/
theorem ofValue?_eq_some_iff {value : Value} {record : Record} :
    Record.ofValue? value = some record ↔ IsRecord value record := by
  cases value with
  | object fields => exact ofFields?_eq_some_iff
  | array items => exact ofItems?_eq_some_iff
  | null | bool _ | number | string _ => exact iff_of_false nofun nofun

/-- **No record is an array of records**: its first item is a string. So it does not matter which of
the two is tried first. -/
theorem IsRecord.not_records {items : List Value} {record : Record} {records : List Record}
    (h : IsRecord (.array items) record) : ¬ List.Forall₂ IsRecord items records := by
  intro all
  cases h with
  | pair operator key =>
    cases all with
    | cons head _ => cases head
  | triple operator key _ =>
    cases all with
    | cons head _ => cases head

/-- **The records of a value are found by the format**, whichever of the two forms it has. -/
theorem listOfValue?_eq_some_iff {value : Value} {records : List Record} :
    Record.listOfValue? value = some records ↔ HoldsRecords value records := by
  have several {items : List Value} : items.mapM Record.ofValue? = some records ↔
      List.Forall₂ IsRecord items records := by
    simp only [mapM_eq_some_iff, ofValue?_eq_some_iff]
  unfold Record.listOfValue?
  constructor
  · intro h
    split at h
    · next record one =>
      cases h
      exact .one (ofValue?_eq_some_iff.mp one)
    · split at h
      · exact .several (several.mp h)
      · cases h
  · intro h
    cases h with
    | one isRecord => rw [ofValue?_eq_some_iff.mpr isRecord]
    | @several items _ all =>
      cases one : Record.ofValue? (.array items) with
      | some record => exact absurd all (ofValue?_eq_some_iff.mp one).not_records
      | none => exact several.mpr all

/-! ## Requirements -/

/-- An operator has a known name in some case of ASCII letters exactly if it is that name once
lowered, for known names are in lower case. -/
theorem sameName_iff {name operator : String} (known : name ∈ operatorNames) :
    SameName operator name ↔ operator.toLower = name := by
  have lowered : name.toList.map Char.toLower = name.toList := by
    revert name
    decide
  rw [SameName, lowered, ← String.toList_inj, Text.toList_toLower]

/-- **Lower-casing by the rules of Unicode admits no further operator**: what it makes an operator's
name differs from the name in the case of ASCII letters at most. -/
theorem sameName_iff_apply (lowering : Text.LowerCasing) {name operator : String}
    (known : name ∈ operatorNames) :
    lowering.apply operator = name ↔ SameName operator name := by
  have all : (operatorNames.all fun name => name.toList.all fun c =>
      decide (c.toNat < 128 ∧ c ≠ 'k')) = true := by decide
  have plain : ∀ c ∈ name.toList, c.toNat < 128 ∧ c ≠ 'k' := fun c mem =>
    of_decide_eq_true (List.all_eq_true.mp (List.all_eq_true.mp all name known) c mem)
  rw [lowering.apply_eq_iff plain, sameName_iff known]

/-- What an operator is called. -/
def Operator.name : Operator → String
  | .membership .among => "in"
  | .membership .outside => "notin"
  | .presence => "exists"
  | .absence => "notexists"

theorem Operator.name_mem (operator : Operator) : operator.name ∈ operatorNames := by
  cases operator with
  | membership polarity => cases polarity <;> decide
  | presence => decide
  | absence => decide

/-- An operator is recognised exactly if its name is written in some case of ASCII letters, for each
of the operators alike. -/
theorem ofName?_eq_some_iff {name : String} (operator : Operator) :
    Operator.ofName? name = some operator ↔ SameName name operator.name := by
  rw [sameName_iff operator.name_mem]
  unfold Operator.ofName?
  constructor
  · intro h
    split at h
    · next same =>
      cases h
      exact same
    · next same =>
      cases h
      exact same
    · next same =>
      cases h
      exact same
    · next same =>
      cases h
      exact same
    · cases h
  · intro same
    rw [same]
    cases operator with
    | membership polarity => cases polarity <;> rfl
    | presence => rfl
    | absence => rfl

/-- An operator is unknown exactly if it is written as none of the known names, in whichever case of
ASCII letters. -/
theorem ofName?_eq_none_iff {name : String} :
    Operator.ofName? name = none ↔ ∀ known ∈ operatorNames, ¬ SameName name known := by
  have named (operator : Operator) : Operator.ofName? name ≠ some operator ↔
      ¬ SameName name operator.name := not_congr (ofName?_eq_some_iff operator)
  simp only [Option.eq_none_iff_forall_ne_some, named]
  constructor
  · intro h known mem
    simp only [operatorNames, List.mem_cons, List.not_mem_nil, or_false] at mem
    rcases mem with rfl | rfl | rfl | rfl
    · exact h .presence
    · exact h .absence
    · exact h (.membership .among)
    · exact h (.membership .outside)
  · intro h operator
    exact h _ operator.name_mem

/-- **Records state what their operators say.** The values count where the operator asks for some,
and elsewhere they are not looked at. -/
theorem toRequirement_eq_ok_iff {record : Record} {requirement : Requirement} :
    record.toRequirement = .ok requirement ↔ Converts record requirement := by
  obtain ⟨operator, key, values?⟩ := record
  unfold Record.toRequirement
  constructor
  · intro h
    split at h
    · cases h
    · next known =>
      cases h
      exact .present ((ofName?_eq_some_iff _).mp known)
    · next known =>
      cases h
      exact .absent ((ofName?_eq_some_iff _).mp known)
    · next polarity known =>
      have same := (ofName?_eq_some_iff _).mp known
      split at h
      · next value values given =>
        cases h
        obtain rfl : values? = some (value :: values) := given
        cases polarity with
        | among => exact .oneOf same (List.cons_ne_nil _ _)
        | outside => exact .noneOf same (List.cons_ne_nil _ _)
      · cases h
  · intro h
    cases h with
    | present same => rw [(ofName?_eq_some_iff .presence).mpr same]
    | absent same => rw [(ofName?_eq_some_iff .absence).mpr same]
    | oneOf same inhabited =>
      obtain ⟨value, values, rfl⟩ := List.exists_cons_of_ne_nil inhabited
      rw [(ofName?_eq_some_iff (.membership .among)).mpr same]
      rfl
    | noneOf same inhabited =>
      obtain ⟨value, values, rfl⟩ := List.exists_cons_of_ne_nil inhabited
      rw [(ofName?_eq_some_iff (.membership .outside)).mpr same]
      rfl

/-- An operator is unknown exactly if it has none of the names in lower case. -/
theorem ofName?_eq_none_iff_apply (lowering : Text.LowerCasing) {name : String} :
    Operator.ofName? name = none ↔ lowering.apply name ∉ operatorNames := by
  rw [ofName?_eq_none_iff]
  constructor
  · intro unknown mem
    exact unknown _ mem ((sameName_iff_apply lowering mem).mp rfl)
  · intro other known mem same
    rw [← (sameName_iff_apply lowering mem).mpr same] at mem
    exact other mem

/-- An operator asks for values exactly if it is one of the two names in lower case. -/
theorem exists_membership_iff_apply (lowering : Text.LowerCasing) {name : String} :
    (∃ polarity, Operator.ofName? name = some (.membership polarity)) ↔
      lowering.apply name = "in" ∨ lowering.apply name = "notin" := by
  rw [sameName_iff_apply lowering (by decide), sameName_iff_apply lowering (by decide)]
  simp only [ofName?_eq_some_iff]
  constructor
  · intro ⟨polarity, same⟩
    cases polarity with
    | among => exact .inl same
    | outside => exact .inr same
  · intro h
    rcases h with same | same
    · exact ⟨.among, same⟩
    · exact ⟨.outside, same⟩

/-- **Records that state nothing fail with what is wrong with them**, and the operator is named as
it was written, not as it is lowered. -/
theorem toRequirement_eq_error_iff (lowering : Text.LowerCasing) {record : Record}
    {error : RecordError} :
    record.toRequirement = .error error ↔ FailsWith lowering record error := by
  obtain ⟨operator, key, values?⟩ := record
  unfold Record.toRequirement
  constructor
  · intro h
    split at h
    · next unknown =>
      cases h
      exact .unknownOperator ((ofName?_eq_none_iff_apply lowering).mp unknown)
    · cases h
    · cases h
    · next polarity known =>
      have named := (exists_membership_iff_apply lowering).mp ⟨polarity, known⟩
      split at h
      · cases h
      · next other =>
        cases h
        refine .missingValues named ?_
        cases values? with
        | none => exact .inl rfl
        | some values =>
          cases values with
          | nil => exact .inr rfl
          | cons value values => exact absurd rfl (other value values)
  · intro h
    cases h with
    | unknownOperator unknown => rw [(ofName?_eq_none_iff_apply lowering).mpr unknown]
    | missingValues named missing =>
      obtain ⟨polarity, known⟩ := (exists_membership_iff_apply lowering).mpr named
      rw [known]
      rcases missing with rfl | rfl <;> rfl

/-- What a record states is set-based and lists values where there have to be some, for each
operator that the format knows. -/
theorem Converts.isListed {record : Record} {requirement : Requirement}
    (h : Converts record requirement) :
    requirement.condition.isEquality = false ∧ requirement.condition.IsListed := by
  cases h with
  | present _ | absent _ => exact ⟨rfl, trivial⟩
  | oneOf _ inhabited | noneOf _ inhabited => exact ⟨rfl, inhabited⟩

end LabelQuery.Structured
