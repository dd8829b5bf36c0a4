import LabelQuery.Proofs.Json.Denotation
import LabelQuery.Proofs.Structured.Record

/-!
# Decoding accepts the structured format

A text is decoded exactly if it denotes a value that states a selector (`decode_eq_ok_iff`). The
four steps of decoding fail in a fixed order; whether none of them fails does not depend on it, so
the law has no order in it.

The format leaves nothing open: a text denotes one value at most, a value states one selector at
most, and no value is a record and an array of records.
-/

namespace LabelQuery

open Structured
open Json (Value NumberRange Padded Denotes nestingLimit)

namespace Structured

/-- The records of a text are those of the value that it denotes, if nothing but blanks follows and
the value holds records at all. -/
theorem records_eq_ok_iff {range : NumberRange} {text : String} {found : List Record} :
    records text range = .ok found ↔ IsRecordsText range nestingLimit text.toList found := by
  simp only [IsRecordsText, ← Json.value_iff_padded, ← listOfValue?_eq_some_iff]
  unfold records
  constructor
  · intro h
    dsimp only at h
    split at h
    · cases h
    · next taken read =>
      split at h
      · cases h
      · next matched =>
        split at h
        · cases h
        · next clean =>
          cases h
          exact ⟨taken.value, ⟨taken.rest, ⟨taken.suffix, read⟩, clean⟩, matched⟩
  · intro h
    obtain ⟨value, ⟨rest, ⟨suffix, read⟩, clean⟩, matched⟩ := h
    simp only [read, matched, clean]

/-- Records come to a selector exactly if each of them states the requirement at its place, so their
order is that of the selector. -/
theorem conjunction_eq_ok_iff {found : List Record} {s : Selector} :
    conjunction found = .ok s ↔ List.Forall₂ Converts found s.requirements := by
  simp only [conjunction, bind_eq_ok_iff, mapM_eq_ok_iff, toRequirement_eq_ok_iff]
  constructor
  · intro ⟨requirements, converted, same⟩
    cases same
    exact converted
  · intro converted
    exact ⟨s.requirements, converted, rfl⟩

/-- Whether a value states a selector is a matter of the records that it holds, so the two forms of
a text need not be told apart. -/
theorem states_iff {value : Value} {s : Selector} :
    States value s ↔ ∃ found, HoldsRecords value found ∧
      List.Forall₂ Converts found s.requirements := by
  constructor
  · intro h
    cases h with
    | record isRecord converts => exact ⟨_, .one isRecord, .cons converts .nil⟩
    | records all converted => exact ⟨_, .several all, converted⟩
  · intro h
    obtain ⟨requirements⟩ := s
    obtain ⟨found, holds, converted⟩ := h
    cases holds with
    | one isRecord =>
      obtain ⟨requirement, _, converts, none, rfl⟩ := List.forall₂_cons_left_iff.mp converted
      obtain rfl := List.forall₂_nil_left_iff.mp none
      exact .record isRecord converts
    | several all => exact .records all converted

/-- A value holds its records in one way only, as a record by itself is never an array of records
besides. -/
theorem HoldsRecords.unique {value : Value} {found found' : List Record}
    (first : HoldsRecords value found) (second : HoldsRecords value found') : found = found' := by
  rw [← listOfValue?_eq_some_iff] at first second
  exact Option.some.inj (first.symm.trans second)

/-- A value states one selector at most: its records are settled, and each of them states one
requirement if any. -/
theorem States.unique {value : Value} {s t : Selector} (first : States value s)
    (second : States value t) : s = t := by
  obtain ⟨found, holds, converted⟩ := states_iff.mp first
  obtain ⟨found', holds', converted'⟩ := states_iff.mp second
  obtain rfl := holds.unique holds'
  rw [← conjunction_eq_ok_iff] at converted converted'
  exact Except.ok.inj (converted.symm.trans converted')

theorem isListed_of_converted {found : List Record} {requirements : List Requirement}
    (converted : List.Forall₂ Converts found requirements) :
    ∀ requirement ∈ requirements,
      requirement.condition.isEquality = false ∧ requirement.condition.IsListed := by
  induction converted with
  | nil => exact nofun
  | cons converts _ ih => exact List.forall_mem_cons.mpr ⟨converts.isListed, ih⟩

/-- What a value states is set-based, and lists values where there have to be some; whether its
words could stand in a selector text is not asked. -/
theorem States.isListed {value : Value} {s : Selector} (h : States value s) :
    s.IsSetBased ∧ s.IsListed := by
  obtain ⟨found, -, converted⟩ := states_iff.mp h
  have each := isListed_of_converted converted
  exact ⟨fun requirement mem => (each requirement mem).1, fun requirement mem =>
    (each requirement mem).2⟩

end Structured

namespace Selector

variable {range : NumberRange} {text : String} {s : Selector}

/-- **A text is decoded exactly if it denotes a value that states a selector.** -/
theorem decode_eq_ok_iff : decode text range = .ok s ↔
    ∃ value, Padded (Denotes range nestingLimit) text.toList value ∧ States value s := by
  simp only [decode, bind_eq_ok_iff, mapError_eq_ok_iff, records_eq_ok_iff, conjunction_eq_ok_iff,
    states_iff]
  constructor
  · intro h
    obtain ⟨found, ⟨value, denotes, holds⟩, converted⟩ := h
    exact ⟨value, denotes, found, holds, converted⟩
  · intro h
    obtain ⟨value, denotes, found, holds, converted⟩ := h
    exact ⟨found, ⟨value, denotes, holds⟩, converted⟩

/-- **Decoding accepts exactly the structured format, and the format is unambiguous.** A text is
decoded to a selector if it is one JSON value with nothing but blanks around it, and the value
states the selector; it denotes no other value, and the value states no other selector. No value is
both a record and an array of records. A record states what its operator says, which is known by its
name up to the case of ASCII letters, also if names are brought to lower case by the rules of
Unicode. So what is decoded is set-based, and lists values where there have to be some. -/
theorem decode_exact (range : NumberRange) (text : String) (s : Selector) :
    (decode text range = .ok s ↔
      ∃ value, Padded (Denotes range nestingLimit) text.toList value ∧ States value s) ∧
    (∀ value other, Padded (Denotes range nestingLimit) text.toList value →
      Padded (Denotes range nestingLimit) text.toList other → value = other) ∧
    (∀ value first second, States value first → States value second → first = second) ∧
    (∀ value record, IsRecord value record →
      ¬ ∃ items records, value = .array items ∧ List.Forall₂ IsRecord items records) ∧
    (∀ record requirement, record.toRequirement = .ok requirement ↔
      Converts record requirement) ∧
    (∀ lowering : Text.LowerCasing, ∀ operator, ∀ name ∈ operatorNames,
      lowering.apply operator = name ↔ SameName operator name) ∧
    (decode text range = .ok s → s.IsSetBased ∧ s.IsListed) := by
  refine ⟨decode_eq_ok_iff, fun _ _ => Json.Padded.unique, fun _ _ _ => States.unique,
    fun value record isRecord => ?_, fun _ _ => toRequirement_eq_ok_iff,
    fun lowering _ _ => sameName_iff_apply lowering, fun decoded => ?_⟩
  · rintro ⟨items, records, rfl, all⟩
    exact isRecord.not_records all
  · obtain ⟨value, -, states⟩ := decode_eq_ok_iff.mp decoded
    exact states.isListed

/-- An object with a field that says nothing, and an array, with blanks around them. -/
theorem decode_exact_mixed :
    let text := " [\x7b\"key\":\"\\ud83d\\ude00\",\"note\":[-0.5e+1],\"operator\":\"notExists\"\x7d" ++
      ",\n[\"IN\",\"\",[\"\"]]]\t"
    let s : Selector := ⟨[⟨"😀", .absent⟩, ⟨"", .oneOf [""]⟩]⟩
    decode text .binary64 = .ok s ∧
      (∃ value, Padded (Denotes .binary64 nestingLimit) text.toList value ∧ States value s) ∧
      s.IsSetBased ∧ s.IsListed := by
  intro text s
  have decoded : decode text .binary64 = .ok s := by decide +kernel
  obtain ⟨accepted, -, -, -, -, -, listed⟩ := decode_exact .binary64 text s
  exact ⟨decoded, accepted.mp decoded, listed decoded⟩

end Selector

end LabelQuery
