import LabelQuery.Journal.Activity
import LabelQuery.Proofs.Structured.Decoding

/-!
# Which error is reported of a structured text

Several things can be wrong with one text, at different places of it. **The law**
(`Selector.decode_precedence`) says which of them is reported. Records are not looked into before
all of the text has been found in order: a text that cannot be read, that holds something else than
records, or that goes on behind them, is reported as such, whatever its records say. Of records that
state no requirement the first is reported, by its operator as it is written.

A journal is no help in telling these cases apart: nothing is reported in it unless the text is
decoded.
-/

namespace LabelQuery

open Structured
open Json (NumberRange nestingLimit)

namespace Structured

variable {range : NumberRange} {text : String} {found : List Record}

/-- As long as records are being found, none of them is at fault: what they say is not asked before
all of the text has been found in order. -/
theorem records_ne_record {error : RecordError} : records text range ≠ .error (.record error) := by
  intro h
  unfold records at h
  dsimp only at h
  split at h
  · cases h
  · split at h
    · cases h
    · split at h <;> cases h

/-- Of some records the first that states no requirement is reported, whatever is wrong with the
ones behind it. -/
theorem conjunction_eq_error_iff (lowering : Text.LowerCasing) {error : RecordError} :
    conjunction found = .error error ↔ ∃ before record after, found = before ++ record :: after ∧
      (∀ earlier ∈ before, ∃ requirement, Converts earlier requirement) ∧
      FailsWith lowering record error := by
  rw [conjunction, bind_pure_eq_error_iff, mapM_eq_error_iff]
  simp only [toRequirement_eq_ok_iff, toRequirement_eq_error_iff lowering]

end Structured

namespace Selector

variable {range : NumberRange} {text : String}

/-- The error of a record is reported exactly if the text holds records, and their conjunction fails
with that error. -/
theorem decode_eq_record_iff {error : RecordError} :
    decode text range = .error (.record error) ↔
      ∃ found, IsRecordsText range nestingLimit text.toList found ∧
        conjunction found = .error error := by
  simp only [decode, bind_eq_error_iff, records_ne_record, false_or, records_eq_ok_iff,
    mapError_eq_error_iff, DecodingError.record.injEq, exists_eq_right]

/-- An error that no record has is about the text as a whole, and was there before any record was
understood. -/
theorem decode_eq_error_iff {error : DecodingError} (whole : ∀ e, error ≠ .record e) :
    decode text range = .error error ↔ records text range = .error error := by
  simp only [decode, bind_eq_error_iff, mapError_eq_error_iff, (whole _).symm, and_false,
    exists_false, or_false]

theorem decode_eq_malformed_iff {malformation : Json.Malformation} :
    decode text range = .error (.malformed malformation) ↔
      records text range = .error (.malformed malformation) :=
  decode_eq_error_iff fun _ h => nomatch h

/-- The text is at fault as a whole exactly if it holds no records: it is malformed then, or its
value has another form. -/
theorem decode_at_fault_iff :
    (∃ malformation, decode text range = .error (.malformed malformation)) ∨
        decode text range = .error .unmatched ↔
      ¬ ∃ found, IsRecordsText range nestingLimit text.toList found := by
  have unmatched : decode text range = .error .unmatched ↔ records text range = .error .unmatched :=
    decode_eq_error_iff fun _ h => nomatch h
  simp only [decode_eq_malformed_iff, unmatched, ← records_eq_ok_iff]
  cases h : records text range with
  | ok found => simp
  | error error =>
    cases error with
    | malformed malformation => simp
    | unmatched => simp
    | record error => exact absurd h records_ne_record

end Selector

namespace Journaled

/-- A decoding is reported when it has succeeded, with the number of requirements, and is silent
about every kind of failure. -/
theorem events_decode (text : String) (range : NumberRange) :
    (decode text range).events = match Selector.decode text range with
      | .ok s => [.decoded s.size]
      | .error _ => [] := by
  unfold decode
  cases Selector.decode text range <;> rfl

end Journaled

/-- **The first thing that is wrong is reported.** A text is at fault as a whole exactly if it is
not the text of one value that holds records: if no value can be read, if the value is neither a
record nor an array of records, or if anything but blanks follows. Otherwise the error is that of
the first record, in order, that states no requirement, with the operator as it is written, though
the lower case of it decides; and if there is none, the text is decoded. Only then is anything
reported, and that is the number of requirements. -/
theorem Selector.decode_precedence (lowering : Text.LowerCasing) (range : NumberRange)
    (text : String) :
    ((∃ malformation, decode text range = .error (.malformed malformation)) ∨
        decode text range = .error .unmatched ↔
      ¬ ∃ found, IsRecordsText range nestingLimit text.toList found) ∧
    (∀ error, decode text range = .error (.record error) ↔
      ∃ before record after,
        IsRecordsText range nestingLimit text.toList (before ++ record :: after) ∧
        (∀ earlier ∈ before, ∃ requirement, Converts earlier requirement) ∧
        FailsWith lowering record error) ∧
    (∀ s, decode text range = .ok s ↔ ∃ found, IsRecordsText range nestingLimit text.toList found ∧
      List.Forall₂ Converts found s.requirements) ∧
    (Journaled.decode text range).outcome = decode text range ∧
    (Journaled.decode text range).events.map Event.line = match decode text range with
      | .ok s => [⟨.debug, "label_selector::json",
          s!"decoded {s.requirements.length} structured requirement(s)"⟩]
      | .error _ => [] := by
  refine ⟨decode_at_fault_iff, fun error => ?_, fun s => ?_,
    Journaled.outcome_decode text range, ?_⟩
  · rw [decode_eq_record_iff]
    simp only [conjunction_eq_error_iff lowering]
    constructor
    · intro ⟨found, holds, before, record, after, parts, earlier, fails⟩
      subst parts
      exact ⟨before, record, after, holds, earlier, fails⟩
    · intro ⟨before, record, after, holds, earlier, fails⟩
      exact ⟨_, holds, before, record, after, rfl, earlier, fails⟩
  · simp only [decode, bind_eq_ok_iff, mapError_eq_ok_iff, records_eq_ok_iff,
      conjunction_eq_ok_iff]
  · rw [Journaled.events_decode]
    cases decode text range <;> rfl

/-- Of two records at fault the first is reported, and neither if a further item is no record. -/
theorem Selector.decode_precedence_first :
    let records := "[[\"EXISTS\",\"a\"], [\"In\",\"b\",null], [\"Gt\",\"c\"]]"
    let others := "[[\"EXISTS\",\"a\"], [\"In\",\"b\",null], [\"Gt\",\"c\"], []]"
    decode records .binary64 = .error (.record (.missingValues "In" "b")) ∧
      (Journaled.decode records .binary64).events.map Event.line = [] ∧
      ¬ ∃ found, IsRecordsText .binary64 nestingLimit others.toList found := by
  intro records others
  have fails : decode records .binary64 = .error (.record (.missingValues "In" "b")) := by
    decide +kernel
  have unmatched : decode others .binary64 = .error .unmatched := by decide +kernel
  obtain ⟨-, -, -, -, lines⟩ := decode_precedence .least .binary64 records
  obtain ⟨whole, -⟩ := decode_precedence .least .binary64 others
  rw [fails] at lines
  exact ⟨fails, lines, whole.mp (.inr unmatched)⟩

end LabelQuery
