import LabelQuery.Proofs.Json.Nesting
import LabelQuery.Proofs.Json.Writing
import LabelQuery.Proofs.Selector.Conjunction
import LabelQuery.Proofs.Structured.Decoding

/-!
# An array of records is the conjunction of its records

Texts of one record each can be put into an array, with commas between them. **The array is decoded
as they are** (`Selector.decode_array`): to the requirements of all of them, in order, so it is met
where all of them are; or, if some of them are refused, to the error of the first of these.

A record alone and a record in an array are recognised in two ways, and a record can be an array
itself. The two ways agree because no array of records is taken for one record
(`IsRecord.not_records`), and because a text denotes inside the array what it denotes alone, with a
level more to nest in (`Json.Denotes.succ`).
-/

namespace LabelQuery

open Structured
open Json (Value NumberRange Padded Denotes nestingLimit)

namespace Structured

/-! ## Texts of a record -/

/-- The record that the whole of a text is, if it is one. -/
def recordOf? (range : NumberRange) (levels : Nat) (cs : List Char) : Option Record :=
  match Json.value range levels cs with
  | .error _ => none
  | .ok taken => if Json.trailing? taken.rest = none then Record.ofValue? taken.value else none

variable {range : NumberRange} {levels : Nat} {cs : List Char} {record : Record}

/-- The record of a text is found by the format of texts, which makes it decidable whether a text is
that of a record. -/
theorem recordOf?_eq_some_iff :
    recordOf? range levels cs = some record ↔ IsRecordText range levels cs record := by
  simp only [IsRecordText, ← Json.value_iff_padded, ← ofValue?_eq_some_iff]
  unfold recordOf?
  constructor
  · intro h
    split at h
    · cases h
    · next taken read =>
      split at h
      · next clean => exact ⟨taken.value, ⟨taken.rest, ⟨taken.suffix, read⟩, clean⟩, h⟩
      · cases h
  · intro ⟨value, ⟨rest, ⟨suffix, read⟩, clean⟩, found⟩
    simp only [read, clean, if_true, found]

instance : Decidable (IsRecordText range levels cs record) :=
  decidable_of_iff _ recordOf?_eq_some_iff

/-- A text of one record holds that record alone, also with a level more to nest in, as it has
outside of the array. -/
theorem IsRecordText.isRecordsText (h : IsRecordText range levels cs record) :
    IsRecordsText range (levels + 1) cs [record] := by
  obtain ⟨value, padded, isRecord⟩ := h
  exact ⟨value, padded.imp Denotes.succ, .one isRecord⟩

/-- Texts of one record each, put into an array with commas between them, hold the records in order,
one level deeper. -/
theorem isRecordsText_array {texts : List (List Char)} {found : List Record}
    (each : List.Forall₂ (IsRecordText range levels) texts found) :
    IsRecordsText range (levels + 1) ('[' :: [','].intercalate texts ++ [']']) found := by
  obtain ⟨values, paddeds, areRecords⟩ := exists_forall₂_forall₂ each
  exact ⟨.array values, .of_denote (.inr (.array (Json.entriesDenote_of_padded paddeds))),
    .several areRecords⟩

/-! ## One record after another -/

theorem conjunction_cons (record : Record) (found : List Record) :
    conjunction (record :: found) = do
      let requirement ← record.toRequirement
      let s ← conjunction found
      return ⟨requirement :: s.requirements⟩ := by
  unfold conjunction
  rw [List.mapM_cons]
  cases record.toRequirement with
  | error error => rfl
  | ok requirement => cases List.mapM Record.toRequirement found <;> rfl

end Structured

namespace Selector

/-- Once its records are found, a text is decoded to their conjunction, and to nothing that depends
on how it was written. -/
theorem decode_of_isRecordsText {range : NumberRange} {text : String} {found : List Record}
    (h : IsRecordsText range nestingLimit text.toList found) :
    decode text range = (conjunction found).mapError .record := by
  rw [decode, records_eq_ok_iff.mpr h]
  rfl

/-- The conjunction of records is what their texts are decoded to one by one, put together, and
fails as the first of them does. -/
theorem mapM_decode {range : NumberRange} {texts : List String} {found : List Record}
    (each : List.Forall₂
      (fun text record => decode text range = (conjunction [record]).mapError .record) texts found) :
    (texts.mapM (decode · range)).map join = (conjunction found).mapError .record := by
  induction each with
  | nil => rfl
  | @cons text record texts found decoded _ ih =>
    rw [List.mapM_cons, decoded, conjunction_cons, conjunction_cons]
    cases record.toRequirement with
    | error error => rfl
    | ok requirement =>
      -- the first record states its requirement, which comes in front of what the others state
      let inFront (s : Selector) : Selector := ⟨requirement :: s.requirements⟩
      calc
        _ = ((texts.mapM (decode · range)).map join).map inFront := by
          cases texts.mapM (decode · range) <;> rfl
        _ = ((conjunction found).mapError .record).map inFront := by rw [ih]
        _ = _ := by cases conjunction found <;> rfl

theorem toList_array (texts : List String) :
    ("[" ++ ",".intercalate texts ++ "]").toList =
      '[' :: [','].intercalate (texts.map String.toList) ++ [']'] := by
  rw [String.toList_append, String.toList_append, String.toList_intercalate]
  rfl

/-- **An array of records is the conjunction of its records.** Texts of one record each, with commas
between them in brackets, are decoded to the requirements of all of them if each of them is decoded;
a labelling meets these exactly if it meets each. Otherwise the error is that of the first text that
is not decoded, as it is by itself. -/
theorem decode_array {range : NumberRange} {texts : List String}
    (each : ∀ text ∈ texts, ∃ record, IsRecordText range 126 text.toList record) :
    (∀ selectors, List.Forall₂ (fun text s => decode text range = .ok s) texts selectors →
      decode ("[" ++ ",".intercalate texts ++ "]") range = .ok (join selectors) ∧
        ∀ {α : Type} [Labelling α] (labels : α),
          (join selectors).isMet labels = true ↔ ∀ s ∈ selectors, s.isMet labels = true) ∧
    (∀ before text after error, texts = before ++ text :: after →
      (∀ earlier ∈ before, ∃ s, decode earlier range = .ok s) → decode text range = .error error →
      decode ("[" ++ ",".intercalate texts ++ "]") range = .error error) := by
  obtain ⟨found, each⟩ := exists_forall₂_iff.mpr each
  have whole : decode ("[" ++ ",".intercalate texts ++ "]") range =
      (texts.mapM (decode · range)).map join := by
    rw [mapM_decode (each.imp fun _ _ h => decode_of_isRecordsText h.isRecordsText)]
    apply decode_of_isRecordsText
    rw [toList_array]
    exact isRecordsText_array (List.forall₂_map_left_iff.mpr each)
  rw [whole]
  refine ⟨fun selectors decoded => ⟨?_, fun labels => ?_⟩,
    fun before text after error parts earlier fails => ?_⟩
  · rw [mapM_eq_ok_iff.mpr decoded]
    rfl
  · rw [isMet_join, List.all_eq_true]
  · rw [mapM_eq_error_iff.mpr ⟨before, text, after, parts, earlier, fails⟩]
    rfl

/-- Records of both forms, with blanks around them; and among three, two that fail. -/
theorem decode_array_forms :
    let object := " \x7b\"key\":\"a\",\"x\":[[0]],\"operator\":\"IN\",\"values\":[\"b\",\"b\"]\x7d\n"
    let items := "\t[\"Exists\", \"\"]"
    let missing := "\x7b\"operator\":\"notIn\",\"key\":\"c\",\"values\":null\x7d"
    let unknown := "[\"Gt\",\"a\",[]] "
    decode ("[" ++ ",".intercalate [object, items] ++ "]") .binary64 =
        .ok ⟨[⟨"a", .oneOf ["b", "b"]⟩, ⟨"", .present⟩]⟩ ∧
      decode ("[" ++ ",".intercalate [object, missing, unknown] ++ "]") .binary64 =
        .error (.record (.missingValues "notIn" "c")) := by
  intro object items missing unknown
  have isObject : IsRecordText .binary64 126 object.toList ⟨"IN", "a", some ["b", "b"]⟩ := by
    decide +kernel
  have isItems : IsRecordText .binary64 126 items.toList ⟨"Exists", "", none⟩ := by decide +kernel
  have isMissing : IsRecordText .binary64 126 missing.toList ⟨"notIn", "c", none⟩ := by
    decide +kernel
  have isUnknown : IsRecordText .binary64 126 unknown.toList ⟨"Gt", "a", some []⟩ := by
    decide +kernel
  have first : decode object .binary64 = .ok ⟨[⟨"a", .oneOf ["b", "b"]⟩]⟩ := by decide +kernel
  have second : decode items .binary64 = .ok ⟨[⟨"", .present⟩]⟩ := by decide +kernel
  have fails : decode missing .binary64 = .error (.record (.missingValues "notIn" "c")) := by
    decide +kernel
  have both : ∀ text ∈ [object, items], ∃ record, IsRecordText .binary64 126 text.toList record :=
    List.forall_mem_cons.mpr ⟨⟨_, isObject⟩, List.forall_mem_singleton.mpr ⟨_, isItems⟩⟩
  have three : ∀ text ∈ [object, missing, unknown], ∃ record,
      IsRecordText .binary64 126 text.toList record :=
    List.forall_mem_cons.mpr ⟨⟨_, isObject⟩, List.forall_mem_cons.mpr
      ⟨⟨_, isMissing⟩, List.forall_mem_singleton.mpr ⟨_, isUnknown⟩⟩⟩
  constructor
  · exact ((decode_array both).1 _ (.cons first (.cons second .nil))).1
  · exact (decode_array three).2 [object] missing [unknown] _ rfl
      (List.forall_mem_singleton.mpr ⟨_, first⟩) fails

end Selector

end LabelQuery
