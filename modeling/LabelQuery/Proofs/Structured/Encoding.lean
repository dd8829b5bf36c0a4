import LabelQuery.Proofs.Json.Writing
import LabelQuery.Proofs.Structured.Decoding

/-!
# Decoding undoes writing

What is written for a selector denotes an array of records that state its requirements, so it is
decoded to the selector. Each part of the text is followed to the value that it denotes: the strings
of a list, the fields of a record, the record, and the array of records. At each of the levels the
values lie one level of nesting higher.

Which selectors can be written is known besides: those that are set-based and name a value wherever
there has to be one (`exists_writesSelector_iff`).
-/

namespace LabelQuery

open Structured
open Json (Value NumberRange Escaping Writes Denotes FieldDenotes)

namespace Structured

/-! ## Arrays of strings, and fields -/

/-- Strings that are written in brackets denote the array of them, whichever escapes each of them is
written with. -/
theorem WritesStrings.denotes {values : List String} {cs : List Char} {range : NumberRange}
    {levels : Nat} (writes : WritesStrings values cs) :
    Denotes range (levels + 1) cs (.array (values.map .string)) := by
  obtain ⟨parts, each, rfl, rfl⟩ := writes
  refine .inr (.array (Json.entriesDenote_of_forall₂ ?_))
  rw [List.map_map, List.forall₂_map_left_iff, List.forall₂_map_right_iff, List.forall₂_same]
  intro part mem
  exact .of_scalar (.string (each part mem).denotes)

/-- A field that is written denotes its name with the value of its content, and has no blank but
those of the content. -/
theorem WritesField.denotes {name : String} {Content : List Char → Prop} {cs : List Char}
    {Item : List Char → Value → Prop} {value : Value} (writes : WritesField name Content cs)
    (content : ∀ {text}, Content text → Item text value) : FieldDenotes Item cs (name, value) := by
  obtain ⟨quoted, text, named, written, rfl⟩ := writes
  refine ⟨quoted, [], text, named.denotes, Json.allBlank_nil, .of_denote (content written), ?_⟩
  rw [List.append_nil]

/-! ## Records -/

section Records

variable {operator key : String}

theorem isRecord_plain :
    IsRecord (.object [("operator", .string operator), ("key", .string key)])
      ⟨operator, key, none⟩ := by
  refine .plain ⟨[], _, rfl, ?_⟩ ⟨[_], _, rfl, ?_⟩ ?_
  · simp
  · simp
  · simp [IsMissing]

theorem isRecord_valued {values : Value} {values? : Option (List String)}
    (isValues : IsValues values values?) :
    IsRecord (.object [("operator", .string operator), ("key", .string key), ("values", values)])
      ⟨operator, key, values?⟩ := by
  refine .valued ⟨[], _, rfl, ?_⟩ ⟨[_], _, rfl, ?_⟩ ⟨[_, _], _, rfl, ?_⟩ isValues
  · simp
  · simp
  · simp

/-- The values that are written for a condition complete a record that asks for the condition; null
and nothing at all do as well where it needs none. -/
theorem WritesValues.states {condition : Condition} {texts : List (List Char)} {name : String}
    (range : NumberRange) (levels : Nat) (writes : WritesValues condition texts)
    (named : operatorOf? condition = some name) (same : SameName operator name) :
    ∃ entries record, List.Forall₂ (FieldDenotes (Denotes range (levels + 1))) texts entries ∧
      IsRecord (.object (("operator", .string operator) :: ("key", .string key) :: entries))
        record ∧
      Converts record ⟨key, condition⟩ := by
  cases writes with
  | oneOf inhabited field =>
    cases named
    exact ⟨_, _, .cons (field.denotes WritesStrings.denotes) .nil, isRecord_valued (.strings _),
      .oneOf same inhabited⟩
  | noneOf inhabited field =>
    cases named
    exact ⟨_, _, .cons (field.denotes WritesStrings.denotes) .nil, isRecord_valued (.strings _),
      .noneOf same inhabited⟩
  | null unvalued field =>
    refine ⟨_, ⟨operator, key, none⟩, .cons (field.denotes fun isNull => ?_) .nil,
      isRecord_valued .null, ?_⟩
    · exact isNull ▸ .of_scalar .null
    · rcases unvalued with rfl | rfl <;> cases named
      · exact .present same
      · exact .absent same
  | missing unvalued =>
    refine ⟨_, ⟨operator, key, none⟩, .nil, isRecord_plain, ?_⟩
    rcases unvalued with rfl | rfl <;> cases named
    · exact .present same
    · exact .absent same

end Records

/-- What is written for a requirement denotes a record that states it, within two levels: the record
and its list of values. -/
theorem WritesRecord.states {requirement : Requirement} {cs : List Char} (range : NumberRange)
    (levels : Nat) (writes : WritesRecord requirement cs) :
    ∃ value record, Denotes range (levels + 2) cs value ∧ IsRecord value record ∧
      Converts record requirement := by
  cases writes with
  | intro named same operatorField keyField values =>
    obtain ⟨entries, record, written, isRecord, converts⟩ :=
      values.states range levels named same
    refine ⟨_, record, .inr (.object (Json.entriesDenote_of_forall₂ ?_)), isRecord, converts⟩
    refine .cons (operatorField.denotes fun writes => ?_) (.cons (keyField.denotes fun writes => ?_)
      written)
    · exact .of_scalar (.string writes.denotes)
    · exact .of_scalar (.string writes.denotes)

/-! ## Selectors -/

/-- What is written for several requirements denotes records that state them, part by part and in
their order. -/
theorem exists_records_of_writes (range : NumberRange) (levels : Nat)
    {parts : List (Requirement × List Char)}
    (each : ∀ part ∈ parts, WritesRecord part.1 part.2) :
    ∃ items records, List.Forall₂ (Denotes range (levels + 2)) (parts.map (·.2)) items ∧
      List.Forall₂ IsRecord items records ∧
      List.Forall₂ Converts records (parts.map (·.1)) := by
  induction parts with
  | nil => exact ⟨[], [], .nil, .nil, .nil⟩
  | cons part parts ih =>
    obtain ⟨first, others⟩ := List.forall_mem_cons.mp each
    obtain ⟨value, record, denotes, isRecord, converts⟩ := first.states range levels
    obtain ⟨items, records, denote, areRecords, convert⟩ := ih others
    exact ⟨value :: items, record :: records, .cons denotes denote, .cons isRecord areRecords,
      .cons converts convert⟩

/-- What is written for a selector denotes a value that states it, within three levels: the array,
its records and their values. -/
theorem WritesSelector.states {s : Selector} {cs : List Char} (range : NumberRange)
    (levels : Nat) (writes : WritesSelector s cs) :
    ∃ value, Denotes range (levels + 3) cs value ∧ States value s := by
  obtain ⟨requirements⟩ := s
  obtain ⟨parts, each, rfl, rfl⟩ := writes
  obtain ⟨items, records, denote, areRecords, convert⟩ :=
    exists_records_of_writes range levels each
  exact ⟨.array items, .inr (.array (Json.entriesDenote_of_forall₂ denote)),
    .records areRecords convert⟩

/-! ## What can be written -/

/-- What can be written one by one can be written in a list, each text beside the thing that it is
written for. -/
theorem exists_parts {α : Type} {Write : α → List Char → Prop} {as : List α}
    (each : ∀ a ∈ as, ∃ cs, Write a cs) : ∃ parts : List (α × List Char),
      (∀ part ∈ parts, Write part.1 part.2) ∧ as = parts.map (·.1) := by
  induction as with
  | nil => exact ⟨[], nofun, rfl⟩
  | cons a as ih =>
    obtain ⟨⟨cs, written⟩, others⟩ := List.forall_mem_cons.mp each
    obtain ⟨parts, all, rfl⟩ := ih others
    exact ⟨(a, cs) :: parts, List.forall_mem_cons.mpr ⟨written, all⟩, rfl⟩

theorem exists_writes (s : String) : ∃ cs, Writes s cs :=
  ⟨_, ⟨false, false⟩, rfl⟩

theorem exists_writesField (name : String) {Content : List Char → Prop}
    (content : ∃ text, Content text) : ∃ cs, WritesField name Content cs := by
  obtain ⟨text, written⟩ := content
  obtain ⟨quoted, named⟩ := exists_writes name
  exact ⟨_, quoted, text, named, written, rfl⟩

theorem exists_writesStrings (values : List String) : ∃ cs, WritesStrings values cs := by
  obtain ⟨parts, all, whole⟩ := exists_parts fun value (_ : value ∈ values) => exists_writes value
  exact ⟨_, parts, all, whole, rfl⟩

/-- A requirement can be written if it is set-based and lists values where it has to, with the
fields that its condition needs. -/
theorem exists_writesRecord {requirement : Requirement}
    (setBased : requirement.condition.isEquality = false)
    (listed : requirement.condition.IsListed) : ∃ cs, WritesRecord requirement cs := by
  obtain ⟨key, condition⟩ := requirement
  obtain ⟨name, named⟩ : ∃ name, operatorOf? condition = some name := by
    cases condition with
    | equals _ | differs _ => cases setBased
    | present | absent | oneOf _ | noneOf _ => exact ⟨_, rfl⟩
  obtain ⟨texts, values⟩ : ∃ texts, WritesValues condition texts := by
    cases condition with
    | equals _ | differs _ => cases setBased
    | present => exact ⟨_, .missing (.inl rfl)⟩
    | absent => exact ⟨_, .missing (.inr rfl)⟩
    | oneOf values =>
      obtain ⟨cs, written⟩ := exists_writesField "values" (exists_writesStrings values)
      exact ⟨_, .oneOf listed written⟩
    | noneOf values =>
      obtain ⟨cs, written⟩ := exists_writesField "values" (exists_writesStrings values)
      exact ⟨_, .noneOf listed written⟩
  obtain ⟨operatorField, written⟩ := exists_writesField "operator" (exists_writes name)
  obtain ⟨keyField, written'⟩ := exists_writesField "key" (exists_writes key)
  exact ⟨_, .intro named rfl written written' values⟩

/-- Exactly the selectors that are set-based, and list values where there have to be some, can be
written. Any other asks for something that no record can ask for. -/
theorem exists_writesSelector_iff {s : Selector} :
    (∃ cs, WritesSelector s cs) ↔ s.IsSetBased ∧ s.IsListed := by
  constructor
  · intro h
    obtain ⟨cs, writes⟩ := h
    obtain ⟨value, -, states⟩ := writes.states .binary64 0
    exact states.isListed
  · intro h
    obtain ⟨setBased, listed⟩ := h
    have each : ∀ requirement ∈ s.requirements, ∃ cs, WritesRecord requirement cs :=
      fun requirement mem => exists_writesRecord (setBased _ mem) (listed _ mem)
    obtain ⟨parts, all, whole⟩ := exists_parts each
    exact ⟨_, parts, all, whole, rfl⟩

end Structured

/-- **Decoding undoes writing.** Whichever way a selector is written as an array of records, the
text is decoded to the selector, requirement by requirement; and so is a record alone to a selector
of one requirement. Exactly the selectors that are set-based, and list values where there have to be
some, can be written: keys and values are any strings. -/
theorem Selector.decode_written (range : NumberRange) (s : Selector) :
    (∀ text : String, WritesSelector s text.toList → Selector.decode text range = .ok s) ∧
    (∀ (text : String) (requirement : Requirement), s.requirements = [requirement] →
      WritesRecord requirement text.toList → Selector.decode text range = .ok s) ∧
    ((∃ cs, WritesSelector s cs) ↔ s.IsSetBased ∧ s.IsListed) := by
  refine ⟨fun text writes => ?_, fun text requirement single writes => ?_,
    exists_writesSelector_iff⟩
  · obtain ⟨value, denotes, states⟩ := writes.states range 124
    exact decode_eq_ok_iff.mpr ⟨value, .of_denote denotes, states⟩
  · obtain ⟨requirements⟩ := s
    obtain rfl : requirements = [requirement] := single
    obtain ⟨value, record, denotes, isRecord, converts⟩ := writes.states range 125
    exact decode_eq_ok_iff.mpr ⟨value, .of_denote denotes, .record isRecord converts⟩

/-- Escapes of every unit beside the least ones, a value that is given twice, and the empty key. -/
theorem Selector.decode_written_escaped :
    let s : Selector := ⟨[⟨"\"😀", .oneOf ["\u0001", "\u0001"]⟩, ⟨"", .absent⟩]⟩
    let first := "\x7b\"operator\":\"iN\",\"key\":\"\\u0022\\uD83D\\uDE00\"," ++
      "\"values\":[\"\\u0001\",\"\\u0001\"]\x7d"
    let second := "\x7b\"operator\":\"NotExists\",\"key\":\"\",\"values\":null\x7d"
    let text := "[" ++ first ++ "," ++ second ++ "]"
    (WritesSelector s text.toList ∧ decode text .binary64 = .ok s) ∧
      WritesRecord ⟨"", .absent⟩ second.toList ∧
      decode second .binary64 = .ok ⟨[⟨"", .absent⟩]⟩ := by
  intro s first second text
  have least (value : String) : Writes value (Escaping.writeString ⟨false, false⟩ value) :=
    ⟨_, rfl⟩
  have units (value : String) : Writes value (Escaping.writeString ⟨true, true⟩ value) :=
    ⟨_, rfl⟩
  obtain ⟨_, values, rfl⟩ : ∃ cs, WritesStrings ["\u0001", "\u0001"] cs ∧
      "[\"\\u0001\",\"\\u0001\"]".toList = cs :=
    ⟨_, ⟨[("\u0001", _), ("\u0001", _)],
      List.forall_mem_cons.mpr ⟨least _, List.forall_mem_singleton.mpr (units _)⟩, rfl, rfl⟩,
      by decide +kernel⟩
  obtain ⟨_, firstWritten, rfl⟩ : ∃ cs,
      WritesRecord ⟨"\"😀", .oneOf ["\u0001", "\u0001"]⟩ cs ∧ first.toList = cs :=
    ⟨_, .intro rfl (by unfold SameName; decide) ⟨_, _, least _, least "iN", rfl⟩
      ⟨_, _, least _, units _, rfl⟩
      (.oneOf (List.cons_ne_nil _ _) ⟨_, _, least _, values, rfl⟩), by decide +kernel⟩
  obtain ⟨_, secondWritten, rfl⟩ : ∃ cs, WritesRecord ⟨"", .absent⟩ cs ∧ second.toList = cs :=
    ⟨_, .intro rfl (by unfold SameName; decide) ⟨_, _, least _, least "NotExists", rfl⟩
      ⟨_, _, least _, least _, rfl⟩
      (.null (.inr rfl) ⟨_, _, least _, rfl, rfl⟩), by decide +kernel⟩
  have written : WritesSelector s text.toList :=
    ⟨[(_, first.toList), (_, second.toList)],
      List.forall_mem_cons.mpr ⟨firstWritten, List.forall_mem_singleton.mpr secondWritten⟩, rfl,
      by decide +kernel⟩
  exact ⟨⟨written, (decode_written .binary64 s).1 text written⟩, secondWritten,
    (decode_written .binary64 _).2.1 second _ rfl secondWritten⟩

end LabelQuery
