import LabelQuery.Proofs.Json.Extent
import LabelQuery.Proofs.Structured.Precedence
import Mathlib.Data.List.DropRight

/-!
# Only whole texts are decoded

What arrives of a structured text may be its front, or may have something more behind it. Neither is
taken for a text of its own. **The law** (`Selector.decode_cut_or_extended`) is about every text
that holds records, whether these state requirements or not: cut anywhere before its last solid
character it is malformed, and with a solid character behind it the error is there, on that
character.

Both parts rest on where a value ends. Records are held by arrays and objects, so no front of the
value is a value; and the value is read in the same way whatever comes behind it, so its records are
found, and the first thing that is at fault is what trails.
-/

namespace LabelQuery

open Structured
open Json (Value NumberRange Gives AllBlank Position isBlank nestingLimit)

namespace Structured

/-- What ends a text without its trailing blanks is not blank, however much of the text is cut off
with it. -/
theorem not_allBlank_of_append_eq {cs front more : List Char}
    (core : front ++ more = cs.rdropWhile isBlank) (cut : more ≠ []) : ¬ AllBlank more := by
  intro blank
  have last := List.rdropWhile_last_not isBlank cs
    (core ▸ List.append_ne_nil_of_right_ne_nil front cut)
  simp only [← core, List.getLast_append_of_ne_nil _ cut] at last
  exact last (blank _ (List.getLast_mem cut))

/-- Only arrays and objects hold records, and so no number does; a number is the one value of which
a front can be a value again. -/
theorem HoldsRecords.ne_number {value : Value} {found : List Record}
    (holds : HoldsRecords value found) : value ≠ .number := by
  cases holds with
  | one isRecord => cases isRecord <;> exact nofun
  | several _ => exact nofun

/-- **A front of a text that holds records is malformed**, unless all that is cut off is blank: the
bracket that ends the value is missing from it. -/
theorem exists_malformed_of_front {range : NumberRange} {front : String} {more : List Char}
    {found : List Record} (holds : IsRecordsText range nestingLimit (front.toList ++ more) found)
    (solid : ¬ AllBlank more) :
    ∃ malformation, records front range = .error (.malformed malformation) := by
  obtain ⟨value, denotes, held⟩ := holds
  unfold records
  dsimp only
  cases read : Json.value range nestingLimit front.toList with
  | error fault => exact ⟨_, rfl⟩
  | ok taken =>
    have blank := Json.allBlank_of_gives_front denotes held.ne_number ⟨taken.suffix, read⟩
    exact absurd (fun c mem => blank c (List.mem_append_right _ mem)) solid

/-- **What is behind a text that holds records is at fault for being there**, and at its first solid
character, however many blanks come before. -/
theorem records_append_solid {range : NumberRange} {text more : String} {found : List Record}
    {gap rest : List Char} {c : Char}
    (holds : IsRecordsText range nestingLimit text.toList found) (blank : AllBlank gap)
    (solid : isBlank c = false) (parts : more.toList = gap ++ c :: rest) :
    let place := Position.behind (text.toList ++ gap)
    records (text ++ more) range =
      .error (.malformed ⟨.trailingCharacters, ⟨place.line, place.column + 1⟩⟩) := by
  intro place
  obtain ⟨value, denotes, held⟩ := holds
  obtain ⟨left, given, clean⟩ := Json.value_iff_padded.mpr denotes
  have blank' : AllBlank (left ++ gap) := (Json.trailing?_eq_none_iff.mp clean).append blank
  obtain ⟨_, read⟩ : Gives (Json.value range nestingLimit (text.toList ++ more.toList)) value
      (left ++ more.toList) := Json.gives_value_append held.ne_number given
  have newline : c ≠ '\n' := by
    rintro rfl
    exact absurd solid (by decide)
  have trails : Json.trailing? (left ++ more.toList) =
      some (.behindByte .trailingCharacters (c :: rest)) := by
    rw [parts, ← List.append_assoc, Json.trailing?, Json.blanks_of_solid blank' solid]
  have whole : text.toList ++ more.toList = text.toList ++ gap ++ c :: rest := by
    rw [parts, List.append_assoc]
  unfold records
  rw [String.toList_append]
  simp only [read, listOfValue?_eq_some_iff.mpr held, trails, whole,
    Json.Fault.inText_behindByte _ newline]
  rfl

end Structured

/-- A text that is decoded, or fails with the error of a record, holds records. -/
theorem Selector.exists_records {range : NumberRange} {text : String}
    (accepted : (∃ s, decode text range = .ok s) ∨
      ∃ error, decode text range = .error (.record error)) :
    ∃ found, IsRecordsText range nestingLimit text.toList found := by
  by_contra none
  have whole := decode_at_fault_iff.mpr none
  rcases accepted with ⟨s, h⟩ | ⟨error, h⟩ <;> simp [h] at whole

/-- **Nothing but the whole of a structured text is taken for it.** Where a text is decoded, or
fails with the error of a record, no front of it is: cut before the last character that is no blank,
the text is malformed. With anything behind it but blanks, the text is malformed too, and what is
wrong are trailing characters, one byte into the first of them that is no blank. -/
theorem Selector.decode_cut_or_extended {range : NumberRange} {text : String}
    (accepted : (∃ s, decode text range = .ok s) ∨
      ∃ error, decode text range = .error (.record error)) :
    (∀ front : String, front.toList <+: text.toList.rdropWhile isBlank →
      front.toList ≠ text.toList.rdropWhile isBlank →
      ∃ malformation, decode front range = .error (.malformed malformation)) ∧
    (∀ more : String, (∃ c ∈ more.toList, isBlank c = false) →
      let place := Position.behind (text.toList ++ more.toList.takeWhile isBlank)
      let error := DecodingError.malformed ⟨.trailingCharacters, place.line, place.column + 1⟩
      decode (text ++ more) range = .error error ∧
        error.message = s!"trailing characters at line {place.line} column {place.column + 1}") := by
  obtain ⟨found, holds⟩ := exists_records accepted
  simp only [decode_eq_malformed_iff]
  constructor
  · intro front cut proper
    obtain ⟨more, core⟩ := cut
    have parts : text.toList = front.toList ++ (more ++ text.toList.rtakeWhile isBlank) := by
      rw [← List.append_assoc, core, List.rdropWhile_append_rtakeWhile]
    have cut : more ≠ [] := by
      rintro rfl
      exact proper (by rw [← core, List.append_nil])
    rw [parts] at holds
    refine exists_malformed_of_front holds fun blank => ?_
    exact not_allBlank_of_append_eq core cut fun c mem => blank c (List.mem_append_left _ mem)
  · intro more solid
    refine ⟨?_, rfl⟩
    rcases Json.allBlank_or_exists_solid more.toList with blank | ⟨gap, c, rest, blank, solid, parts⟩
    · obtain ⟨c, mem, solid⟩ := solid
      exact absurd (blank c mem) (by simp [solid])
    · have front : more.toList.takeWhile isBlank = gap := by
        rw [parts, List.takeWhile_append_of_pos blank, List.takeWhile_cons_of_neg (by simp [solid]),
          List.append_nil]
      rw [front]
      exact records_append_solid holds blank solid parts

/-- A text with a record at fault, without its last bracket and with a character of four bytes on
the next line but one. -/
theorem Selector.decode_cut_or_extended_lines :
    let text := "[[\"Exists\",\"é\"],\n [\"Gt\",\"b\"]] \n"
    decode text .binary64 = .error (.record (.unknownOperator "Gt")) ∧
      (∃ malformation, decode "[[\"Exists\",\"é\"],\n [\"Gt\",\"b\"]" .binary64 =
        .error (.malformed malformation)) ∧
      decode (text ++ "\t \n 😀") .binary64 = .error (.malformed ⟨.trailingCharacters, 4, 2⟩) := by
  intro text
  have failed : decode text .binary64 = .error (.record (.unknownOperator "Gt")) := by
    decide +kernel
  obtain ⟨cut, extended⟩ := decode_cut_or_extended (.inr ⟨_, failed⟩)
  have place : Position.behind (text.toList ++ "\t \n 😀".toList.takeWhile isBlank) = ⟨4, 1⟩ := by
    decide +kernel
  obtain ⟨trailing, -⟩ := extended "\t \n 😀" ⟨'😀', by decide +kernel, by decide⟩
  rw [place] at trailing
  exact ⟨failed, cut _ (by decide +kernel) (by decide +kernel), trailing⟩

end LabelQuery
