import LabelQuery.Journal.Activity
import LabelQuery.Journal.Transcript
import LabelQuery.Proofs.Token.Division

/-!
# Journals are transcripts

What is reported of an evaluation comes from three activities: the tokens from the division of the
text, the number of requirements from the reading of the selector, and the requirement that fails
from the loop over the requirements. For each of them there is one law that says what it reports,
from what it comes to: `events_tokenize`, `events_parse` and `events_isMet`. **The law**
`Journaled.test_transcript` puts them together: the journal of an evaluation is the transcript of
it, and there is no other.
-/

namespace LabelQuery

open Transcript (tokenLine parsedLine unmetLine)

variable {α : Type} [Labelling α] {labels : α} {text : String}

namespace Selector

/-- No requirement is named as the first that fails exactly if all of them hold, so the name is
missing where the outcome is good. -/
theorem firstUnmet?_eq_none_iff {s : Selector} :
    s.firstUnmet? labels = none ↔ ∀ requirement ∈ s.requirements,
      requirement.holds labels = true := by
  simp [firstUnmet?]

theorem firstUnmet?_eq_some_iff {s : Selector} {first : Requirement} :
    s.firstUnmet? labels = some first ↔ ∃ before after, s.requirements = before ++ first :: after ∧
      (∀ requirement ∈ before, requirement.holds labels = true) ∧ first.holds labels = false := by
  simp only [firstUnmet?, List.find?_eq_some_iff_append, Bool.not_eq_eq_eq_not, Bool.not_true,
    Bool.not_not]
  constructor
  · intro ⟨fails, before, after, parts, hold⟩
    exact ⟨before, after, parts, hold, fails⟩
  · intro ⟨before, after, parts, hold, fails⟩
    exact ⟨fails, before, after, parts, hold⟩

/-- A selector is met exactly if the search for a requirement that fails finds none; the two go
through the same list. -/
theorem isMet_eq (s : Selector) : s.isMet labels = (s.firstUnmet? labels).isNone := by
  rw [Bool.eq_iff_iff, Option.isNone_iff_eq_none, firstUnmet?_eq_none_iff, isMet, List.all_eq_true]

/-- The outcome of an evaluation, by what is read and by what fails. This is the part of a
transcript that is no line. -/
theorem test_eq (labels : α) (text : String) :
    test labels text = match parse .full text with
      | .ok s => .ok (s.firstUnmet? labels).isNone
      | .error error => .error error := by
  rw [test]
  cases parse .full text with
  | error error => rfl
  | ok s => exact congrArg Except.ok (isMet_eq s)

end Selector

namespace Journaled

/-- A division reports its tokens, each of them once and in their order, and nothing about the
blanks between them. -/
theorem events_tokenize {tokens : List Token} (divided : LabelQuery.tokenize text = .ok tokens) :
    (tokenize text).events = tokens.map .token := by
  have complete : (Lexing.ofText text).tokens = tokens := by
    rw [LabelQuery.tokenize, Lexing.toExcept] at divided
    split at divided
    · exact Except.ok.inj divided
    · cases divided
  exact congrArg (List.map Event.token) complete

/-- A reading reports all tokens, and the selector if it comes to one; where it stops with an error
is not reported. -/
theorem events_parse (dialect : Dialect) {tokens : List Token}
    (divided : LabelQuery.tokenize text = .ok tokens) :
    (parse dialect text).events = tokens.map .token ++
      match Selector.parse dialect text with
      | .ok s => [.parsed s.size text]
      | .error _ => [] := by
  have same : Selector.parse dialect text = Selector.ofTokens dialect tokens := by
    rw [Selector.parse, divided]
    rfl
  rw [parse, events_bind, events_tokenize divided, outcome_tokenize, divided, same]
  cases read : Selector.ofTokens dialect tokens <;> simp only [read] <;> rfl

/-- An evaluation reports the first requirement that does not hold, if there is one, and none of
those that do. -/
theorem events_isMet (s : Selector) :
    (isMet labels s).events = (s.firstUnmet? labels).toList.map .unmet := by
  rw [isMet, Selector.firstUnmet?]
  induction s.requirements with
  | nil => rfl
  | cons requirement requirements ih =>
    rw [allHold, List.find?_cons]
    cases requirement.holds labels with
    | true => exact ih
    | false => rfl

/-- The journal of an evaluation goes on from that of the reading, if a selector is read, and ends
with it otherwise. -/
theorem events_test (labels : α) (text : String) :
    (test labels text).events = (parse .full text).events ++
      match Selector.parse .full text with
      | .ok s => (s.firstUnmet? labels).toList.map .unmet
      | .error _ => [] := by
  rw [test, events_bind, outcome_parse]
  cases Selector.parse .full text with
  | error error => rfl
  | ok s => rw [events_bind, events_pure, List.append_nil, events_isMet]

/-- The lines of an evaluation, by what is read and by what fails. The three cases of a transcript
are the cases of this. -/
theorem lines_test {tokens : List Token} (divided : LabelQuery.tokenize text = .ok tokens) :
    (test labels text).events.map Event.line = tokens.map tokenLine ++
      match Selector.parse .full text with
      | .ok s => parsedLine s.requirements text :: (s.firstUnmet? labels).toList.map unmetLine
      | .error _ => [] := by
  have token : Event.line ∘ Event.token = tokenLine := rfl
  have unmet : Event.line ∘ Event.unmet = unmetLine := rfl
  rw [events_test, events_parse .full divided, List.append_assoc, List.map_append, List.map_map,
    token]
  cases Selector.parse .full text with
  | error error => rfl
  | ok s =>
    rw [List.singleton_append, List.map_cons, List.map_map, unmet]
    rfl

end Journaled

namespace Transcript

open Journaled

variable {outcome : Except SyntaxError Bool} {lines : List Event.Line}

/-- What a transcript says is what happens: its outcome is that of the evaluation, and its lines are
those of the journal. -/
theorem sound (transcript : Transcript labels text outcome lines) :
    Selector.test labels text = outcome ∧ (test labels text).events.map Event.line = lines := by
  cases transcript with
  | refused divided refused =>
    rw [lines_test divided, Selector.test_eq, refused]
    exact ⟨rfl, List.append_nil _⟩
  | met divided read hold =>
    have unmet := Selector.firstUnmet?_eq_none_iff.mpr hold
    rw [lines_test divided, Selector.test_eq, read]
    simp only [unmet]
    exact ⟨rfl, rfl⟩
  | @unmet tokens before after first divided read hold fails =>
    have unmet := Selector.firstUnmet?_eq_some_iff.mpr ⟨before, after, rfl, hold, fails⟩
    rw [lines_test divided, Selector.test_eq, read]
    simp only [unmet]
    exact ⟨rfl, rfl⟩

/-- What happens has a transcript, so there is no evaluation that the three forms of one would leave
out. -/
theorem complete (labels : α) (text : String) :
    Transcript labels text (Selector.test labels text)
      ((test labels text).events.map Event.line) := by
  have divided := tokenize_eq_ok text
  rw [lines_test divided, Selector.test_eq]
  cases read : Selector.parse .full text with
  | error error =>
    rw [List.append_nil]
    exact .refused divided read
  | ok s =>
    cases unmet : s.firstUnmet? labels with
    | none =>
      have hold := Selector.firstUnmet?_eq_none_iff.mp unmet
      simp only [unmet]
      exact .met divided read hold
    | some first =>
      obtain ⟨before, after, parts, hold, fails⟩ := Selector.firstUnmet?_eq_some_iff.mp unmet
      simp only [unmet]
      obtain ⟨requirements⟩ := s
      obtain rfl : requirements = _ := parts
      exact .unmet divided read hold fails

end Transcript

/-- **The journal of an evaluation is its transcript.** A line for every token comes first, in
order, even if the first of them cannot begin a selector. If the tokens spell a selector, a line
with the number of its requirements and with the text follows. The outcome is that the labelling
does not match exactly if one more line follows, with the first requirement that does not hold.
There is nothing else in the journal, and looking on it leaves the outcome as it is. -/
theorem Journaled.test_transcript (labels : α) (text : String) :
    (test labels text).outcome = Selector.test labels text ∧
    ∀ outcome lines, Transcript labels text outcome lines ↔
      Selector.test labels text = outcome ∧ (test labels text).events.map Event.line = lines := by
  refine ⟨outcome_test labels text, fun outcome lines => ⟨Transcript.sound, ?_⟩⟩
  intro ⟨sameOutcome, sameLines⟩
  subst sameOutcome sameLines
  exact Transcript.complete labels text

/-- The tokens behind one that cannot stand there are reported too. -/
example : (Journaled.test (∅ : Std.TreeMap String String) ", a").events.map Event.line =
    [⟨.trace, "label_selector::lexer", "token Comma `,` at byte 0"⟩,
      ⟨.trace, "label_selector::lexer", "token Value `a` at byte 2"⟩] := by
  decide +kernel

end LabelQuery
