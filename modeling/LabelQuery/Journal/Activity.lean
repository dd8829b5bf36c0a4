import LabelQuery.Journal.Basic
import LabelQuery.Selector.Grammar
import LabelQuery.Structured.Decoding

/-!
# Activities with a journal

Reading, evaluating and decoding, with a report of each step. What an activity comes to is what the
plain function of the same name comes to: the journal looks on and decides nothing.

* Every token is reported as it is made, before any requirement is read.
* A selector is reported when all of it has been read.
* An evaluation reports the requirement at which it stops, if it stops early.
* A decoded selector is reported when all of it has been decoded.
-/

namespace LabelQuery.Journaled

/-- The tokens of a text. -/
def tokenize (text : String) : Journaled (Except SyntaxError (List Token)) :=
  let lexing := Lexing.ofText text
  ⟨lexing.toExcept, lexing.tokens.map .token⟩

/-- The selector that a text spells. -/
def parse (dialect : Dialect) (text : String) : Journaled (Except SyntaxError Selector) := do
  match ← tokenize text with
  | .error error => return .error error
  | .ok tokens =>
    match Selector.ofTokens dialect tokens with
    | .error error => return .error error
    | .ok selector =>
      report (.parsed selector.size text)
      return .ok selector

/-- Whether every requirement holds of the labelling; the first that does not ends the question. -/
def allHold {α : Type} [Labelling α] (labels : α) : List Requirement → Journaled Bool
  | [] => return true
  | requirement :: requirements =>
    if requirement.holds labels then allHold labels requirements
    else do
      report (.unmet requirement)
      return false

/-- Whether the selector matches the labelling. -/
def isMet {α : Type} [Labelling α] (labels : α) (selector : Selector) : Journaled Bool :=
  allHold labels selector.requirements

/-- Whether the selector that a text spells matches the labelling. -/
def test {α : Type} [Labelling α] (labels : α) (text : String) :
    Journaled (Except SyntaxError Bool) := do
  match ← parse .full text with
  | .error error => return .error error
  | .ok selector => return .ok (← isMet labels selector)

/-- The selector that a structured text states. Numbers are computed in binary64, if nothing else is
said. -/
def decode (text : String) (range : Json.NumberRange := .binary64) :
    Journaled (Except DecodingError Selector) := do
  match Selector.decode text range with
  | .error error => return .error error
  | .ok selector =>
    report (.decoded selector.size)
    return .ok selector

/-! ## The outcomes are those of the plain functions -/

@[simp] theorem outcome_tokenize (text : String) :
    (tokenize text).outcome = LabelQuery.tokenize text := rfl

/-- A reading with a journal comes to the selector, or to the error, that the reading without one
comes to, in both dialects. -/
@[simp] theorem outcome_parse (dialect : Dialect) (text : String) :
    (parse dialect text).outcome = Selector.parse dialect text := by
  simp only [parse, Selector.parse, outcome_bind, outcome_tokenize]
  cases LabelQuery.tokenize text with
  | error error => rfl
  | ok tokens => cases h : Selector.ofTokens dialect tokens <;> simp [h, bind, Except.bind]

/-- An evaluation with a journal answers as the plain one does. That it stops at the first
requirement that fails changes only what it reports. -/
@[simp] theorem outcome_isMet {α : Type} [Labelling α] (labels : α) (selector : Selector) :
    (isMet labels selector).outcome = selector.isMet labels := by
  simp only [isMet, Selector.isMet]
  induction selector.requirements with
  | nil => rfl
  | cons requirement requirements ih => cases h : requirement.holds labels <;> simp [allHold, h, ih]

/-- Trying a text on a labelling has the same outcome with a journal and without, which is put
together from those of the reading and of the evaluation. -/
@[simp] theorem outcome_test {α : Type} [Labelling α] (labels : α) (text : String) :
    (test labels text).outcome = Selector.test labels text := by
  simp only [test, Selector.test, outcome_bind, outcome_parse]
  cases Selector.parse .full text with
  | error error => rfl
  | ok selector => simp [bind, Except.bind, pure, Except.pure]

@[simp] theorem outcome_decode (text : String) (range : Json.NumberRange) :
    (decode text range).outcome = Selector.decode text range := by
  simp only [decode]
  cases Selector.decode text range <;> rfl

end LabelQuery.Journaled
