import LabelQuery.Journal.Basic
import LabelQuery.Selector.Grammar

/-!
# Transcripts

What a log has to say of the evaluation of a text, line by line. Nothing is run with a journal here:
a **transcript** is put together from the tokens of the text, from the selector that it spells, and
from the requirements of the selector, which hold of the labelling or do not.

`LabelQuery.Journaled.test` reports what its steps are; that its report is the transcript is a fact
about all of them together.
-/

namespace LabelQuery

namespace Transcript

/-- The line of a token: its kind, its text and its place. -/
def tokenLine (token : Token) : Event.Line :=
  ⟨.trace, "label_selector::lexer", s!"token {token.kind.name} `{token.text}` at byte {token.offset}"⟩

/-- The line of a text that was read: how many requirements it asks for, and the text itself. -/
def parsedLine (requirements : List Requirement) (text : String) : Event.Line :=
  ⟨.debug, "label_selector::parser",
    s!"parsed {requirements.length} requirement(s) from selector `{text}`"⟩

/-- The line of the requirement at which an evaluation stopped, as text. -/
def unmetLine (requirement : Requirement) : Event.Line :=
  ⟨.trace, "label_selector::selector", s!"requirement `{requirement.render}` not satisfied"⟩

end Transcript

open Transcript

/-- Whether the lines are what a log says when the text is tried on the labelling, and the outcome
what comes of it. All the tokens of the text come first, also where it spells no selector. -/
inductive Transcript {α : Type} [Labelling α] (labels : α) (text : String) :
    Except SyntaxError Bool → List Event.Line → Prop where
  /-- The text spells no selector. -/
  | refused {tokens : List Token} {error : SyntaxError} :
    tokenize text = .ok tokens → Selector.parse .full text = .error error →
    Transcript labels text (.error error) (tokens.map tokenLine)
  /-- Every requirement holds. -/
  | met {tokens : List Token} {requirements : List Requirement} :
    tokenize text = .ok tokens → Selector.parse .full text = .ok ⟨requirements⟩ →
    (∀ requirement ∈ requirements, requirement.holds labels = true) →
    Transcript labels text (.ok true) (tokens.map tokenLine ++ [parsedLine requirements text])
  /-- Some requirement does not hold; the first of them is the last thing reported. -/
  | unmet {tokens : List Token} {before after : List Requirement} {first : Requirement} :
    tokenize text = .ok tokens → Selector.parse .full text = .ok ⟨before ++ first :: after⟩ →
    (∀ requirement ∈ before, requirement.holds labels = true) → first.holds labels = false →
    Transcript labels text (.ok false)
      (tokens.map tokenLine ++ [parsedLine (before ++ first :: after) text, unmetLine first])

end LabelQuery
