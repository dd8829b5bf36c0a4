import LabelQuery.Token.Spelling

/-!
# Tokens laid out as text

A **layout** is a list of tokens with a gap of blanks around each of them, which is all that a text
adds to its tokens. `Layout.chars` writes it down, and `Layout.tokens` says where each token comes
to stand.

Whether the tokens can be found again in the text depends on the gaps alone: two tokens with nothing
between them **run together** if both are words, or if the first is a sign that takes a following
sign of equality into itself.
-/

namespace LabelQuery

open Text (byteLength)

/-- A token that is to be written: its kind, its text, and the blanks behind it. -/
structure Layout.Entry where
  /-- What the token is. -/
  kind : Token.Kind
  /-- How it is spelled. -/
  text : String
  /-- What separates it from the next token, or from the end of the text. -/
  gap : String
deriving DecidableEq, Repr

/-- Tokens that are to be written in a row. -/
structure Layout where
  /-- The blanks before the first token. -/
  lead : String
  /-- The tokens, each with the blanks behind it. -/
  entries : List Layout.Entry
deriving DecidableEq, Repr

namespace Layout

/-- Each entry's text and gap, in order. -/
def charsOf (entries : List Entry) : List Char :=
  entries.flatMap fun entry => entry.text.toList ++ entry.gap.toList

/-- The text of a layout. -/
def chars (layout : Layout) : List Char :=
  layout.lead.toList ++ charsOf layout.entries

/-- The tokens of the entries, the first of which stands at byte `offset`. -/
def tokensFrom (offset : Nat) : List Entry → List Token
  | [] => []
  | ⟨kind, text, gap⟩ :: entries =>
    ⟨kind, text, offset⟩ ::
      tokensFrom (offset + byteLength text.toList + byteLength gap.toList) entries

/-- The tokens of a layout, where they are written. -/
def tokens (layout : Layout) : List Token :=
  tokensFrom (byteLength layout.lead.toList) layout.entries

/-- Whether a token loses its end, and the next one its beginning, when nothing stands between. -/
def Entry.RunsInto (first second : Entry) : Prop :=
  ¬ first.kind.isPunctuation ∧ ¬ second.kind.isPunctuation ∨
    (first.text = "=" ∨ first.text = "!") ∧ second.text.toList.head? = some '='

/-- Whether no two neighbours without a gap run together. -/
def IsSeparated : List Entry → Prop
  | first :: second :: entries =>
    (first.gap = "" → ¬ first.RunsInto second) ∧ IsSeparated (second :: entries)
  | _ => True

/-- Whether only blanks are added, to tokens that are spelled as their kinds are. -/
structure IsProper (layout : Layout) : Prop where
  /-- Nothing but blanks stands before the first token. -/
  lead : ∀ c ∈ layout.lead.toList, Text.isBlank c = true
  /-- Nothing but blanks stands behind a token. -/
  gap : ∀ entry ∈ layout.entries, ∀ c ∈ entry.gap.toList, Text.isBlank c = true
  /-- The texts of the tokens spell their kinds. -/
  spelled : ∀ entry ∈ layout.entries, entry.kind.IsSpelledBy entry.text

end Layout

end LabelQuery
