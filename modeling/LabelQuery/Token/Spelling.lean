import LabelQuery.Token.Basic
import LabelQuery.Text.Basic

/-!
# Spellings of tokens

Which texts a token of each kind can have, said without dividing anything. Punctuation and keywords
have a fixed choice of **literals**; a value is spelled by a **word**, any run of word characters
that is no keyword. No text spells two kinds.

A token list made by dividing a text is *spelled* in this sense. One put together by hand need not
be, and nothing that reads token lists asks for it.
-/

namespace LabelQuery.Token

/-- The texts of the tokens of a kind, for all kinds but values. -/
def Kind.literals : Kind → List String
  | value => []
  | openParen => ["("]
  | closeParen => [")"]
  | equal => ["=", "=="]
  | notEqual => ["!="]
  | inKeyword => ["in"]
  | notinKeyword => ["notin"]
  | exclamation => ["!"]
  | comma => [","]

/-- A text that spells a value wherever it stands alone: word characters only, at least one, and no
keyword. -/
structure IsWord (text : String) : Prop where
  /-- There is something to read. -/
  nonempty : text ≠ ""
  /-- Neither blanks nor marks occur. -/
  isWordChar : ∀ c ∈ text.toList, Token.isWordChar c = true
  /-- It is not the keyword of membership. -/
  ne_in : text ≠ "in"
  /-- It is not the keyword of non-membership. -/
  ne_notin : text ≠ "notin"

instance (text : String) : Decidable (IsWord text) :=
  decidable_of_iff
    (text ≠ "" ∧ text.toList.all Token.isWordChar = true ∧ text ≠ "in" ∧ text ≠ "notin")
    ⟨fun ⟨nonempty, chars, ne_in, ne_notin⟩ =>
        ⟨nonempty, List.all_eq_true.mp chars, ne_in, ne_notin⟩,
      fun ⟨nonempty, chars, ne_in, ne_notin⟩ =>
        ⟨nonempty, List.all_eq_true.mpr chars, ne_in, ne_notin⟩⟩

/-- Whether a text spells a kind of token. -/
def Kind.IsSpelledBy (kind : Kind) (text : String) : Prop :=
  if kind = .value then IsWord text else text ∈ kind.literals

instance (kind : Kind) (text : String) : Decidable (kind.IsSpelledBy text) :=
  inferInstanceAs (Decidable (if kind = .value then IsWord text else text ∈ kind.literals))

/-- Whether the text of a token spells its kind. -/
def IsSpelled (token : Token) : Prop :=
  token.kind.IsSpelledBy token.text

/-- The byte at which the text of a token ends. -/
def stop (token : Token) : Nat :=
  token.offset + Text.byteLength token.text.toList

/-- The token as it stands in a text with so many bytes put in front. -/
def shift (bytes : Nat) (token : Token) : Token :=
  { token with offset := bytes + token.offset }

end LabelQuery.Token
