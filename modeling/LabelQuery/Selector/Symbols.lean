import LabelQuery.Selector.Basic
import LabelQuery.Token.Spelling

/-!
# The symbols of a selector

The grammar sees of a token its kind and, of a value, the text; the offset and the spelling of
punctuation and keywords are lost on it. A **symbol** is what is left. Each selector is written in
one way with symbols, and `Selector.symbols` is that way: the word of the grammar that the selector
stands for, with no comma at its end.

Not every selector has one that can be read. A list of values cannot be empty in the grammar
(`Selector.IsListed`), and in a text the keys and values have to be words besides
(`Selector.IsClean`).
-/

namespace LabelQuery

/-- What the grammar sees of a token. -/
structure Symbol where
  /-- What the token was recognised as. -/
  kind : Token.Kind
  /-- The text, if the token is a value. -/
  word? : Option String
deriving DecidableEq, Repr

namespace Symbol

/-- A value. -/
def word (text : String) : Symbol := ⟨.value, some text⟩

/-- A token whose kind says everything. -/
def mark (kind : Token.Kind) : Symbol := ⟨kind, none⟩

end Symbol

/-- What the grammar sees of the token. -/
def Token.symbol (token : Token) : Symbol :=
  ⟨token.kind, if token.kind = .value then some token.text else none⟩

namespace Condition

/-- The values that a condition names, in order. -/
def values : Condition → List String
  | present | absent => []
  | oneOf values | noneOf values => values
  | equals value | differs value => [value]

/-- Whether the condition is of one of the two equality forms. -/
def isEquality : Condition → Bool
  | equals _ | differs _ => true
  | _ => false

/-- Whether the condition names a value if its form asks for a list of them. -/
def IsListed : Condition → Prop
  | oneOf values | noneOf values => values ≠ []
  | _ => True

end Condition

/-- The values, with commas between them, in brackets. -/
def Symbol.list (values : List String) : List Symbol :=
  .mark .openParen :: (values.map .word).intersperse (.mark .comma) ++ [.mark .closeParen]

/-- The requirement in symbols. -/
def Requirement.symbols : Requirement → List Symbol
  | ⟨key, .present⟩ => [.word key]
  | ⟨key, .absent⟩ => [.mark .exclamation, .word key]
  | ⟨key, .oneOf values⟩ => .word key :: .mark .inKeyword :: Symbol.list values
  | ⟨key, .noneOf values⟩ => .word key :: .mark .notinKeyword :: Symbol.list values
  | ⟨key, .equals value⟩ => [.word key, .mark .equal, .word value]
  | ⟨key, .differs value⟩ => [.word key, .mark .notEqual, .word value]

/-- The key, and then the values. -/
def Requirement.words (requirement : Requirement) : List String :=
  requirement.key :: requirement.condition.values

namespace Selector

/-- The selector in symbols: its requirements, with commas between them. -/
def symbols (s : Selector) : List Symbol :=
  [Symbol.mark .comma].intercalate (s.requirements.map Requirement.symbols)

/-- The keys and the values of the selector, in the order of its text. -/
def words (s : Selector) : List String :=
  s.requirements.flatMap Requirement.words

/-- Whether no list of values in the selector is empty. -/
def IsListed (s : Selector) : Prop :=
  ∀ requirement ∈ s.requirements, requirement.condition.IsListed

/-- Whether the selector uses neither of the equality forms. -/
def IsSetBased (s : Selector) : Prop :=
  ∀ requirement ∈ s.requirements, requirement.condition.isEquality = false

/-- Whether the tokens spell the selector: they have its symbols, and maybe one comma more behind
its last requirement. -/
def IsSpelledBy (s : Selector) (tokens : List Token) : Prop :=
  s.IsListed ∧ (tokens.map Token.symbol = s.symbols ∨
    s.requirements ≠ [] ∧ tokens.map Token.symbol = s.symbols ++ [.mark .comma])

/-- Whether the text of the selector can be read again: no list of values is empty, and every key
and every value is a word. -/
structure IsClean (s : Selector) : Prop where
  /-- No list of values is empty. -/
  isListed : s.IsListed
  /-- Every key is a word. -/
  key : ∀ requirement ∈ s.requirements, Token.IsWord requirement.key
  /-- Every value is a word. -/
  values : ∀ requirement ∈ s.requirements, ∀ value ∈ requirement.condition.values,
    Token.IsWord value

end Selector

end LabelQuery
