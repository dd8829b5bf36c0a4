import LabelQuery.Text.Basic

/-!
# Tokens and syntax errors

A **token** is a piece of selector text with the kind it was recognised as and the byte where it
begins. There are three families of kinds: values, which name labels and their values; the two
keywords of set membership; and punctuation. The tokens of a text are made in
`LabelQuery.Token.Chunk`; nothing here asks that kind and text of a token fit each other, because
token lists may also be put together by hand.

Each kind has two texts of its own: `Kind.name` is its name in records, and `Kind.description`
stands for it in error messages.
-/

namespace LabelQuery

/-- What a token is recognised as. -/
inductive Token.Kind where
  /-- The name of a label, or one of its values. -/
  | value
  /-- The bracket that opens a list of values. -/
  | openParen
  /-- The bracket that closes a list of values. -/
  | closeParen
  /-- The sign of equality, in either of its spellings. -/
  | equal
  /-- The sign of inequality. -/
  | notEqual
  /-- The keyword of membership. -/
  | inKeyword
  /-- The keyword of non-membership. -/
  | notinKeyword
  /-- The mark that asks for absence. -/
  | exclamation
  /-- The mark between requirements and between values. -/
  | comma
deriving DecidableEq, Repr

namespace Token.Kind

/-- Every kind, in the order of the declaration. -/
def all : List Kind :=
  [value, openParen, closeParen, equal, notEqual, inKeyword, notinKeyword, exclamation, comma]

/-- The name of a kind in records. -/
def name : Kind → String
  | value => "Value"
  | openParen => "OpenParen"
  | closeParen => "CloseParen"
  | equal => "Equal"
  | notEqual => "NotEqual"
  | inKeyword => "In"
  | notinKeyword => "NotIn"
  | exclamation => "Exclamation"
  | comma => "Comma"

/-- The kind of the given name, if there is one. -/
def ofName? (name : String) : Option Kind :=
  all.find? (·.name == name)

/-- What an error message calls a kind: a word for values, and the quoted spelling for the rest. -/
def description : Kind → String
  | value => "value"
  | openParen => "`(`"
  | closeParen => "`)`"
  | equal => "`=`"
  | notEqual => "`!=`"
  | inKeyword => "`in`"
  | notinKeyword => "`notin`"
  | exclamation => "`!`"
  | comma => "`,`"

/-- Whether tokens of the kind are punctuation, which needs no blank on either side. -/
def isPunctuation : Kind → Bool
  | value | inKeyword | notinKeyword => false
  | _ => true

end Token.Kind

/-- A piece of selector text, classified and placed. -/
structure Token where
  /-- What the piece was recognised as. -/
  kind : Token.Kind
  /-- The piece itself. -/
  text : String
  /-- The byte of the whole text at which the piece begins. -/
  offset : Nat
deriving DecidableEq, Repr

namespace Token

/-- Whether a character is one of the marks that punctuation is made of. -/
def isMark (c : Char) : Bool :=
  c = '=' || c = '!' || c = '(' || c = ')' || c = ','

/-- Whether a character can stand in a word: it is neither blank nor a mark. -/
def isWordChar (c : Char) : Bool :=
  !Text.isBlank c && !isMark c

end Token

/-! ## Syntax errors

Why a text or a list of tokens is no selector. The cause is a value, and its wording is in one
place, `SyntaxError.message`; the kinds that could have stood instead are part of the cause, in the
order in which the message lists them. -/

/-- Why a text or a list of tokens is no selector. -/
inductive SyntaxError where
  /-- The token cannot follow the tokens before it; one of the `expected` kinds could. -/
  | misplaced (token : Token) (expected : List Token.Kind)
  /-- The tokens end inside a requirement; one of the `expected` kinds has to follow. -/
  | truncated (expected : List Token.Kind)
  /-- The rest of a chunk, beginning at the given byte, starts with no token. -/
  | indivisible (rest : String) (offset : Nat)
deriving DecidableEq, Repr

namespace SyntaxError

/-- The kinds as a list of alternatives: commas between them, and `or` before the last. -/
def alternatives : List Token.Kind → String
  | [] => "nothing"
  | [kind] => kind.description
  | [first, last] => first.description ++ " or " ++ last.description
  | first :: rest => first.description ++ ", " ++ alternatives rest

/-- What the error says to the author of the text. -/
def message : SyntaxError → String
  | misplaced token expected =>
    s!"unexpected {token.kind.description} `{token.text}` at byte {token.offset}" ++
      s!", expected {alternatives expected}"
  | truncated expected => s!"unexpected end of selector, expected {alternatives expected}"
  | indivisible rest offset => s!"unable to tokenize `{rest}` at byte {offset}"

example : message (.truncated [.value, .comma, .closeParen]) =
    "unexpected end of selector, expected value, `,` or `)`" := by decide

end SyntaxError

end LabelQuery
