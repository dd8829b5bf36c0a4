import LabelQuery.Selector.Basic
import LabelQuery.Token.Chunk

/-!
# Reading selectors

A selector is a list of requirements with commas between them, and one more comma may close it:

```text
selector    := (requirement (',' requirement)* ','?)?
requirement := KEY | '!' KEY | KEY 'in' list | KEY 'notin' list | KEY '=' VALUE | KEY '!=' VALUE
list        := '(' VALUE (',' VALUE)* ')'
```

The set-based **dialect** leaves out the last two forms of a requirement.

One token decides at every point how the reading goes on, so the reader is an automaton. A `Stage`
is a point of the grammar with what has been read of the requirement that is still open;
`Stage.expected` lists the kinds that can follow there, in the order of error messages, and
`Stage.next?` says what each of them leads to. The list and the transitions are written down
separately: that they name the same kinds is a fact about the grammar.
-/

namespace LabelQuery

/-- Which forms of requirement are read. -/
inductive Dialect where
  /-- All of them. -/
  | full
  /-- All but the two equality forms. -/
  | setBased
deriving DecidableEq, Repr

/-- A point of the grammar, with what has been read of the requirement that is open there. -/
inductive Stage where
  /-- A requirement may begin, or the selector end. -/
  | start
  /-- Behind the mark of absence. -/
  | negation
  /-- Behind a key, which may be the whole requirement. -/
  | key (key : String)
  /-- Behind a key and a keyword of membership. -/
  | membership (key : String) (polarity : Polarity)
  /-- Inside a list of values, where a value has to follow. The values read are kept last first. -/
  | item (key : String) (polarity : Polarity) (values : List String)
  /-- Inside a list of values, behind a value. The values read are kept last first. -/
  | listed (key : String) (polarity : Polarity) (values : List String)
  /-- Behind a key and a sign of equality or inequality. -/
  | operand (key : String) (polarity : Polarity)
  /-- Behind a requirement that nothing can extend. -/
  | complete
deriving DecidableEq, Repr

namespace Stage

/-- The kinds of token that can follow, in the order of error messages. -/
def expected (dialect : Dialect) : Stage → List Token.Kind
  | start => [.value, .exclamation]
  | negation => [.value]
  | key _ =>
    match dialect with
    | .full => [.comma, .inKeyword, .notinKeyword, .equal, .notEqual]
    | .setBased => [.comma, .inKeyword, .notinKeyword]
  | membership .. => [.openParen]
  | item .. => [.value]
  | listed .. => [.comma, .closeParen]
  | operand .. => [.value]
  | complete => [.comma]

/-- The stage behind a token, with the requirement that the token completes, if it completes one;
none where the token cannot follow. -/
def next? (dialect : Dialect) (stage : Stage) (token : Token) :
    Option (Option Requirement × Stage) :=
  match stage, token.kind, dialect with
  | start, .value, _ => some (none, key token.text)
  | start, .exclamation, _ => some (none, negation)
  | negation, .value, _ => some (some ⟨token.text, .absent⟩, complete)
  | key k, .comma, _ => some (some ⟨k, .present⟩, start)
  | key k, .inKeyword, _ => some (none, membership k .among)
  | key k, .notinKeyword, _ => some (none, membership k .outside)
  | key k, .equal, .full => some (none, operand k .among)
  | key k, .notEqual, .full => some (none, operand k .outside)
  | membership k p, .openParen, _ => some (none, item k p [])
  | item k p vs, .value, _ => some (none, listed k p (token.text :: vs))
  | listed k p vs, .comma, _ => some (none, item k p vs)
  | listed k p vs, .closeParen, _ => some (some ⟨k, p.ofValues vs.reverse⟩, complete)
  | operand k p, .value, _ => some (some ⟨k, p.ofValue token.text⟩, complete)
  | complete, .comma, _ => some (none, start)
  | _, _, _ => none

/-- What the end of the tokens leaves of the open requirement: nothing, a bare key, or an error. -/
def finish (dialect : Dialect) : Stage → Except SyntaxError (Option Requirement)
  | start | complete => .ok none
  | key k => .ok (some ⟨k, .present⟩)
  | stage => .error (.truncated (stage.expected dialect))

end Stage

/-- How far a reading has come: the requirements that are complete, and where it stands. -/
structure Reading where
  /-- The requirements read so far, last first. -/
  done : List Requirement
  /-- The point of the grammar that has been reached. -/
  stage : Stage
deriving DecidableEq, Repr

namespace Reading

/-- A reading that has seen no token. -/
def initial : Reading := ⟨[], .start⟩

/-- Takes one more token, or says what it stands in the place of. -/
def advance (dialect : Dialect) (reading : Reading) (token : Token) :
    Except SyntaxError Reading :=
  match reading.stage.next? dialect token with
  | some (completed?, stage) => .ok ⟨completed?.toList ++ reading.done, stage⟩
  | none => .error (.misplaced token (reading.stage.expected dialect))

/-- The selector that has been read, if the tokens may end here. -/
def finish (dialect : Dialect) (reading : Reading) : Except SyntaxError Selector := do
  let last? ← reading.stage.finish dialect
  return ⟨(last?.toList ++ reading.done).reverse⟩

end Reading

namespace Selector

/-- The selector that the tokens spell. Kinds decide; of the texts, only those of values count. -/
def ofTokens (dialect : Dialect) (tokens : List Token) : Except SyntaxError Selector := do
  (← tokens.foldlM (Reading.advance dialect) Reading.initial).finish dialect

/-- The selector that a text spells. -/
def parse (dialect : Dialect) (text : String) : Except SyntaxError Selector := do
  ofTokens dialect (← tokenize text)

/-- Whether the selector that a text spells matches the labelling. -/
def test {α : Type} [Labelling α] (labels : α) (text : String) : Except SyntaxError Bool := do
  return (← parse .full text).isMet labels

/-! ### What can still become a selector

A token list is **accepted** if it spells a selector, and **viable** if it is the beginning of one
that does. Neither mentions stages: both are about token lists as wholes, so they can say what the
errors of a reading owe to its reader: an error names the first token with which the list is viable
no longer, and the kinds that would have kept it so. -/

/-- Whether the tokens spell a selector. -/
def IsAccepted (dialect : Dialect) (tokens : List Token) : Prop :=
  ∃ s, ofTokens dialect tokens = .ok s

/-- Whether the tokens begin a list that spells a selector. -/
def IsViable (dialect : Dialect) (tokens : List Token) : Prop :=
  ∃ more, IsAccepted dialect (tokens ++ more)

/-- Whether some token of the kind can follow the tokens. -/
def CanFollow (dialect : Dialect) (tokens : List Token) (kind : Token.Kind) : Prop :=
  ∃ token : Token, token.kind = kind ∧ IsViable dialect (tokens ++ [token])

end Selector

end LabelQuery
