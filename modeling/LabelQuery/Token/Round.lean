import LabelQuery.Token.Chunk

/-!
# The division of a chunk, round by round

A chunk is divided in **rounds**, each of which makes one token. `Lexing.Round` is what a round
begins with, `Round.next?` is one round, and `Round.Run` is a number of rounds in a row. What
`Lexing.ofChunkChars` makes in one recursion is seen here from the inside: which rounds there are,
and what each begins with.

From one round to the next goes a flag, by which a keyword is not looked for behind a word. The
**division without the flag** (`Lexing.Unflagged`) looks for a keyword wherever no punctuation
stands, and carries nothing.
-/

namespace LabelQuery.Lexing

open Text (byteLength)

/-! ## Rounds -/

/-- What the division of a chunk has at hand when a token is to be made. -/
structure Round where
  /-- Whether a keyword is looked for. -/
  fresh : Bool
  /-- The byte of the whole text that has been reached. -/
  offset : Nat
  /-- The characters of the chunk that are left. -/
  rest : List Char
deriving DecidableEq, Repr

namespace Round

/-- The beginning of a chunk. -/
def first (chunk : Chunk) : Round := ⟨true, chunk.offset, chunk.chars⟩

/-- What the division makes of a chunk from here on. -/
def division (round : Round) : Lexing :=
  ofChunkChars round.fresh round.offset round.rest

/-- The next characters, so many of them, as a token. -/
def token (round : Round) (kind : Token.Kind) (size : Nat) : Token :=
  ⟨kind, String.ofList (round.rest.take size), round.offset⟩

/-- Behind the next characters. -/
def behind (round : Round) (size : Nat) (fresh : Bool) : Round :=
  ⟨fresh, round.offset + byteLength (round.rest.take size), round.rest.drop size⟩

/-- The token that the round makes, and what the next round begins with; there is neither where no
token begins. -/
def next? (round : Round) : Option (Token × Round) :=
  match Token.leading round.fresh round.rest with
  | (_, 0) => none
  | (kind, n + 1) => some (round.token kind (n + 1), round.behind (n + 1) kind.isPunctuation)

/-- Whether rounds in a row make the tokens, and lead from the one round to the other. -/
inductive Run : Round → List Token → Round → Prop where
  /-- No round. -/
  | refl (round : Round) : Run round [] round
  /-- One round, and then others. -/
  | step {round next last : Round} {token : Token} {tokens : List Token} :
    round.next? = some (token, next) → Run next tokens last → Run round (token :: tokens) last

end Round

/-! ## Without the flag -/

namespace Unflagged

/-- The kind of the token that the characters begin with, and its number of characters. -/
def leading (cs : List Char) : Token.Kind × Nat :=
  ((Token.punctuation? cs).or (Token.keyword? cs)).getD (.value, Token.wordLength cs)

/-- Divides the characters of a chunk, the first of which stands at byte `offset`. -/
def ofChunkChars (offset : Nat) (cs : List Char) : Lexing :=
  match cs with
  | [] => empty
  | c :: rest =>
    match leading (c :: rest) with
    | (_, 0) => ⟨[], some (.indivisible (String.ofList (c :: rest)) offset)⟩
    | (kind, n + 1) =>
      let text := c :: rest.take n
      cons ⟨kind, String.ofList text, offset⟩
        (ofChunkChars (offset + byteLength text) (rest.drop n))
termination_by cs.length
decreasing_by simp only [List.length_drop, List.length_cons]; omega

/-- Divides chunks in their order, up to the first that cannot be divided. -/
def ofChunks : List Chunk → Lexing
  | [] => empty
  | chunk :: chunks => ofChunkChars chunk.offset chunk.chars ++ ofChunks chunks

/-- Divides a text. -/
def ofText (text : String) : Lexing :=
  ofChunks (Chunk.ofChars 0 text.toList)

end Unflagged

end LabelQuery.Lexing
