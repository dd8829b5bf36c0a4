import LabelQuery.Token.Basic
import LabelQuery.Text.Basic

/-!
# The tokens of a text, chunk by chunk

A text is first cut into **chunks**, its longest runs without blanks; a token never reaches over a
blank. A chunk is then divided from the left, and at each point of it

* punctuation is tried first, the two-character marks before the one-character ones;
* then, unless a word has just ended here, a **keyword**, which counts only where the chunk ends
  behind it or punctuation follows, so that `notinvalid` begins with no keyword;
* and what is left is a value, which runs up to the next punctuation or to the end of the chunk.

A division that cannot go on would stop with the tokens made so far and an error, and `Lexing`
keeps both: tokens are reported as they are made, whatever becomes of the rest.

The same tokens come out of the one-pass scan of `LabelQuery.Token.Munch`.
-/

namespace LabelQuery

open Text (isBlank byteLength)

/-! ## Chunks -/

/-- A run of text without blanks. -/
structure Chunk where
  /-- The characters of the run. -/
  chars : List Char
  /-- The byte of the whole text at which the run begins. -/
  offset : Nat
deriving DecidableEq, Repr

namespace Chunk

/-- The chunks of the characters from byte `offset` on: the longest runs without blanks, in
order. -/
def ofChars (offset : Nat) : List Char → List Chunk
  | [] => []
  | c :: cs =>
    if isBlank c then ofChars (offset + c.utf8Size) cs
    else
      let run := c :: cs.takeWhile (!isBlank ·)
      ⟨run, offset⟩ :: ofChars (offset + byteLength run) (cs.dropWhile (!isBlank ·))
termination_by cs => cs.length
decreasing_by
  · simp
  · exact Nat.lt_succ_of_le (List.dropWhile_suffix _).length_le

end Chunk

/-! ## The token at the head of a chunk -/

namespace Token

/-- The punctuation that the characters begin with: its kind and its number of characters. -/
def punctuation? : List Char → Option (Kind × Nat)
  | '=' :: '=' :: _ => some (.equal, 2)
  | '!' :: '=' :: _ => some (.notEqual, 2)
  | '=' :: _ => some (.equal, 1)
  | '!' :: _ => some (.exclamation, 1)
  | '(' :: _ => some (.openParen, 1)
  | ')' :: _ => some (.closeParen, 1)
  | ',' :: _ => some (.comma, 1)
  | _ => none

/-- Whether a word can end in front of these characters of a chunk: none are left, or punctuation
begins here. -/
def closesWord (cs : List Char) : Bool :=
  cs.isEmpty || (punctuation? cs).isSome

/-- The keyword that the characters begin with, if the word ends behind it. -/
def keyword? : List Char → Option (Kind × Nat)
  | 'n' :: 'o' :: 't' :: 'i' :: 'n' :: rest =>
    if closesWord rest then some (.notinKeyword, 5) else none
  | 'i' :: 'n' :: rest => if closesWord rest then some (.inKeyword, 2) else none
  | _ => none

/-- The number of characters up to the next punctuation, or up to the end of the chunk. -/
def wordLength : List Char → Nat
  | [] => 0
  | c :: cs => if (punctuation? (c :: cs)).isSome then 0 else wordLength cs + 1

/-- The kind of the token that the characters of a chunk begin with, and its number of characters.

A keyword is only looked for where `fresh` holds, which it does at the head of a chunk and behind
punctuation, but not behind another word. -/
def leading (fresh : Bool) (cs : List Char) : Kind × Nat :=
  match punctuation? cs with
  | some found => found
  | none =>
    match if fresh then keyword? cs else none with
    | some found => found
    | none => (.value, wordLength cs)

end Token

/-! ## Dividing a text -/

/-- What dividing a text came to: the tokens made, in order, and the error that ended it early,
if one did. -/
structure Lexing where
  /-- The tokens made before the division ended. -/
  tokens : List Token
  /-- Why the division ended before the text did, if it did. -/
  error? : Option SyntaxError
deriving DecidableEq, Repr

namespace Lexing

/-- A division that ended without a token and without an error. -/
def empty : Lexing := ⟨[], none⟩

/-- A division that begins with the token and goes on as the given one. -/
def cons (token : Token) (rest : Lexing) : Lexing :=
  ⟨token :: rest.tokens, rest.error?⟩

/-- One division after another; an error of the first ends both. -/
def append (first second : Lexing) : Lexing :=
  match first.error? with
  | none => ⟨first.tokens ++ second.tokens, second.error?⟩
  | some _ => first

instance : Append Lexing := ⟨append⟩

/-- The tokens of a division that went through, or the error that ended it. -/
def toExcept (lexing : Lexing) : Except SyntaxError (List Token) :=
  match lexing.error? with
  | none => .ok lexing.tokens
  | some error => .error error

/-- Divides the characters of a chunk, the first of which stands at byte `offset`. -/
def ofChunkChars (fresh : Bool) (offset : Nat) (cs : List Char) : Lexing :=
  match cs with
  | [] => empty
  | c :: rest =>
    match Token.leading fresh (c :: rest) with
    | (_, 0) => ⟨[], some (.indivisible (String.ofList (c :: rest)) offset)⟩
    | (kind, n + 1) =>
      let text := c :: rest.take n
      cons ⟨kind, String.ofList text, offset⟩
        (ofChunkChars kind.isPunctuation (offset + byteLength text) (rest.drop n))
termination_by cs.length
decreasing_by simp only [List.length_drop, List.length_cons]; omega

/-- Divides a chunk. -/
def ofChunk (chunk : Chunk) : Lexing :=
  ofChunkChars true chunk.offset chunk.chars

/-- Divides chunks in their order, up to the first that cannot be divided. -/
def ofChunks : List Chunk → Lexing
  | [] => empty
  | chunk :: chunks => ofChunk chunk ++ ofChunks chunks

/-- Divides a text. -/
def ofText (text : String) : Lexing :=
  ofChunks (Chunk.ofChars 0 text.toList)

end Lexing

/-- The tokens of a selector text. -/
def tokenize (text : String) : Except SyntaxError (List Token) :=
  (Lexing.ofText text).toExcept

end LabelQuery
