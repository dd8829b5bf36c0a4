import LabelQuery.Text.Basic
import LabelQuery.Token.Basic

/-!
# The tokens of a text, in one pass

A scan from the left by **longest match**: blanks are skipped, and every other character begins a
token that reaches as far as it can. How far that is depends on its first character alone: a word
reaches over all the word characters that follow, the marks `=` and `!` reach over one sign of
equality, and the brackets and the comma stand alone. The kind is then read off the whole token, so
a keyword is a word like any other until all of it has been seen.

The scan knows of no chunks, looks at nothing behind a token and carries nothing from one token to
the next. It makes the tokens that `LabelQuery.Token.Chunk` makes.
-/

namespace LabelQuery.Token

open Text (isBlank byteLength)

/-- The characters, from the front of `cs`, over which a token that begins with `c` reaches. -/
def reach (c : Char) (cs : List Char) : List Char :=
  if c = '=' || c = '!' then (cs.take 1).takeWhile (· = '=')
  else if isMark c then []
  else cs.takeWhile isWordChar

/-- The kind of a token, by its characters. -/
def Kind.ofChars : List Char → Kind
  | ['='] | ['=', '='] => .equal
  | ['!', '='] => .notEqual
  | ['!'] => .exclamation
  | ['('] => .openParen
  | [')'] => .closeParen
  | [','] => .comma
  | ['i', 'n'] => .inKeyword
  | ['n', 'o', 't', 'i', 'n'] => .notinKeyword
  | _ => .value

/-- The tokens of the characters from byte `offset` on. -/
def scan (offset : Nat) : List Char → List Token
  | [] => []
  | c :: cs =>
    if isBlank c then scan (offset + c.utf8Size) cs
    else
      let text := c :: reach c cs
      ⟨Kind.ofChars text, String.ofList text, offset⟩ ::
        scan (offset + byteLength text) (cs.drop (reach c cs).length)
termination_by cs => cs.length
decreasing_by
  · simp
  · simp only [List.length_drop, List.length_cons]; omega

end LabelQuery.Token
