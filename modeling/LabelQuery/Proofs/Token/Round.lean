import LabelQuery.Proofs.Token.Tokenizing
import LabelQuery.Token.Round
import Mathlib.Data.List.Chain

/-!
# The flag of the division decides nothing

A keyword is not looked for behind a word. That sounds like a rule about texts, and it is none:
where a word has just ended, no word begins. **The invariant** (`Lexing.Round.Settled`) says so of
what a round begins with: if the flag is not set, the chunk ends there or punctuation follows. A
keyword leaves it so because it looks ahead, and a value because it runs up to the next punctuation
(`Lexing.Round.Step.settled`).

So in every round that finds no punctuation the flag is set (`Lexing.Round.Settled.fresh`), and the
division without the flag goes the same rounds (`Lexing.Round.Step.unflagged`) and makes the same of
each text (`Lexing.Unflagged.ofText_eq`).

That the rounds are those of the division is a law of its own. A round makes the next token of the
division (`Lexing.Round.division_of_next?`), one can be made as long as characters are left
(`Lexing.Round.exists_next?`), and so the rounds lead to the end of the chunk and make all of its
tokens (`Lexing.Round.exists_run_division`).

In the tokens of a text the invariant shows between neighbours (`Token.isChain_scan`): of two words
in a row, the second stands behind a blank.
-/

namespace LabelQuery

open Text (isBlank byteLength)

/-! ## The token at the head of a chunk -/

namespace Token

variable {cs : List Char} {kind : Kind} {size : Nat}

/-- What is found as punctuation has a kind that is punctuation, and takes a character at least. -/
theorem isPunctuation_of_punctuation? (found : punctuation? cs = some (kind, size)) :
    kind.isPunctuation = true ∧ size ≠ 0 := by
  unfold punctuation? at found
  split at found <;> cases found <;> exact ⟨rfl, by decide⟩

/-- A keyword has been looked behind: where one is found, it is no punctuation, and a word can end
behind it. -/
theorem closesWord_of_keyword? (found : keyword? cs = some (kind, size)) :
    kind.isPunctuation = false ∧ size ≠ 0 ∧ closesWord (cs.drop size) = true := by
  unfold keyword? at found
  split at found
  · next rest =>
    split at found
    · next closed =>
      cases found
      exact ⟨rfl, by decide, closed⟩
    · cases found
  · next rest =>
    split at found
    · next closed =>
      cases found
      exact ⟨rfl, by decide, closed⟩
    · cases found
  · cases found

/-- A value runs up to the end of the chunk or to the next punctuation, so a word can end where it
stops. -/
theorem closesWord_drop_wordLength (cs : List Char) :
    closesWord (cs.drop (wordLength cs)) = true := by
  induction cs with
  | nil => rfl
  | cons c cs ih =>
    rw [wordLength]
    split
    · next mark => simp [closesWord, mark]
    · exact ih

/-- Where no punctuation stands, and the chunk has not ended, a value takes a character at least. -/
theorem wordLength_ne_zero (inhabited : cs ≠ []) (plain : punctuation? cs = none) :
    wordLength cs ≠ 0 := by
  cases cs with
  | nil => exact absurd rfl inhabited
  | cons c cs =>
    rw [wordLength, plain]
    exact Nat.succ_ne_zero _

/-- Where characters are left, a token takes one of them at least, whether the flag is set or not.
So a division never gets stuck. -/
theorem leading_ne_zero (fresh : Bool) (inhabited : cs ≠ []) : (leading fresh cs).2 ≠ 0 := by
  unfold leading
  split
  · next found => exact (isPunctuation_of_punctuation? found).2
  · next plain =>
    split
    · next found =>
      split at found
      · exact (closesWord_of_keyword? found).2.1
      · cases found
    · exact wordLength_ne_zero inhabited plain

/-- Where a word can end and no punctuation stands, the chunk ends. This is what makes the flag
idle. -/
theorem eq_nil_of_closesWord (closed : closesWord cs = true) (plain : punctuation? cs = none) :
    cs = [] := by
  simpa [closesWord, plain] using closed

end Token

namespace Lexing

/-- The division makes what its first token says, and goes on behind it. The flag it goes on with is
whether that token was punctuation. -/
theorem ofChunkChars_of_leading {fresh : Bool} {offset size : Nat} {cs : List Char}
    {kind : Token.Kind} (found : Token.leading fresh cs = (kind, size)) (inhabited : size ≠ 0) :
    ofChunkChars fresh offset cs = cons ⟨kind, String.ofList (cs.take size), offset⟩
      (ofChunkChars kind.isPunctuation (offset + byteLength (cs.take size)) (cs.drop size)) := by
  obtain ⟨n, rfl⟩ := Nat.exists_eq_succ_of_ne_zero inhabited
  cases cs with
  | nil => cases fresh <;> cases found
  | cons c cs =>
    rw [ofChunkChars, found]
    rfl

/-- The division without the flag makes what its first token says, and goes on behind it with
nothing to remember. -/
theorem Unflagged.ofChunkChars_of_leading {offset size : Nat} {cs : List Char}
    {kind : Token.Kind} (found : leading cs = (kind, size)) (inhabited : size ≠ 0) :
    ofChunkChars offset cs = cons ⟨kind, String.ofList (cs.take size), offset⟩
      (ofChunkChars (offset + byteLength (cs.take size)) (cs.drop size)) := by
  obtain ⟨n, rfl⟩ := Nat.exists_eq_succ_of_ne_zero inhabited
  cases cs with
  | nil => cases found
  | cons c cs =>
    rw [ofChunkChars, found]
    rfl

namespace Round

variable {round next last : Round} {token : Token} {tokens : List Token}

/-! ## The rounds are those of the division -/

/-- **A round makes the next token of the division**, and what it leads to makes the tokens behind
it. -/
theorem division_of_next? (made : round.next? = some (token, next)) :
    round.division = cons token next.division := by
  unfold next? at made
  split at made
  · cases made
  · next kind n found =>
    cases made
    exact ofChunkChars_of_leading found (Nat.succ_ne_zero n)

/-- **As long as characters are left, a round makes a token**, and leaves fewer of them. -/
theorem exists_next? (left : round.rest ≠ []) :
    ∃ token next, round.next? = some (token, next) ∧ next.rest.length < round.rest.length := by
  have inhabited := Token.leading_ne_zero round.fresh left
  unfold next?
  split
  · next found =>
    rw [found] at inhabited
    exact absurd rfl inhabited
  · next kind n _ =>
    refine ⟨_, _, rfl, ?_⟩
    have size := List.length_pos_of_ne_nil left
    rw [behind, List.length_drop]
    omega

/-- **The rounds lead to the end of the chunk**, because each of them leaves fewer characters. By
induction on their number. -/
theorem exists_run (round : Round) : ∃ tokens last, Run round tokens last ∧ last.rest = [] := by
  induction size : round.rest.length using Nat.strongRecOn generalizing round with
  | ind n ih =>
    by_cases left : round.rest = []
    · exact ⟨[], round, .refl round, left⟩
    · obtain ⟨token, next, made, shorter⟩ := exists_next? left
      obtain ⟨tokens, last, run, done⟩ := ih _ (size ▸ shorter) next rfl
      exact ⟨token :: tokens, last, .step made run, done⟩

/-- The tokens of some rounds are the first that the division makes; the last of the rounds has the
others, and the error if there is one. -/
theorem Run.division (run : Run round tokens last) :
    round.division = ⟨tokens ++ last.division.tokens, last.division.error?⟩ := by
  induction run with
  | refl round => rfl
  | step made _ ih =>
    rw [division_of_next? made, ih]
    rfl

theorem division_of_rest (done : round.rest = []) : round.division = empty := by
  rw [Round.division, done, ofChunkChars]

/-- Whatever has been made on the way is the front of what the division makes, also if it is stopped
there. -/
theorem Run.isPrefix (run : Run round tokens last) : tokens <+: round.division.tokens := by
  rw [run.division]
  exact List.prefix_append _ _

/-- **The rounds make all that the division makes**: they lead to a round with no characters left,
with all the tokens behind them. -/
theorem exists_run_division (round : Round) :
    ∃ last, Run round round.division.tokens last ∧ last.rest = [] := by
  obtain ⟨tokens, last, run, done⟩ := exists_run round
  have all : round.division.tokens = tokens := by
    rw [run.division, division_of_rest done]
    exact List.append_nil tokens
  exact ⟨last, all ▸ run, done⟩

/-! ## The invariant -/

/-- What a round does: a case for each of the three families of tokens. -/
inductive Step (round : Round) : Token → Round → Prop where
  /-- Punctuation is tried first, and sets the flag. -/
  | punctuation {kind : Token.Kind} {size : Nat} :
    Token.punctuation? round.rest = some (kind, size) →
    Step round (round.token kind size) (round.behind size true)
  /-- A keyword is tried next, if the flag is set, and takes it back. -/
  | keyword {kind : Token.Kind} {size : Nat} :
    Token.punctuation? round.rest = none → round.fresh = true →
    Token.keyword? round.rest = some (kind, size) →
    Step round (round.token kind size) (round.behind size false)
  /-- What is left is a value, which takes the flag back too. -/
  | value {size : Nat} : Token.punctuation? round.rest = none →
    (round.fresh = true → Token.keyword? round.rest = none) →
    Token.wordLength round.rest = size → size ≠ 0 →
    Step round (round.token .value size) (round.behind size false)

/-- What a round does is one of the three cases of `Step`, with all that was asked on the way to it.
The invariant and the comparison of the divisions need nothing else of a round. -/
theorem step_of_next? (made : round.next? = some (token, next)) : Step round token next := by
  unfold next? at made
  split at made
  · cases made
  · next kind n leads =>
    cases made
    unfold Token.leading at leads
    split at leads
    -- the next flag is read off the kind, and each family of tokens knows its own
    · next found =>
      cases leads
      rw [(Token.isPunctuation_of_punctuation? found).1]
      exact .punctuation found
    · next plain =>
      split at leads
      · next found =>
        cases leads
        split at found
        · next fresh =>
          rw [(Token.closesWord_of_keyword? found).1]
          exact .keyword plain fresh found
        · cases found
      · next other =>
        obtain ⟨rfl, size⟩ := Prod.mk.inj leads
        refine .value plain (fun fresh => ?_) size (Nat.succ_ne_zero n)
        rwa [if_pos fresh] at other

/-- Whether a word can end here, if no keyword is looked for. -/
def Settled (round : Round) : Prop :=
  round.fresh = true ∨ Token.closesWord round.rest = true

theorem settled_first (chunk : Chunk) : (first chunk).Settled := .inl rfl

/-- **Each round leaves the invariant**: behind punctuation the flag is set, a keyword has been
looked behind, and a value runs up to where a word can end. -/
theorem Step.settled (step : Step round token next) : next.Settled := by
  cases step with
  | punctuation found => exact .inl rfl
  | keyword plain fresh found => exact .inr (Token.closesWord_of_keyword? found).2.2
  | value plain other size _ =>
    rw [← size]
    exact .inr (Token.closesWord_drop_wordLength round.rest)

theorem Run.settled (settled : round.Settled) (run : Run round tokens last) : last.Settled := by
  induction run with
  | refl round => exact settled
  | step made _ ih => exact ih (step_of_next? made).settled

/-- **Where no punctuation stands, the flag is set**, unless the chunk has ended there. -/
theorem Settled.fresh (settled : round.Settled) (left : round.rest ≠ [])
    (plain : Token.punctuation? round.rest = none) : round.fresh = true := by
  rcases settled with fresh | closed
  · exact fresh
  · exact absurd (Token.eq_nil_of_closesWord closed plain) left

/-! ## The division without the flag -/

/-- What the division without the flag makes of a chunk from here on. -/
def unflagged (round : Round) : Lexing :=
  Unflagged.ofChunkChars round.offset round.rest

/-- **A round makes the next token of the division without the flag**, given the invariant. The only
case in which the flag could hold back a keyword is a value, and there it is set. -/
theorem Step.unflagged (settled : round.Settled) (step : Step round token next) :
    round.unflagged = cons token next.unflagged := by
  cases step with
  | @punctuation kind size found =>
    have leads : Unflagged.leading round.rest = (kind, size) := by
      rw [Unflagged.leading, found]
      rfl
    exact Unflagged.ofChunkChars_of_leading leads (Token.isPunctuation_of_punctuation? found).2
  | @keyword kind size plain fresh found =>
    have leads : Unflagged.leading round.rest = (kind, size) := by
      rw [Unflagged.leading, plain, found]
      rfl
    exact Unflagged.ofChunkChars_of_leading leads (Token.closesWord_of_keyword? found).2.1
  | @value size plain other length inhabited =>
    have left : round.rest ≠ [] := by
      intro empty
      rw [empty] at length
      exact inhabited length.symm
    have leads : Unflagged.leading round.rest = (.value, size) := by
      rw [Unflagged.leading, plain, other (settled.fresh left plain), length]
      rfl
    exact Unflagged.ofChunkChars_of_leading leads inhabited

theorem unflagged_of_rest (done : round.rest = []) : round.unflagged = empty := by
  rw [Round.unflagged, done, Unflagged.ofChunkChars]

/-- Along a run of rounds the division without the flag makes the same tokens, and has the others at
the end of it. -/
theorem Run.unflagged (settled : round.Settled) (run : Run round tokens last) :
    round.unflagged = ⟨tokens ++ last.unflagged.tokens, last.unflagged.error?⟩ := by
  induction run with
  | refl round => rfl
  | step made _ ih =>
    have step := step_of_next? made
    rw [step.unflagged settled, ih step.settled]
    rfl

/-- Both divisions go the same rounds, up to the end of the chunk, so they make the same of it. -/
theorem unflagged_eq_division (settled : round.Settled) : round.unflagged = round.division := by
  obtain ⟨tokens, last, run, done⟩ := exists_run round
  rw [run.unflagged settled, run.division, unflagged_of_rest done, division_of_rest done]

end Round

/-- Chunk by chunk the flag makes no difference, as each begins with the flag set. -/
theorem Unflagged.ofChunks_eq (chunks : List Chunk) : ofChunks chunks = Lexing.ofChunks chunks := by
  induction chunks with
  | nil => rfl
  | cons chunk chunks ih =>
    have same : ofChunkChars chunk.offset chunk.chars = ofChunk chunk :=
      Round.unflagged_eq_division (Round.settled_first chunk)
    rw [ofChunks, Lexing.ofChunks, same, ih]

/-- The flag makes no difference to a text, neither to its tokens nor to whether the division
fails. -/
theorem Unflagged.ofText_eq (text : String) : ofText text = Lexing.ofText text :=
  Unflagged.ofChunks_eq _

end Lexing

/-! ## Neighbours -/

namespace Token

/-- Whether between the end of the one token and the beginning of the other there are blanks, at
least one, and nothing else. -/
def AreApart (cs : List Char) (first second : Token) : Prop :=
  ∃ before gap after, cs = before ++ gap ++ after ∧ gap ≠ [] ∧ (∀ c ∈ gap, isBlank c = true) ∧
    first.stop = byteLength before ∧ second.offset = byteLength (before ++ gap)

/-- The first token begins behind the blanks at the front, with a mark if it is punctuation, and
with a word character if it is not. -/
theorem exists_of_mem_head?_scan {offset : Nat} {cs : List Char} {token : Token}
    (mem : token ∈ (scan offset cs).head?) :
    ∃ gap d more, cs = gap ++ d :: more ∧ (∀ c ∈ gap, isBlank c = true) ∧
      token.offset = offset + byteLength gap ∧ isBlank d = false ∧
      token.kind.isPunctuation = isMark d := by
  induction offset, cs using scan.induct with
  | case1 offset =>
    rw [scan_nil] at mem
    cases mem
  | case2 offset c cs blank ih =>
    rw [scan_blank offset blank] at mem
    obtain ⟨gap, d, more, rfl, blanks, place, solid, kind⟩ := ih mem
    refine ⟨c :: gap, d, more, rfl, List.forall_mem_cons.mpr ⟨blank, blanks⟩, ?_, solid, kind⟩
    rw [place, Text.byteLength_cons, Nat.add_assoc]
  | case3 offset c cs solid text ih =>
    rw [Bool.not_eq_true] at solid
    rw [scan_token offset solid] at mem
    cases mem
    exact ⟨[], c, cs, rfl, List.forall_mem_nil _, rfl, solid, Kind.isPunctuation_ofChars solid cs⟩

/-- A word is apart from the token behind it, if that is a word too: its last character is followed
by a character of no word, and only blanks come before the next token. -/
theorem areApart_of_mem_head? {front cs : List Char} {c : Char} {kind : Kind} {second : Token}
    (plain : isMark c = false) (word : second.kind.isPunctuation = false)
    (mem : second ∈ (scan (byteLength front + byteLength (c :: reach c cs))
      (cs.drop (reach c cs).length)).head?) :
    AreApart (front ++ c :: cs) ⟨kind, String.ofList (c :: reach c cs), byteLength front⟩
      second := by
  have ends := endsWord_drop_reach plain cs
  have parts := reach_append_drop c cs
  obtain ⟨gap, d, more, rest, blanks, place, solid, mark⟩ := exists_of_mem_head?_scan mem
  rw [rest] at ends parts
  refine ⟨front ++ c :: reach c cs, gap, d :: more, ?_, ?_, blanks, ?_, ?_⟩
  · conv => lhs; rw [← parts]
    simp only [List.append_assoc, List.cons_append]
  · -- behind a word no word begins
    rintro rfl
    have other : isWordChar d = false := ends d rfl
    rw [isWordChar_of_solid solid, ← mark, word] at other
    cases other
  · rw [stop_mk, Text.byteLength_append]
  · rw [place, Text.byteLength_append, Text.byteLength_append]

/-- **Neighbours that are words are apart.** Here `front` is what stands before the characters, so
that the gap between two tokens can be named in the whole text. -/
theorem isChain_scan (offset : Nat) (cs : List Char) : ∀ front, offset = byteLength front →
    (scan offset cs).IsChain fun first second => first.kind.isPunctuation = false →
      second.kind.isPunctuation = false → AreApart (front ++ cs) first second := by
  induction offset, cs using scan.induct with
  | case1 offset =>
    intro front _
    rw [scan_nil]
    exact .nil
  | case2 offset c cs blank ih =>
    intro front place
    rw [scan_blank offset blank, List.append_cons]
    refine ih _ ?_
    rw [place, Text.byteLength_append, Text.byteLength_cons, Text.byteLength_nil, Nat.add_zero]
  | case3 offset c cs solid text ih =>
    intro front place
    subst place
    rw [Bool.not_eq_true] at solid
    rw [scan_token _ solid, List.isChain_cons]
    constructor
    · intro second mem word word'
      rw [Kind.isPunctuation_ofChars solid] at word
      exact areApart_of_mem_head? word word' mem
    · have parts : front ++ c :: cs = front ++ text ++ cs.drop (reach c cs).length := by
        rw [List.append_assoc, List.cons_append, reach_append_drop]
      rw [parts]
      exact ih (front ++ text) (Text.byteLength_append front text).symm

end Token

/-- **The flag of the division decides nothing.** Every chunk of a text is divided in rounds, up to
its end, and in each round that has characters left and finds no punctuation in front of them, the
flag is set. So the division without the flag makes the same of every text. And where two tokens in
a row are keywords or values, there are blanks between them. -/
theorem tokenize_unflagged (text : String) :
    (∀ chunk ∈ Chunk.ofChars 0 text.toList,
      (∃ last, Lexing.Round.Run (.first chunk) (Lexing.ofChunk chunk).tokens last ∧
        last.rest = []) ∧
      ∀ made round, Lexing.Round.Run (.first chunk) made round →
        made <+: (Lexing.ofChunk chunk).tokens ∧
        (round.rest ≠ [] → Token.punctuation? round.rest = none → round.fresh = true)) ∧
    Lexing.Unflagged.ofText text = Lexing.ofText text ∧
    ∃ tokens, tokenize text = .ok tokens ∧
      tokens.IsChain fun first second => first.kind.isPunctuation = false →
        second.kind.isPunctuation = false → Token.AreApart text.toList first second := by
  refine ⟨fun chunk _ => ⟨Lexing.Round.exists_run_division (.first chunk), ?_⟩,
    Lexing.Unflagged.ofText_eq text, Token.scan 0 text.toList, tokenize_eq_ok text,
    Token.isChain_scan 0 text.toList [] rfl⟩
  intro made round run
  refine ⟨run.isPrefix, fun left plain => ?_⟩
  have settled : round.Settled := run.settled (Lexing.Round.settled_first chunk)
  exact settled.fresh left plain

/-- In a round that is never reached the flag would decide. -/
example : Token.leading true ['i', 'n'] = (.inKeyword, 2) ∧
    Token.leading false ['i', 'n'] = (.value, 2) := by decide

end LabelQuery
