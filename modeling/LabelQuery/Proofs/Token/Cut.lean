import LabelQuery.Proofs.Text.Slice
import LabelQuery.Proofs.Token.Scan
import Mathlib.Data.List.Basic

/-!
# Where a text can be cut

The tokens of a text are found one after another, so a text may be cut in two and each part be
tokenized by itself, as long as the cut does not go through a token. **The law of cuts**
(`scan_append_iff`) says exactly when it does not. Two parts run together in two ways only:

* words meet (`WordsMeet`): the last character of the one and the first of the other are both word
  characters, and so they are of one word;
* signs meet (`SignsMeet`): the one ends in a lone `=` or `!`, and the other begins with the sign of
  equality that this takes into itself. An `=` at the end need not be a lone one: it may be the
  second half of a sign, which takes nothing more. So the tokens have to be asked, and not the
  characters.

The proof goes along the scan to the last token of the first part, the only one that can be touched
by what follows; what this token takes of the second part is `reach_append_eq_iff`. The sufficient
condition that most cuts need is a corollary: a part that begins with a character over which no
token reaches (`Severs`) can always be cut off (`scan_append`).
-/

namespace LabelQuery.Token

open Text (isBlank byteLength)

/-! ## Ends of words -/

/-- Whether a word in front of the characters ends there. -/
def EndsWord (cs : List Char) : Prop :=
  ∀ c ∈ cs.head?, isWordChar c = false

/-- A word ends where the text ends. -/
theorem endsWord_nil : EndsWord [] := nofun

/-- A word ends in front of a character that can be in none, whatever comes behind that. -/
theorem endsWord_cons {c : Char} (other : isWordChar c = false) (cs : List Char) :
    EndsWord (c :: cs) := by
  intro d head
  cases head
  exact other

/-- A word ends where no word characters can be taken. The one form is what the division asks, the
other what the laws of cuts are stated with. -/
theorem takeWhile_eq_nil_iff_endsWord {cs : List Char} :
    cs.takeWhile isWordChar = [] ↔ EndsWord cs := by
  cases cs with
  | nil => exact iff_of_true rfl endsWord_nil
  | cons c cs => simp [EndsWord]

/-- Of a word in front of something that ends it, just the word is taken. -/
theorem takeWhile_append_of_endsWord {word rest : List Char}
    (chars : ∀ c ∈ word, isWordChar c = true) (ends : EndsWord rest) :
    (word ++ rest).takeWhile isWordChar = word := by
  rw [List.takeWhile_append_of_pos chars, takeWhile_eq_nil_iff_endsWord.mpr ends, List.append_nil]

/-! ## Parts that run together -/

/-- Whether the last character of one text and the first of another are both word characters. -/
def WordsMeet (cs more : List Char) : Prop :=
  (∃ c ∈ cs.getLast?, isWordChar c = true) ∧ ∃ d ∈ more.head?, isWordChar d = true

/-- Whether the last of the tokens is a lone sign that ends at the given byte, and the text behind
it begins with a sign of equality. -/
def SignsMeet (tokens : List Token) (stop : Nat) (more : List Char) : Prop :=
  (∃ token ∈ tokens.getLast?, (token.text = "=" ∨ token.text = "!") ∧ token.stop = stop) ∧
    more.head? = some '='

/-- A token ends behind the bytes of its characters. -/
theorem stop_mk (kind : Kind) (text : List Char) (offset : Nat) :
    (Token.mk kind (String.ofList text) offset).stop = offset + byteLength text := by
  rw [stop, String.toList_ofList]

section Meeting

variable {more : List Char}

/-- Only the end of the first text decides whether words meet, so a front may be put before it as
long as something is behind the front. -/
theorem wordsMeet_append (front : List Char) {cs : List Char} (inhabited : cs ≠ []) :
    WordsMeet (front ++ cs) more ↔ WordsMeet cs more := by
  rw [WordsMeet, WordsMeet, List.getLast?_append_of_ne_nil front inhabited]

/-- Where a text is one token, signs meet if it is a lone `=` or `!` and a sign of equality
follows. -/
theorem signsMeet_singleton (kind : Kind) (text : List Char) (offset : Nat) :
    SignsMeet [⟨kind, String.ofList text, offset⟩] (offset + byteLength text) more ↔
      (text = ['='] ∨ text = ['!']) ∧ more.head? = some '=' := by
  have equality : String.ofList text = "=" ↔ text = ['='] := String.ofList_inj
  have exclamation : String.ofList text = "!" ↔ text = ['!'] := String.ofList_inj
  rw [SignsMeet, ← equality, ← exclamation]
  refine and_congr_left' ⟨?_, fun lone => ⟨_, rfl, lone, stop_mk kind text offset⟩⟩
  rintro ⟨token, mem, lone, -⟩
  cases mem
  exact lone

/-- A token that ends before its text does leaves it to those behind it whether signs meet. Its end
is not the end of the text, so blanks behind a last sign keep it apart. -/
theorem signsMeet_cons {token : Token} {tokens : List Token} {stop : Nat}
    (before : token.stop < stop) :
    SignsMeet (token :: tokens) stop more ↔ SignsMeet tokens stop more := by
  cases tokens with
  | nil =>
    refine iff_of_false ?_ nofun
    rintro ⟨⟨last, mem, -, ends⟩, -⟩
    cases mem
    exact before.ne ends
  | cons next tokens => rw [SignsMeet, SignsMeet, List.getLast?_cons_cons]

/-! ## The last token of a text, with more behind it -/

/-- A token that ends before its text does is the same with more text behind: it has been stopped by
a character of its own text. -/
theorem reach_append_of_ne {c : Char} {cs : List Char} (stops : reach c cs ≠ cs) :
    reach c (cs ++ more) = reach c cs := by
  by_cases sign : c = '=' ∨ c = '!'
  · rw [reach_of_sign sign, reach_of_sign sign]
    cases cs with
    | nil => exact absurd (List.prefix_nil.mp (reach_isPrefix c [])) stops
    | cons d ds => rfl
  · cases mark : isMark c with
    | true => rw [reach_of_bracket mark sign, reach_of_bracket mark sign]
    | false =>
      rw [reach_of_plain mark] at stops
      rw [reach_of_plain mark, reach_of_plain mark, List.takeWhile_append, if_neg]
      intro whole
      exact stops ((List.takeWhile_prefix _).eq_of_length whole)

/-- Punctuation at the end of a text takes nothing of what follows, unless it is a lone sign in
front of a sign of equality. -/
theorem reach_append_of_isMark {c : Char} {cs : List Char} (mark : isMark c = true)
    (whole : reach c cs = cs) :
    reach c (cs ++ more) = cs ↔ ¬ ((c :: cs = ['='] ∨ c :: cs = ['!']) ∧ more.head? = some '=') := by
  by_cases lone : c :: cs = ['='] ∨ c :: cs = ['!']
  · obtain ⟨sign, rfl⟩ : (c = '=' ∨ c = '!') ∧ cs = [] := by
      simpa [or_and_right] using lone
    rw [and_iff_right lone, List.nil_append, reach_of_sign sign]
    split <;> simp [*]
  · rw [iff_true_right fun h => lone h.1]
    have text := mem_punctuationTexts mark cs
    rw [whole] at text
    simp only [punctuationTexts, List.mem_cons, List.not_mem_nil, or_false, List.cons.injEq] at text
    rcases text with ⟨rfl, rfl⟩ | ⟨rfl, rfl⟩ | ⟨rfl, rfl⟩ | ⟨rfl, rfl⟩ | ⟨rfl, rfl⟩ | ⟨rfl, rfl⟩ |
      ⟨rfl, rfl⟩
    all_goals first | rfl | exact absurd (by decide) lone

/-- Punctuation ends in no word character, so words do not meet behind it. -/
theorem isWordChar_getLast?_punctuation {c : Char} (mark : isMark c = true) (cs : List Char) :
    ∀ d ∈ (c :: reach c cs).getLast?, isWordChar d = false := by
  have none : ∀ text ∈ punctuationTexts, text.getLast?.any isWordChar = false := by decide
  intro d last
  have ends := none _ (mem_punctuationTexts mark cs)
  rw [Option.mem_def.mp last] at ends
  exact ends

/-- **A token at the end of a text takes nothing of what follows** unless words or signs meet
there. -/
theorem reach_append_eq_iff {c : Char} {cs : List Char} (solid : isBlank c = false)
    (whole : reach c cs = cs) :
    reach c (cs ++ more) = cs ↔ ¬ WordsMeet (c :: cs) more ∧
      ¬ ((c :: cs = ['='] ∨ c :: cs = ['!']) ∧ more.head? = some '=') := by
  cases mark : isMark c with
  | true =>
    have last := isWordChar_getLast?_punctuation mark cs
    rw [whole] at last
    have apart : ¬ WordsMeet (c :: cs) more := by
      rintro ⟨⟨d, mem, word⟩, -⟩
      exact absurd ((last d mem).symm.trans word) Bool.false_ne_true
    rw [and_iff_right apart, reach_append_of_isMark mark whole]
  | false =>
    have word := isWordChar_of_mem_token solid mark cs
    rw [whole] at word
    have other : ¬ (c :: cs = ['='] ∨ c :: cs = ['!']) := by
      rintro (h | h)
      all_goals
        rw [h] at word
        exact absurd (word _ List.mem_cons_self) (by decide)
    have meet : ¬ WordsMeet (c :: cs) more ↔ EndsWord more := by
      have last : ∃ d ∈ (c :: cs).getLast?, isWordChar d = true :=
        ⟨_, List.getLast?_eq_some_getLast (List.cons_ne_nil _ _), word _ (List.getLast_mem _)⟩
      rw [WordsMeet, and_iff_right last, EndsWord]
      simp
    have taken : (cs ++ more).takeWhile isWordChar = cs ++ more.takeWhile isWordChar :=
      List.takeWhile_append_of_pos fun d mem => word d (List.mem_cons_of_mem _ mem)
    rw [reach_of_plain mark, taken, List.append_right_eq_self, takeWhile_eq_nil_iff_endsWord, meet,
      and_iff_left fun h => other h.1]

end Meeting

/-! ## The law of cuts -/

section Step

variable {offset : Nat} {c : Char} {cs more : List Char}

/-- A text over all of which its first token reaches has that token and no other. -/
theorem scan_of_whole (solid : isBlank c = false) (whole : reach c cs = cs) :
    scan offset (c :: cs) = [⟨Kind.ofChars (c :: cs), String.ofList (c :: cs), offset⟩] := by
  rw [scan_token _ solid, whole, List.drop_length, scan_nil]

/-- A text that is one token can be cut off exactly if the token takes nothing of what follows.
Otherwise the token is a longer one, and the scan is another. -/
theorem scan_append_of_whole (solid : isBlank c = false) (whole : reach c cs = cs) :
    scan offset (c :: cs ++ more) =
        scan offset (c :: cs) ++ scan (offset + byteLength (c :: cs)) more ↔
      reach c (cs ++ more) = cs := by
  rw [scan_of_whole solid whole, List.cons_append, scan_token _ solid, List.singleton_append]
  constructor
  · intro same
    have text := congrArg Token.text (List.cons.inj same).1
    exact (List.cons.inj (String.ofList_inj.mp text)).2
  · intro same
    rw [same, List.drop_left]

/-- A token that ends before its text does is found first, whatever follows, and the scan goes on
with the rest of the text. -/
theorem scan_append_of_ne (solid : isBlank c = false) (stops : reach c cs ≠ cs) :
    scan offset (c :: cs ++ more) =
      ⟨Kind.ofChars (c :: reach c cs), String.ofList (c :: reach c cs), offset⟩ ::
        scan (offset + byteLength (c :: reach c cs)) (cs.drop (reach c cs).length ++ more) := by
  rw [List.cons_append, scan_token _ solid, reach_append_of_ne stops,
    List.drop_append_of_le_length (reach_isPrefix c cs).length_le]

end Step

/-- **The law of cuts.** The tokens of a text are those of its two parts, one after the other, if
and only if neither words nor signs meet between the parts. -/
theorem scan_append_iff (offset : Nat) (cs more : List Char) :
    scan offset (cs ++ more) = scan offset cs ++ scan (offset + byteLength cs) more ↔
      ¬ WordsMeet cs more ∧ ¬ SignsMeet (scan offset cs) (offset + byteLength cs) more := by
  induction offset, cs using scan.induct with
  | case1 offset => simp [WordsMeet, SignsMeet]
  | case2 offset c cs blank ih =>
    have words : WordsMeet (c :: cs) more ↔ WordsMeet cs more := by
      cases cs with
      | nil => simp [WordsMeet, isWordChar_of_isBlank blank]
      | cons d ds => exact wordsMeet_append [c] (List.cons_ne_nil d ds)
    rw [List.cons_append, scan_blank _ blank, scan_blank _ blank, words, Text.byteLength_cons,
      ← Nat.add_assoc, ih]
  | case3 offset c cs solid text ih =>
    rw [Bool.not_eq_true] at solid
    by_cases whole : reach c cs = cs
    · -- the first part is this token
      rw [scan_append_of_whole solid whole, reach_append_eq_iff solid whole,
        scan_of_whole solid whole, signsMeet_singleton]
    · -- the cut is behind another token, or behind blanks
      generalize tail : cs.drop (reach c cs).length = rest at ih
      have parts : c :: cs = text ++ rest := by
        rw [List.cons_append, ← tail, reach_append_drop]
      have inhabited : rest ≠ [] := by
        rintro rfl
        rw [List.append_nil] at parts
        exact whole (List.cons.inj parts).2.symm
      have size : offset + byteLength (c :: cs) = offset + byteLength text + byteLength rest := by
        rw [parts, Text.byteLength_append, Nat.add_assoc]
      have words : WordsMeet (c :: cs) more ↔ WordsMeet rest more := by
        rw [parts, wordsMeet_append text inhabited]
      have before : (Token.mk (Kind.ofChars text) (String.ofList text) offset).stop <
          offset + byteLength text + byteLength rest := by
        rw [stop_mk]
        exact Nat.lt_add_of_pos_right (Text.byteLength_pos inhabited)
      rw [words, size, scan_append_of_ne solid whole, scan_token _ solid, tail,
        signsMeet_cons before, List.cons_append, List.cons.injEq, and_iff_right rfl, ih]

/-! ## Cuts that touch no token -/

/-- Whether no token in front of the characters can reach over the first of them. -/
def Severs (cs : List Char) : Prop :=
  ∀ c ∈ cs.head?, isWordChar c = false ∧ c ≠ '='

/-- Nothing reaches over a blank, nor over the end of a text. -/
theorem severs_of_blank {cs : List Char} (blank : ∀ c ∈ cs.head?, isBlank c = true) :
    Severs cs := by
  intro c head
  refine ⟨isWordChar_of_isBlank (blank c head), ?_⟩
  rintro rfl
  exact absurd (blank '=' head) (by decide)

/-- **The scan is local**: cut in front of a character that no token reaches over, a text has the
tokens of its first part, and then those of its second. This is the case of the law of cuts that
most uses need. -/
theorem scan_append (offset : Nat) (cs : List Char) {more : List Char} (severs : Severs more) :
    scan offset (cs ++ more) = scan offset cs ++ scan (offset + byteLength cs) more := by
  rw [scan_append_iff]
  constructor
  · rintro ⟨-, d, head, word⟩
    exact absurd ((severs d head).1.symm.trans word) Bool.false_ne_true
  · rintro ⟨-, head⟩
    exact (severs '=' head).2 rfl

end LabelQuery.Token
