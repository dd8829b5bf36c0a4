import LabelQuery.Proofs.Token.Cut
import LabelQuery.Token.Chunk

/-!
# Division by chunks is the scan

The division of a text goes chunk by chunk: it tries punctuation, then keywords by what follows
them, then values by probing for the next punctuation, and it carries a flag from token to token.
The scan of `LabelQuery.Token.Munch` does none of this.

**The law** (`Lexing.ofText_eq_scan`): both make the same tokens of every text, and the division
never ends early. Inside a chunk the law has one invariant (`Lexing.ofChunkChars_eq_scan`): where
the flag does not hold, the chunk ends or punctuation follows. A word ends in no other place, so a
keyword that is not looked for could not have been found. Between chunks it is the locality of the
scan (`Token.scan_append`), since no token reaches over a blank.
-/

namespace LabelQuery

open Text (isBlank byteLength)

namespace Token

/-! ## Punctuation -/

/-- Punctuation is found in front of every mark, and it is the token that begins there. The
two-character signs are tried first, as a sign reaches over a sign of equality. -/
theorem punctuation?_of_isMark {c : Char} (mark : isMark c = true) (cs : List Char) :
    punctuation? (c :: cs) = some (Kind.ofChars (c :: reach c cs), (reach c cs).length + 1) := by
  by_cases sign : c = '=' ∨ c = '!'
  · rw [reach_of_sign sign]
    cases cs with
    | nil => rcases sign with rfl | rfl <;> rfl
    | cons d ds =>
      by_cases h : d = '='
      · subst h
        rcases sign with rfl | rfl <;> rfl
      · rcases sign with rfl | rfl <;> simp [punctuation?, Kind.ofChars, h]
  · rw [reach_of_bracket mark sign]
    simp only [isMark, Bool.or_eq_true, decide_eq_true_eq] at mark
    rcases mark with ((mark | rfl) | rfl) | rfl
    · exact absurd mark sign
    all_goals rfl

theorem punctuation?_of_plain {c : Char} (plain : isMark c = false) (cs : List Char) :
    punctuation? (c :: cs) = none := by
  simp only [isMark, Bool.or_eq_false_iff, decide_eq_false_iff_not] at plain
  unfold punctuation?
  split <;> simp_all

/-- Punctuation is found exactly in front of the marks. With it the division, which tries texts, is
compared with the scan, which looks at one character. -/
theorem isSome_punctuation? (c : Char) (cs : List Char) :
    (punctuation? (c :: cs)).isSome = isMark c := by
  cases mark : isMark c with
  | true => rw [punctuation?_of_isMark mark, Option.isSome_some]
  | false => rw [punctuation?_of_plain mark, Option.isSome_none]

/-! ## Words -/

section Chunk

variable {cs : List Char} (solid : ∀ c ∈ cs, isBlank c = false)

include solid

/-- A value is as long as the run of word characters that it begins. In a chunk there are no blanks,
so up to the next punctuation and up to the end of the word are the same. -/
theorem wordLength_eq : wordLength cs = (cs.takeWhile isWordChar).length := by
  induction cs with
  | nil => rfl
  | cons c cs ih =>
    have same := isWordChar_of_solid (solid c List.mem_cons_self)
    have rest := ih fun d mem => solid d (List.mem_cons_of_mem _ mem)
    rw [wordLength, isSome_punctuation?, List.takeWhile_cons, same]
    cases isMark c with
    | true => rfl
    | false => simp only [rest, Bool.false_eq_true, ↓reduceIte, Bool.not_false, List.length_cons]

/-- The characters behind a keyword allow it exactly if the first of them, if there is one, is in no
word, so that no word starts with the keyword and goes on. -/
theorem closesWord_iff : closesWord cs = true ↔ cs.takeWhile isWordChar = [] := by
  cases cs with
  | nil => simp only [closesWord, List.isEmpty_nil, Bool.true_or, List.takeWhile_nil]
  | cons c cs =>
    rw [closesWord, isSome_punctuation?, List.takeWhile_cons,
      isWordChar_of_solid (solid c List.mem_cons_self)]
    cases isMark c <;> simp

/-- **A keyword is found where the whole run of word characters is one**, although only the
characters behind it are looked at. -/
theorem keyword?_eq : keyword? cs =
    if cs.takeWhile isWordChar = ['i', 'n'] then some (.inKeyword, 2)
    else if cs.takeWhile isWordChar = ['n', 'o', 't', 'i', 'n'] then some (.notinKeyword, 5)
    else none := by
  unfold keyword?
  split
  · next rest =>
    have tail : ∀ c ∈ rest, isBlank c = false := fun c mem => solid c (by simp [mem])
    have run : ('n' :: 'o' :: 't' :: 'i' :: 'n' :: rest).takeWhile isWordChar =
        'n' :: 'o' :: 't' :: 'i' :: 'n' :: rest.takeWhile isWordChar := rfl
    rw [run]
    simp only [closesWord_iff tail, List.cons.injEq, Char.reduceEq, false_and, true_and, ↓reduceIte]
  · next rest =>
    have tail : ∀ c ∈ rest, isBlank c = false := fun c mem => solid c (by simp [mem])
    have run : ('i' :: 'n' :: rest).takeWhile isWordChar =
        'i' :: 'n' :: rest.takeWhile isWordChar := rfl
    rw [run]
    simp only [closesWord_iff tail, List.cons.injEq, Char.reduceEq, false_and, true_and, ↓reduceIte]
  · next notNotin notIn =>
    have front := List.takeWhile_append_dropWhile (p := isWordChar) (l := cs)
    rw [if_neg, if_neg]
    · intro run
      rw [run] at front
      exact notNotin _ front.symm
    · intro run
      rw [run] at front
      exact notIn _ front.symm

end Chunk

/-! ## The token at the head of a chunk -/

/-- **What a chunk begins with is what the scan takes there**: the same kind, over the same
characters. Where keywords are not looked for, punctuation has to stand; the invariant of the
division sees to that. -/
theorem leading_eq {fresh : Bool} {c : Char} {cs : List Char}
    (solid : ∀ d ∈ c :: cs, isBlank d = false) (settled : fresh = true ∨ isMark c = true) :
    leading fresh (c :: cs) = (Kind.ofChars (c :: reach c cs), (reach c cs).length + 1) := by
  cases mark : isMark c with
  | true => simp only [leading, punctuation?_of_isMark mark]
  | false =>
    have allowed : fresh = true := settled.resolve_right (by simp [mark])
    have word := isWordChar_of_mem_token (solid c List.mem_cons_self) mark cs
    have run : (c :: cs).takeWhile isWordChar = c :: reach c cs := by
      rw [List.takeWhile_cons, if_pos (word c List.mem_cons_self), reach_of_plain mark]
    show leading fresh (c :: cs) = (Kind.ofChars (c :: reach c cs), (c :: reach c cs).length)
    simp only [leading, punctuation?_of_plain mark, allowed, if_true, keyword?_eq solid, run,
      wordLength_eq solid, Kind.ofChars_of_word word]
    by_cases isIn : c :: reach c cs = ['i', 'n']
    · rw [isIn]
      rfl
    · by_cases isNotin : c :: reach c cs = ['n', 'o', 't', 'i', 'n']
      · rw [isNotin]
        rfl
      · simp only [if_neg isIn, if_neg isNotin]

end Token

namespace Lexing

/-! ## A chunk -/

/-- **A chunk is divided as it is scanned.** The invariant of the division: where the flag does not
hold, no character is left or the next one is a mark. -/
theorem ofChunkChars_eq_scan {n : Nat} {fresh : Bool} {offset : Nat} {cs : List Char}
    (size : cs.length = n) (solid : ∀ c ∈ cs, isBlank c = false)
    (settled : fresh = true ∨ ∀ c ∈ cs.head?, Token.isMark c = true) :
    ofChunkChars fresh offset cs = ⟨Token.scan offset cs, none⟩ := by
  induction n using Nat.strongRecOn generalizing fresh offset cs with
  | ind n ih =>
    cases cs with
    | nil =>
      rw [ofChunkChars, Token.scan_nil]
      rfl
    | cons c cs =>
      have head : isBlank c = false := solid c List.mem_cons_self
      have tail : ∀ d ∈ cs.drop (Token.reach c cs).length, isBlank d = false :=
        fun d mem => solid d (List.mem_cons_of_mem _ (List.mem_of_mem_drop mem))
      have shorter : (cs.drop (Token.reach c cs).length).length < n := by
        rw [← size, List.length_cons, List.length_drop]
        omega
      -- punctuation sets the flag again, and behind a word there is punctuation
      have resettled : (Token.Kind.ofChars (c :: Token.reach c cs)).isPunctuation = true ∨
          ∀ d ∈ (cs.drop (Token.reach c cs).length).head?, Token.isMark d = true := by
        rw [Token.Kind.isPunctuation_ofChars head]
        cases mark : Token.isMark c with
        | true => exact .inl rfl
        | false =>
          exact .inr (Token.isMark_of_mem_head?_drop_reach mark
            fun d mem => solid d (List.mem_cons_of_mem _ mem))
      rw [ofChunkChars, Token.leading_eq solid (settled.imp_right fun h => h c rfl)]
      simp only [Token.take_length_reach]
      rw [ih _ shorter rfl tail resettled, Token.scan_token offset head]
      rfl

/-! ## A text -/

/-- **The law: a text is divided as it is scanned**, and the division does not end early. By the
cases of the cut into chunks: blanks are passed over, and a chunk is divided before what follows
it. -/
theorem ofChunks_eq_scan (offset : Nat) (cs : List Char) :
    ofChunks (Chunk.ofChars offset cs) = ⟨Token.scan offset cs, none⟩ := by
  induction offset, cs using Chunk.ofChars.induct with
  | case1 offset =>
    rw [Chunk.ofChars, Token.scan_nil]
    rfl
  | case2 offset c cs blank ih =>
    rw [Chunk.ofChars, if_pos blank, Token.scan_blank offset blank, ih]
  | case3 offset c cs solid run ih =>
    have chunk : ofChunk ⟨run, offset⟩ = ⟨Token.scan offset run, none⟩ := by
      refine ofChunkChars_eq_scan rfl ?_ (.inl rfl)
      intro d mem
      rcases List.mem_cons.mp mem with rfl | mem
      · simpa using solid
      · simpa using List.mem_takeWhile_imp mem
    have severs : Token.Severs (cs.dropWhile (!isBlank ·)) := by
      refine Token.severs_of_blank fun d head => ?_
      have stopped := List.head?_dropWhile_not (!isBlank ·) cs
      rw [Option.mem_def.mp head] at stopped
      simpa using stopped
    have whole : c :: cs = run ++ cs.dropWhile (!isBlank ·) := by
      rw [List.cons_append, List.takeWhile_append_dropWhile]
    rw [Chunk.ofChars, if_neg solid, ofChunks, chunk, ih]
    conv => rhs; rw [whole, Token.scan_append offset run severs]
    rfl

/-- A text is divided into the tokens of its scan, and the division comes to no error. -/
theorem ofText_eq_scan (text : String) : ofText text = ⟨Token.scan 0 text.toList, none⟩ :=
  ofChunks_eq_scan 0 text.toList

end Lexing

/-- **Tokenizing never fails**, and comes to the tokens of the scan. Everything that is said of the
tokens of a text goes through this equation. -/
theorem tokenize_eq_ok (text : String) : tokenize text = .ok (Token.scan 0 text.toList) := by
  rw [tokenize, Lexing.ofText_eq_scan]
  rfl

end LabelQuery
