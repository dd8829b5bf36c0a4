import LabelQuery.Token.Munch
import LabelQuery.Token.Spelling
import Mathlib.Data.List.TakeWhile

/-!
# The scan, one token at a time

The scan of a text is unfolded here once: a blank at the front is skipped (`scan_blank`), and any
other character begins a token that reaches over the front of what follows (`scan_token`). Later
proofs go by these two steps.

What one step makes is settled by `reach`: it takes a front part of what follows (`reach_isPrefix`)
without blanks (`isBlank_of_mem_reach`), which for a word is all up to the next character that is no
word character (`reach_of_plain`). The scan does not depend on where the text begins (`scan_add`).

The tokens of a scan are **spelled** (`isSpelled_of_mem_scan`): the text of each is one of the
literals of its kind, or a word if it is a value.
-/

namespace LabelQuery.Token

open Text (isBlank byteLength)

/-! ## Classes of characters -/

theorem isBlank_of_isMark {c : Char} (mark : isMark c = true) : isBlank c = false := by
  simp only [isMark, Bool.or_eq_true, decide_eq_true_eq] at mark
  rcases mark with (((rfl | rfl) | rfl) | rfl) | rfl <;> decide

theorem isBlank_of_isWordChar {c : Char} (word : isWordChar c = true) : isBlank c = false := by
  simp only [isWordChar, Bool.and_eq_true, Bool.not_eq_true'] at word
  exact word.1

theorem isWordChar_of_isBlank {c : Char} (blank : isBlank c = true) : isWordChar c = false := by
  simp only [isWordChar, blank, Bool.not_true, Bool.false_and]

theorem isMark_of_isWordChar {c : Char} (word : isWordChar c = true) : isMark c = false := by
  simp only [isWordChar, Bool.and_eq_true, Bool.not_eq_true'] at word
  exact word.2

/-- Among characters that are not blank, the word characters are those that are no marks. In a chunk
the two tests can take each other's place. -/
theorem isWordChar_of_solid {c : Char} (solid : isBlank c = false) :
    isWordChar c = !isMark c := by
  simp only [isWordChar, solid, Bool.not_false, Bool.true_and]

/-! ## How far a token reaches -/

/-- The signs `=` and `!` reach over one sign of equality, if it follows at once. -/
theorem reach_of_sign {c : Char} (sign : c = '=' ∨ c = '!') (cs : List Char) :
    reach c cs = if cs.head? = some '=' then ['='] else [] := by
  have signs : (c = '=' || c = '!') = true := by
    simpa only [Bool.or_eq_true, decide_eq_true_eq] using sign
  unfold reach
  rw [if_pos signs]
  cases cs with
  | nil => rfl
  | cons d ds => by_cases h : d = '=' <;> simp [h]

theorem reach_of_bracket {c : Char} (mark : isMark c = true) (sign : ¬ (c = '=' ∨ c = '!'))
    (cs : List Char) : reach c cs = [] := by
  have signs : ¬ (c = '=' || c = '!') = true := by
    simpa only [Bool.or_eq_true, decide_eq_true_eq] using sign
  unfold reach
  rw [if_neg signs, if_pos mark]

theorem reach_of_plain {c : Char} (plain : isMark c = false) (cs : List Char) :
    reach c cs = cs.takeWhile isWordChar := by
  have signs : ¬ (c = '=' || c = '!') = true := by
    simp only [isMark, Bool.or_eq_false_iff, decide_eq_false_iff_not] at plain
    simp only [plain.1.1.1, decide_false, Bool.or_false, Bool.false_eq_true, not_false_eq_true]
  unfold reach
  rw [if_neg signs, if_neg (by simp only [plain, Bool.false_eq_true, not_false_eq_true])]

theorem reach_isPrefix (c : Char) (cs : List Char) : reach c cs <+: cs := by
  unfold reach
  split
  · exact (List.takeWhile_prefix _).trans (List.take_prefix 1 cs)
  · split
    · exact List.nil_prefix
    · exact List.takeWhile_prefix _

/-- What a token reaches over and what it leaves are all of what follows its first character. -/
theorem reach_append_drop (c : Char) (cs : List Char) :
    reach c cs ++ cs.drop (reach c cs).length = cs :=
  List.prefix_iff_eq_append.mp (reach_isPrefix c cs)

theorem take_length_reach (c : Char) (cs : List Char) :
    cs.take (reach c cs).length = reach c cs :=
  (List.prefix_iff_eq_take.mp (reach_isPrefix c cs)).symm

theorem isBlank_of_mem_reach {c d : Char} {cs : List Char} (mem : d ∈ reach c cs) :
    isBlank d = false := by
  unfold reach at mem
  split at mem
  · have equality := List.mem_takeWhile_imp mem
    rw [of_decide_eq_true equality]
    rfl
  · split at mem
    · cases mem
    · exact isBlank_of_isWordChar (List.mem_takeWhile_imp mem)

/-- A token that begins with neither a blank nor a mark is a word: all of its characters can be in
one. -/
theorem isWordChar_of_mem_token {c : Char} (solid : isBlank c = false) (plain : isMark c = false)
    (cs : List Char) : ∀ d ∈ c :: reach c cs, isWordChar d = true := by
  intro d mem
  rcases List.mem_cons.mp mem with rfl | mem
  · rw [isWordChar_of_solid solid, plain]
    rfl
  · rw [reach_of_plain plain] at mem
    exact List.mem_takeWhile_imp mem

/-- Behind a word stands what is left when its characters are taken away, which is where the scan
goes on. -/
theorem drop_reach_of_plain {c : Char} (plain : isMark c = false) (cs : List Char) :
    cs.drop (reach c cs).length = cs.dropWhile isWordChar := by
  have whole := List.takeWhile_append_dropWhile (p := isWordChar) (l := cs)
  rw [reach_of_plain plain]
  conv => lhs; arg 2; rw [← whole]
  rw [List.drop_left]

/-- Behind a word, a chunk ends or a mark follows, since nothing in a chunk is blank. -/
theorem isMark_of_mem_head?_drop_reach {c : Char} {cs : List Char} (plain : isMark c = false)
    (solid : ∀ d ∈ cs, isBlank d = false) :
    ∀ d ∈ (cs.drop (reach c cs).length).head?, isMark d = true := by
  intro d head
  rw [drop_reach_of_plain plain] at head
  have mem : d ∈ cs := List.dropWhile_subset _ (List.mem_of_mem_head? head)
  have stopped : isWordChar d = false := by
    have h := List.head?_dropWhile_not isWordChar cs
    rw [Option.mem_def.mp head] at h
    exact h
  rwa [isWordChar_of_solid (solid d mem), Bool.not_eq_false'] at stopped

/-! ## The kind of a token -/

/-- The texts of punctuation. -/
def punctuationTexts : List (List Char) :=
  [['='], ['=', '='], ['!'], ['!', '='], ['('], [')'], [',']]

/-- A token that begins with a mark is punctuation: its text is one of those that punctuation is
spelled with. -/
theorem mem_punctuationTexts {c : Char} (mark : isMark c = true) (cs : List Char) :
    c :: reach c cs ∈ punctuationTexts := by
  by_cases sign : c = '=' ∨ c = '!'
  · rw [reach_of_sign sign]
    rcases sign with rfl | rfl <;> split <;> decide
  · rw [reach_of_bracket mark sign]
    simp only [isMark, Bool.or_eq_true, decide_eq_true_eq] at mark
    rcases mark with ((mark | rfl) | rfl) | rfl
    · exact absurd mark sign
    all_goals decide

/-- The kind of a run of word characters: a keyword if the whole run is one, and a value if not. -/
theorem Kind.ofChars_of_word {w : List Char} (word : ∀ c ∈ w, isWordChar c = true) :
    Kind.ofChars w = if w = ['i', 'n'] then .inKeyword
      else if w = ['n', 'o', 't', 'i', 'n'] then .notinKeyword else .value := by
  unfold Kind.ofChars
  split
  -- a spelling of punctuation begins with a mark
  all_goals try (exact absurd (word _ List.mem_cons_self) (by decide))
  · rfl
  · rfl
  · next hin hnotin => simp_all

/-- The text of a token spells the kind that is read off it, whichever character it begins with. -/
theorem Kind.isSpelledBy_ofChars {c : Char} (solid : isBlank c = false) (cs : List Char) :
    (Kind.ofChars (c :: reach c cs)).IsSpelledBy (String.ofList (c :: reach c cs)) := by
  cases mark : isMark c with
  | true =>
    have spelled : ∀ text ∈ punctuationTexts,
        (Kind.ofChars text).IsSpelledBy (String.ofList text) := by decide
    exact spelled _ (mem_punctuationTexts mark cs)
  | false =>
    have word := isWordChar_of_mem_token solid mark cs
    rw [Kind.ofChars_of_word word]
    split
    · next h => rw [h]; decide
    · split
      · next h => rw [h]; decide
      · next hin hnotin =>
        refine ⟨?_, ?_, ?_, ?_⟩
        · simp
        · simpa using word
        · exact fun h => hin (String.ofList_injective h)
        · exact fun h => hnotin (String.ofList_injective h)

/-- The tokens that begin with a mark are the punctuation. So the kind of a token tells how it
began, and the other way round. -/
theorem Kind.isPunctuation_ofChars {c : Char} (solid : isBlank c = false) (cs : List Char) :
    (Kind.ofChars (c :: reach c cs)).isPunctuation = isMark c := by
  cases mark : isMark c with
  | true =>
    have punctuation : ∀ text ∈ punctuationTexts, (Kind.ofChars text).isPunctuation = true := by
      decide
    exact punctuation _ (mem_punctuationTexts mark cs)
  | false =>
    rw [Kind.ofChars_of_word (isWordChar_of_mem_token solid mark cs)]
    split
    · rfl
    · split <;> rfl

/-! ## The steps of the scan -/

@[simp] theorem scan_nil (offset : Nat) : scan offset [] = [] := by
  rw [scan]

/-- A blank in front of a text is passed over, and its bytes are counted. -/
theorem scan_blank (offset : Nat) {c : Char} (blank : isBlank c = true) (cs : List Char) :
    scan offset (c :: cs) = scan (offset + c.utf8Size) cs := by
  rw [scan, if_pos blank]

/-- Blanks in front of a text move its tokens by their bytes, and do nothing else to them. -/
theorem scan_blanks (offset : Nat) {gap : List Char} (blank : ∀ c ∈ gap, isBlank c = true)
    (cs : List Char) : scan offset (gap ++ cs) = scan (offset + byteLength gap) cs := by
  induction gap generalizing offset with
  | nil => rfl
  | cons c gap ih =>
    have rest := ih (offset + c.utf8Size) fun d mem => blank d (List.mem_cons_of_mem _ mem)
    rw [List.cons_append, scan_blank offset (blank c List.mem_cons_self), rest,
      Text.byteLength_cons, Nat.add_assoc]

/-- The first token of a text that begins with no blank, and the scan of what it leaves. With
`scan_nil` and `scan_blank` it is all that is used of the scan's definition. -/
theorem scan_token (offset : Nat) {c : Char} (solid : isBlank c = false) (cs : List Char) :
    scan offset (c :: cs) =
      ⟨Kind.ofChars (c :: reach c cs), String.ofList (c :: reach c cs), offset⟩ ::
        scan (offset + byteLength (c :: reach c cs)) (cs.drop (reach c cs).length) := by
  rw [scan, if_neg (by simp only [solid, Bool.false_eq_true, not_false_eq_true])]

/-- **Every token of a scan is spelled**: its text is one that its kind can have. -/
theorem isSpelled_of_mem_scan {offset : Nat} {cs : List Char} {token : Token}
    (mem : token ∈ scan offset cs) : token.IsSpelled := by
  induction offset, cs using scan.induct with
  | case1 offset => simp only [scan_nil, List.not_mem_nil] at mem
  | case2 offset c cs blank ih =>
    rw [scan_blank offset blank] at mem
    exact ih mem
  | case3 offset c cs solid text ih =>
    rw [Bool.not_eq_true] at solid
    rw [scan_token offset solid] at mem
    rcases List.mem_cons.mp mem with rfl | mem
    · exact Kind.isSpelledBy_ofChars solid cs
    · exact ih mem

/-- **The scan does not depend on where the text begins**, but for the places of its tokens, which
are that much farther on. -/
theorem scan_add (bytes offset : Nat) (cs : List Char) :
    scan (bytes + offset) cs = (scan offset cs).map (shift bytes) := by
  induction offset, cs using scan.induct with
  | case1 offset => simp only [scan_nil, List.map_nil]
  | case2 offset c cs blank ih =>
    rw [scan_blank _ blank, scan_blank _ blank, Nat.add_assoc, ih]
  | case3 offset c cs solid text ih =>
    rw [Bool.not_eq_true] at solid
    rw [scan_token _ solid, scan_token _ solid, Nat.add_assoc, ih]
    rfl

end LabelQuery.Token
