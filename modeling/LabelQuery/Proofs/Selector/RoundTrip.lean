import LabelQuery.Proofs.Selector.Spelling
import LabelQuery.Proofs.Token.Division

/-!
# Selectors read again from their text

A selector is **clean** if its keys and values are words and none of its lists is empty. Exactly the
clean selectors are read again from their own text.

* What is read is clean: each key and each value is the text of a token, so it is spelled as a word
  (`isClean_of_parse`).
* The text of a clean selector has its symbols (`symbolsOf_render`). Text is taken apart from the
  left, one piece of it at a time; a piece keeps its symbols whatever follows, as long as that does
  not begin with a character that the piece would reach over. Words are followed by marks, blanks or
  nothing, and no sign of equality by another.
-/

namespace LabelQuery

open Token (isMark isWordChar reach scan IsWord EndsWord endsWord_nil endsWord_cons
  takeWhile_append_of_endsWord)
open Text (isBlank)

/-! ## The symbols of a text -/

/-- The symbols of the tokens of a text. Its characters are enough, for symbols have no place. -/
def symbolsOf (cs : List Char) : List Symbol :=
  (scan 0 cs).map Token.symbol

/-- Symbols have no place: the tokens of a text have the same ones wherever the text begins, so they
can be looked for from the start of it. -/
theorem map_symbol_scan (offset : Nat) (cs : List Char) :
    (scan offset cs).map Token.symbol = symbolsOf cs := by
  have shifted := Token.scan_add offset 0 cs
  rw [Nat.add_zero] at shifted
  rw [shifted, List.map_map]
  rfl

@[simp] theorem symbolsOf_nil : symbolsOf [] = [] := by
  simp [symbolsOf]

/-- A blank at the front of a text adds no symbol. What a blank does is between tokens, where it
keeps two of them apart. -/
theorem symbolsOf_blank {c : Char} (blank : isBlank c = true) (cs : List Char) :
    symbolsOf (c :: cs) = symbolsOf cs := by
  rw [symbolsOf, Token.scan_blank 0 blank, map_symbol_scan]

/-- The first token of a text, by what it reaches over. -/
theorem symbolsOf_token {c : Char} (solid : isBlank c = false) (reached rest : List Char)
    (reaches : reach c (reached ++ rest) = reached) :
    symbolsOf (c :: reached ++ rest) =
      Token.symbol ⟨Token.Kind.ofChars (c :: reached), String.ofList (c :: reached), 0⟩ ::
        symbolsOf rest := by
  rw [symbolsOf, List.cons_append, Token.scan_token 0 solid, reaches, List.map_cons,
    map_symbol_scan, List.drop_left]

/-- A run of word characters is one token, in front of anything that ends it. -/
theorem symbolsOf_run {c : Char} {cs rest : List Char} (chars : ∀ d ∈ c :: cs, isWordChar d = true)
    (ends : EndsWord rest) :
    symbolsOf (c :: cs ++ rest) =
      Token.symbol ⟨Token.Kind.ofChars (c :: cs), String.ofList (c :: cs), 0⟩ ::
        symbolsOf rest := by
  have first : isWordChar c = true := chars c List.mem_cons_self
  refine symbolsOf_token (Token.isBlank_of_isWordChar first) cs rest ?_
  rw [Token.reach_of_plain (Token.isMark_of_isWordChar first)]
  exact takeWhile_append_of_endsWord (fun d mem => chars d (List.mem_cons_of_mem _ mem)) ends

theorem exists_cons_of_isWord {word : String} (isWord : IsWord word) :
    ∃ c cs, word.toList = c :: cs ∧ ∀ d ∈ c :: cs, isWordChar d = true := by
  have chars := isWord.isWordChar
  cases h : word.toList with
  | nil => exact absurd (String.toList_inj.mp h) isWord.nonempty
  | cons c cs => exact ⟨c, cs, rfl, h ▸ chars⟩

/-- A word at the front of a text is one value, in front of anything that ends it, for it is neither
empty nor one of the keywords. -/
theorem symbolsOf_word {word : String} (isWord : IsWord word) {rest : List Char}
    (ends : EndsWord rest) :
    symbolsOf (word.toList ++ rest) = .word word :: symbolsOf rest := by
  have spelled : String.ofList word.toList = word := String.ofList_toList
  have value : Token.Kind.ofChars word.toList = .value := by
    have ne_in : word.toList ≠ ['i', 'n'] := fun h => isWord.ne_in (String.toList_inj.mp h)
    have ne_notin : word.toList ≠ ['n', 'o', 't', 'i', 'n'] := fun h =>
      isWord.ne_notin (String.toList_inj.mp h)
    rw [Token.Kind.ofChars_of_word isWord.isWordChar, if_neg ne_in, if_neg ne_notin]
  obtain ⟨c, cs, whole, chars⟩ := exists_cons_of_isWord isWord
  rw [whole] at spelled value ⊢
  rw [symbolsOf_run chars ends, spelled, value]
  rfl

/-- A mark at the front of a text, with all that it reaches over, is one symbol of its kind, and is
never mistaken for a value. -/
theorem symbolsOf_punctuation {c : Char} (mark : isMark c = true) (reached rest : List Char)
    (reaches : reach c (reached ++ rest) = reached) :
    symbolsOf (c :: reached ++ rest) =
      .mark (Token.Kind.ofChars (c :: reached)) :: symbolsOf rest := by
  have other : ∀ text ∈ Token.punctuationTexts, Token.Kind.ofChars text ≠ .value := by decide
  have text := Token.mem_punctuationTexts mark (reached ++ rest)
  rw [reaches] at text
  rw [symbolsOf_token (Token.isBlank_of_isMark mark) reached rest reaches,
    Token.symbol_of_ne (other _ text)]

theorem symbolsOf_bracket {c : Char} (mark : isMark c = true) (alone : ¬ (c = '=' ∨ c = '!'))
    (rest : List Char) :
    symbolsOf (c :: rest) = .mark (Token.Kind.ofChars [c]) :: symbolsOf rest :=
  symbolsOf_punctuation mark [] rest (Token.reach_of_bracket mark alone rest)

/-- A sign stands alone if no sign of equality follows, for that is the one character that it would
be put together with. -/
theorem symbolsOf_sign {c : Char} (sign : c = '=' ∨ c = '!') {rest : List Char}
    (alone : rest.head? ≠ some '=') :
    symbolsOf (c :: rest) = .mark (Token.Kind.ofChars [c]) :: symbolsOf rest := by
  have mark : isMark c = true := by
    rcases sign with rfl | rfl <;> rfl
  refine symbolsOf_punctuation mark [] rest ?_
  rw [Token.reach_of_sign sign]
  exact if_neg alone

/-- The mark of absence with a sign of equality directly behind it is the sign of inequality,
whatever follows the two of them. -/
theorem symbolsOf_notEqual (rest : List Char) :
    symbolsOf ('!' :: '=' :: rest) = .mark .notEqual :: symbolsOf rest :=
  symbolsOf_punctuation rfl ['='] rest (Token.reach_of_sign (.inr rfl) _)

/-- Whether a text stands for a comma behind a word, whatever follows it. -/
structure Separates (separator : String) : Prop where
  /-- The word before it ends there. -/
  endsWord : ∀ rest, EndsWord (separator.toList ++ rest)
  /-- It is read as a comma, and as nothing else. -/
  isComma : ∀ rest, symbolsOf (separator.toList ++ rest) = .mark .comma :: symbolsOf rest

theorem separates_comma : Separates "," where
  endsWord := endsWord_cons rfl
  isComma := symbolsOf_bracket rfl (by decide)

theorem separates_spaced : Separates ", " where
  endsWord rest := endsWord_cons rfl (' ' :: rest)
  isComma rest := by
    show symbolsOf (',' :: ' ' :: rest) = _
    rw [symbolsOf_bracket rfl (by decide), symbolsOf_blank rfl]
    rfl

/-- A word does not begin with a sign of equality, so a sign in front of it is not put together with
anything. -/
theorem head?_word {word : String} (isWord : IsWord word) (rest : List Char) :
    (word.toList ++ rest).head? ≠ some '=' := by
  obtain ⟨c, cs, whole, chars⟩ := exists_cons_of_isWord isWord
  rw [whole]
  intro head
  cases head
  exact absurd (chars '=' List.mem_cons_self) (by decide)

/-! ## The symbols of the text of a selector -/

section Separated

variable {separator : String} (separates : Separates separator)

include separates

/-- Words with separators between them and a closing bracket behind have the symbols of the values,
of the commas and of the bracket. -/
theorem symbolsOf_items {values : List String} (words : ∀ value ∈ values, IsWord value)
    (rest : List Char) :
    symbolsOf ((separator.intercalate values).toList ++ ')' :: rest) =
      (values.map .word).intersperse (.mark .comma) ++ .mark .closeParen :: symbolsOf rest := by
  have close : symbolsOf (')' :: rest) = .mark .closeParen :: symbolsOf rest :=
    symbolsOf_bracket rfl (by decide) rest
  induction values with
  | nil => simpa using close
  | cons value values ih =>
    have word := words value List.mem_cons_self
    cases values with
    | nil =>
      rw [String.intercalate_singleton, symbolsOf_word word (endsWord_cons rfl _), close]
      rfl
    | cons next values =>
      have others := ih fun other mem => words other (List.mem_cons_of_mem _ mem)
      simp only [String.intercalate_cons_cons, String.toList_append, List.append_assoc]
      rw [symbolsOf_word word (separates.endsWord _), separates.isComma, others]
      rfl

theorem symbolsOf_list {values : List String} (words : ∀ value ∈ values, IsWord value)
    (rest : List Char) :
    symbolsOf ('(' :: ((separator.intercalate values).toList ++ ')' :: rest)) =
      Symbol.list values ++ symbolsOf rest := by
  rw [symbolsOf_bracket rfl (by decide), symbolsOf_items separates words, Symbol.list,
    List.append_assoc]
  rfl

/-- A key, a keyword between blanks, and a list of values. The keyword is left open, so both
polarities are one statement. -/
theorem symbolsOf_membership {p : Polarity} {c : Char} {cs : List Char}
    (chars : (c :: cs).all isWordChar = true) (spells : Token.Kind.ofChars (c :: cs) = p.keyword)
    {key : String} (isKey : IsWord key) {values : List String}
    (words : ∀ value ∈ values, IsWord value) (rest : List Char) :
    symbolsOf (key.toList ++
        ' ' :: (c :: cs ++ ' ' :: '(' :: ((separator.intercalate values).toList ++ ')' :: rest))) =
      Requirement.symbols ⟨key, p.ofValues values⟩ ++ symbolsOf rest := by
  have other : p.keyword ≠ .value := by
    cases p <;> decide
  rw [symbolsOf_word isKey (endsWord_cons rfl _), symbolsOf_blank rfl,
    symbolsOf_run (List.all_eq_true.mp chars) (endsWord_cons rfl _), spells,
    Token.symbol_of_ne other, symbolsOf_blank rfl, symbolsOf_list separates words,
    Requirement.symbols_ofValues]
  rfl

variable {key : String} (isKey : IsWord key) {values : List String}
  (words : ∀ value ∈ values, IsWord value) (rest : List Char)

include isKey words

/-- The text that asks for one of the values has the symbols of that requirement, in front of
anything, as its bracket ends it. -/
theorem symbolsOf_oneOf :
    symbolsOf ((key ++ " in (" ++ separator.intercalate values ++ ")").toList ++ rest) =
      Requirement.symbols ⟨key, .oneOf values⟩ ++ symbolsOf rest := by
  simp only [String.toList_append, List.append_assoc]
  show symbolsOf (key.toList ++ ' ' :: (['i', 'n'] ++ ' ' :: '(' ::
    ((separator.intercalate values).toList ++ ')' :: rest))) = _
  exact symbolsOf_membership separates (p := .among) rfl rfl isKey words rest

theorem symbolsOf_noneOf :
    symbolsOf ((key ++ " notin (" ++ separator.intercalate values ++ ")").toList ++ rest) =
      Requirement.symbols ⟨key, .noneOf values⟩ ++ symbolsOf rest := by
  simp only [String.toList_append, List.append_assoc]
  show symbolsOf (key.toList ++ ' ' :: (['n', 'o', 't', 'i', 'n'] ++ ' ' :: '(' ::
    ((separator.intercalate values).toList ++ ')' :: rest))) = _
  exact symbolsOf_membership separates (p := .outside) rfl rfl isKey words rest

end Separated

/-- **A requirement of words has its symbols in its text**, in front of anything that ends a
word. -/
theorem symbolsOf_requirement {requirement : Requirement}
    (words : ∀ word ∈ requirement.words, IsWord word) {rest : List Char} (ends : EndsWord rest) :
    symbolsOf (requirement.render.toList ++ rest) = requirement.symbols ++ symbolsOf rest := by
  obtain ⟨key, condition⟩ := requirement
  have isKey : IsWord key := words key List.mem_cons_self
  have isValue : ∀ value ∈ condition.values, IsWord value := fun value mem =>
    words value (List.mem_cons_of_mem _ mem)
  cases condition with
  | present => exact symbolsOf_word isKey ends
  | absent =>
    -- the key keeps the mark from being read as the beginning of an inequality
    rw [Requirement.render, String.toList_append]
    show symbolsOf ('!' :: (key.toList ++ rest)) = _
    rw [symbolsOf_sign (.inr rfl) (head?_word isKey rest), symbolsOf_word isKey ends]
    rfl
  | oneOf values => exact symbolsOf_oneOf separates_spaced isKey isValue rest
  | noneOf values => exact symbolsOf_noneOf separates_spaced isKey isValue rest
  | equals value =>
    have word := isValue value List.mem_cons_self
    simp only [Requirement.render, String.toList_append, List.append_assoc]
    show symbolsOf (key.toList ++ '=' :: (value.toList ++ rest)) = _
    rw [symbolsOf_word isKey (endsWord_cons rfl _),
      symbolsOf_sign (.inl rfl) (head?_word word rest), symbolsOf_word word ends]
    rfl
  | differs value =>
    have word := isValue value List.mem_cons_self
    simp only [Requirement.render, String.toList_append, List.append_assoc]
    show symbolsOf (key.toList ++ '!' :: '=' :: (value.toList ++ rest)) = _
    rw [symbolsOf_word isKey (endsWord_cons rfl _), symbolsOf_notEqual, symbolsOf_word word ends]
    rfl

/-- Requirements with separators between them have the symbols of the selector they form, whichever
of the separators it is. -/
theorem symbolsOf_requirements {separator : String} (separates : Separates separator)
    {requirements : List Requirement}
    (words : ∀ requirement ∈ requirements, ∀ word ∈ requirement.words, IsWord word) :
    symbolsOf (separator.intercalate (requirements.map Requirement.render)).toList =
      Selector.symbols ⟨requirements⟩ := by
  induction requirements with
  | nil => simp [Selector.symbols]
  | cons requirement requirements ih =>
    have first := words requirement List.mem_cons_self
    have others := ih fun other mem => words other (List.mem_cons_of_mem _ mem)
    cases requirements with
    | nil =>
      have whole := symbolsOf_requirement first endsWord_nil
      simpa [Selector.symbols] using whole
    | cons next requirements =>
      -- the separator ends the last word of the requirement, and is a comma to what follows
      have whole := symbolsOf_requirement first (separates.endsWord
        (separator.intercalate ((next :: requirements).map Requirement.render)).toList)
      rw [separates.isComma, others] at whole
      simpa [Selector.symbols, String.intercalate_cons_cons] using whole

namespace Selector

variable {dialect : Dialect} {s : Selector}

/-! ## Reading a text -/

/-- A selector is clean exactly if none of its lists is empty and all of its words, in whichever
role, can stand in a text as words. -/
theorem isClean_iff : s.IsClean ↔ s.IsListed ∧ ∀ word ∈ s.words, IsWord word := by
  constructor
  · rintro ⟨listed, key, values⟩
    refine ⟨listed, fun word mem => ?_⟩
    obtain ⟨requirement, memRequirement, memWord⟩ := List.mem_flatMap.mp mem
    rcases List.mem_cons.mp memWord with rfl | memValue
    · exact key requirement memRequirement
    · exact values requirement memRequirement word memValue
  · rintro ⟨listed, words⟩
    refine ⟨listed, fun requirement mem => ?_, fun requirement mem value memValue => ?_⟩
    · exact words _ (List.mem_flatMap.mpr ⟨requirement, mem, List.mem_cons_self⟩)
    · exact words _ (List.mem_flatMap.mpr ⟨requirement, mem, List.mem_cons_of_mem _ memValue⟩)

/-- The text of a clean selector has its symbols: it is joined by commas with spaces, and all that
it is joined of is words and lists of them. -/
theorem symbolsOf_render (clean : s.IsClean) : symbolsOf s.render.toList = s.symbols :=
  symbolsOf_requirements separates_spaced fun requirement mem word memWord =>
    (isClean_iff.mp clean).2 word (List.mem_flatMap.mpr ⟨requirement, mem, memWord⟩)

/-- A text is read by the tokens that the scan of its characters finds; there is no text that
tokenizing refuses. -/
theorem parse_eq_ofTokens (dialect : Dialect) (text : String) :
    parse dialect text = ofTokens dialect (scan 0 text.toList) := by
  rw [parse, tokenize_eq_ok]
  rfl

/-- **What is read is clean**, in either dialect: each key and each value was a token, and no
brackets without a value are taken. -/
theorem isClean_of_parse {text : String} (h : parse dialect text = .ok s) : s.IsClean := by
  rw [parse_eq_ofTokens] at h
  obtain ⟨spelled, -⟩ := ofTokens_eq_ok_iff.mp h
  refine isClean_iff.mpr ⟨spelled.1, fun word mem => ?_⟩
  rw [← spelled.words_eq] at mem
  obtain ⟨token, memFilter, rfl⟩ := List.mem_map.mp mem
  obtain ⟨memScan, value⟩ := List.mem_filter.mp memFilter
  have isSpelled := Token.isSpelled_of_mem_scan memScan
  rw [Token.IsSpelled, Token.Kind.IsSpelledBy, if_pos (of_decide_eq_true value)] at isSpelled
  exact isSpelled

/-- A text is read as the selector whose symbols it has, in any dialect that has its forms. -/
theorem parse_of_symbolsOf {text : String} (listed : s.IsListed)
    (symbols : symbolsOf text.toList = s.symbols) (setBased : dialect = .setBased → s.IsSetBased) :
    parse dialect text = .ok s := by
  rw [parse_eq_ofTokens, ofTokens_eq_ok_iff]
  exact ⟨⟨listed, .inl symbols⟩, setBased⟩

/-- A clean selector is read again from its text, in any dialect that has its forms. -/
theorem parse_render_of_isClean (clean : s.IsClean) (setBased : dialect = .setBased → s.IsSetBased) :
    parse dialect s.render = .ok s :=
  parse_of_symbolsOf clean.isListed (symbolsOf_render clean) setBased

/-- What the set-based dialect reads is without the two forms of equality, so that dialect reads it
again from its text. -/
theorem isSetBased_of_parse {text : String} (h : parse .setBased text = .ok s) : s.IsSetBased := by
  rw [parse_eq_ofTokens] at h
  exact (ofTokens_eq_ok_iff.mp h).2 rfl

/-- **Exactly the clean selectors are read again from their text**, and all that is ever read is
clean. -/
theorem parse_render_exact (s : Selector) :
    (parse .full s.render = .ok s ↔ s.IsClean) ∧
    (parse .setBased s.render = .ok s ↔ s.IsClean ∧ s.IsSetBased) ∧
    ∀ dialect text, parse dialect text = .ok s → s.IsClean ∧ parse dialect s.render = .ok s := by
  refine ⟨⟨isClean_of_parse, fun clean => parse_render_of_isClean clean nofun⟩,
    ⟨fun h => ⟨isClean_of_parse h, isSetBased_of_parse h⟩,
      fun h => parse_render_of_isClean h.1 fun _ => h.2⟩, fun dialect text h => ?_⟩
  have clean := isClean_of_parse h
  refine ⟨clean, parse_render_of_isClean clean ?_⟩
  rintro rfl
  exact isSetBased_of_parse h

end Selector

end LabelQuery
