import LabelQuery.Selector.Symbols

/-!
# Laws of symbols

Symbols stand in lists with separators, and readers and writers go through such lists from one end
or the other. The laws of the first section say what a list looks like from its end
(`intercalate_concat`) and in front of one more separator (`intercalate_append_self`).

The values among some tokens are the words of the selector that the tokens spell, in order
(`IsSpelledBy.words_eq`).
-/

namespace LabelQuery

/-! ## Lists with separators -/

section Lists

variable {α : Type}

/-- Seen from its end, a list with separators is its last part behind all the others, each of which
has its own separator after it. -/
theorem intercalate_concat (sep last : List α) (parts : List (List α)) :
    sep.intercalate (parts ++ [last]) = parts.flatMap (· ++ sep) ++ last := by
  induction parts with
  | nil => simp
  | cons part parts ih =>
    rw [List.cons_append, List.intercalate_cons_of_ne_nil (by simp), ih, List.flatMap_cons]
    simp only [List.append_assoc]

/-- One more separator behind a list that is not empty puts a separator after every part. This is
the list as a reader sees it that is ready for the next part. -/
theorem intercalate_append_self {sep : List α} {parts : List (List α)} (inhabited : parts ≠ []) :
    sep.intercalate parts ++ sep = parts.flatMap (· ++ sep) := by
  obtain ⟨front, last, rfl⟩ := (List.eq_nil_or_concat parts).resolve_left inhabited
  rw [List.concat_eq_append, intercalate_concat, List.flatMap_append]
  simp only [List.flatMap_cons, List.flatMap_nil, List.append_nil, List.append_assoc]

/-- Single elements with a separator between them are parts of length one, so the laws of joined
lists are laws of values between commas. -/
theorem intersperse_eq_intercalate (sep : α) (items : List α) :
    items.intersperse sep = [sep].intercalate (items.map ([·])) := by
  induction items with
  | nil => rfl
  | cons item items ih =>
    cases items with
    | nil => rfl
    | cons next items =>
      rw [List.intersperse_cons_cons, ih]
      simp only [List.map_cons, List.intercalate_cons_cons, List.cons_append, List.nil_append]

theorem intersperse_concat (sep last : α) (items : List α) :
    (items ++ [last]).intersperse sep = items.flatMap ([·, sep]) ++ [last] := by
  rw [intersperse_eq_intercalate, List.map_append, List.map_singleton, intercalate_concat,
    List.flatMap_map]
  rfl

theorem intersperse_append_self {sep : α} {items : List α} (inhabited : items ≠ []) :
    items.intersperse sep ++ [sep] = items.flatMap ([·, sep]) := by
  rw [intersperse_eq_intercalate, intercalate_append_self (by simpa using inhabited),
    List.flatMap_map]
  rfl

/-- A selection that drops the separator goes through a joined list part by part, so separators
leave no trace in what is selected. -/
theorem filterMap_intercalate {β : Type} {f : α → Option β} {sep : List α}
    (silent : sep.filterMap f = []) (parts : List (List α)) :
    (sep.intercalate parts).filterMap f = parts.flatMap (·.filterMap f) := by
  induction parts with
  | nil => rfl
  | cons part parts ih =>
    cases parts with
    | nil => simp
    | cons next parts =>
      rw [List.intercalate_cons_cons, List.filterMap_append, List.filterMap_append, silent, ih,
        List.append_nil]
      rfl

end Lists

/-! ## The symbols of tokens and requirements -/

namespace Polarity

/-- The keyword in front of a list of values. -/
def keyword : Polarity → Token.Kind
  | among => .inKeyword
  | outside => .notinKeyword

/-- The sign in front of a single value. -/
def sign : Polarity → Token.Kind
  | among => .equal
  | outside => .notEqual

end Polarity

@[simp] theorem Token.symbol_value (text : String) (offset : Nat) :
    Token.symbol ⟨.value, text, offset⟩ = .word text := rfl

/-- Of any other token the grammar sees the kind alone; a sign of equality is the same in both of
its spellings. -/
@[simp] theorem Token.symbol_of_ne {kind : Kind} (other : kind ≠ .value) (text : String)
    (offset : Nat) :
    Token.symbol ⟨kind, text, offset⟩ = .mark kind := by
  simp [symbol, other, Symbol.mark]

/-- Both forms that list values have the key first, then the keyword of their polarity, and then the
list in brackets. -/
theorem Requirement.symbols_ofValues (key : String) (p : Polarity) (values : List String) :
    Requirement.symbols ⟨key, p.ofValues values⟩ =
      .word key :: .mark p.keyword :: Symbol.list values := by
  cases p <;> rfl

theorem Requirement.symbols_ofValue (key : String) (p : Polarity) (value : String) :
    Requirement.symbols ⟨key, p.ofValue value⟩ = [.word key, .mark p.sign, .word value] := by
  cases p <;> rfl

namespace Selector

/-! ## The words of a selector -/

theorem filterMap_word?_list (values : List String) :
    (Symbol.list values).filterMap Symbol.word? = values := by
  have words : ((values.map Symbol.word).intersperse (.mark .comma)).filterMap Symbol.word? =
      values := by
    rw [intersperse_eq_intercalate, filterMap_intercalate rfl, List.map_map, List.flatMap_map]
    exact List.flatMap_singleton' values
  rw [Symbol.list, List.filterMap_append, List.filterMap_cons_none rfl, words]
  exact List.append_nil values

/-- The words among the symbols of a selector are its keys and values as they come in its text, each
of them once for each place. -/
theorem filterMap_word?_symbols (s : Selector) : s.symbols.filterMap Symbol.word? = s.words := by
  rw [symbols, filterMap_intercalate rfl, List.flatMap_map, words]
  congr 1
  funext requirement
  obtain ⟨key, condition⟩ := requirement
  cases condition with
  | oneOf values | noneOf values =>
    exact congrArg (key :: ·) (filterMap_word?_list values)
  | _ => rfl

/-- The words among the symbols of some tokens are the texts of the values among these tokens,
whatever the tokens spell. -/
theorem filterMap_word?_tokens (tokens : List Token) :
    (tokens.map Token.symbol).filterMap Symbol.word? =
      (tokens.filter (·.kind = .value)).map Token.text := by
  induction tokens with
  | nil => rfl
  | cons token tokens ih =>
    by_cases value : token.kind = .value
    · rw [List.filter_cons_of_pos (by simpa using value), List.map_cons, List.map_cons, ← ih]
      exact List.filterMap_cons_some (by simp [Token.symbol, value])
    · rw [List.filter_cons_of_neg (by simpa using value), List.map_cons, ← ih]
      exact List.filterMap_cons_none (by simp [Token.symbol, value])

/-- The values among the tokens are the words of the selector they spell, in order. -/
theorem IsSpelledBy.words_eq {s : Selector} {tokens : List Token} (h : s.IsSpelledBy tokens) :
    (tokens.filter (·.kind = .value)).map Token.text = s.words := by
  rw [← filterMap_word?_tokens, ← filterMap_word?_symbols]
  rcases h.2 with symbols | ⟨-, symbols⟩
  · rw [symbols]
  · rw [symbols, List.filterMap_append]
    exact List.append_nil _

end Selector

end LabelQuery
