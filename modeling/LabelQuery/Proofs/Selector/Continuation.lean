import LabelQuery.Proofs.Selector.RoundTrip

/-!
# What a text leaves to the text behind it

A selector text may be handed over piece by piece, with blanks where the pieces meet. **The law**
(`Selector.parse_append_gap`) says what the first piece settles for good.

* A misplaced token stays what it is: no text that follows repairs the error or changes it.
* Everything else can still become a selector, and in that selector the values read so far come
  first, in their order.

Blanks keep the tokens of the first piece as they are (`Selector.parse_append_gap_eq`), so both
parts are about readings of token lists: a run that has failed stays so, and for each stage there is
a text that brings it to an end (`Reading.exists_completing_text`).
-/

namespace LabelQuery

open Text (isBlank byteLength)
open Token (scan)

/-- No reading is a dead end for texts either: from wherever its tokens are counted, some text
brings it to the end of a selector. For each stage there is one that does not depend on what has
been read. -/
theorem Reading.exists_completing_text (dialect : Dialect) (reading : Reading) (offset : Nat) :
    ∃ (more : String) (s : Selector),
      outcome dialect reading (scan offset more.toList) = .ok s := by
  have completes : ∀ (more : String) (tokens : List Token), scan 0 more.toList = tokens →
      (∃ s, outcome dialect reading (tokens.map (Token.shift offset)) = .ok s) →
      ∃ (more : String) (s : Selector),
        outcome dialect reading (scan offset more.toList) = .ok s := by
    rintro more _ rfl ⟨s, ends⟩
    have moved := Token.scan_add offset 0 more.toList
    rw [Nat.add_zero] at moved
    exact ⟨more, s, by rw [moved, ends]⟩
  obtain ⟨done, stage⟩ := reading
  cases stage with
  | start => exact completes "" [] (Token.scan_nil 0) ⟨_, rfl⟩
  | negation => exact completes "a" [⟨.value, "a", 0⟩] (by decide +kernel) ⟨_, rfl⟩
  | key k => exact completes "" [] (Token.scan_nil 0) ⟨_, rfl⟩
  | membership k p =>
    exact completes "(a)" [⟨.openParen, "(", 0⟩, ⟨.value, "a", 1⟩, ⟨.closeParen, ")", 2⟩]
      (by decide +kernel) ⟨_, rfl⟩
  | item k p values =>
    exact completes "a)" [⟨.value, "a", 0⟩, ⟨.closeParen, ")", 1⟩] (by decide +kernel) ⟨_, rfl⟩
  | listed k p values => exact completes ")" [⟨.closeParen, ")", 0⟩] (by decide +kernel) ⟨_, rfl⟩
  | operand k p => exact completes "a" [⟨.value, "a", 0⟩] (by decide +kernel) ⟨_, rfl⟩
  | complete => exact completes "" [] (Token.scan_nil 0) ⟨_, rfl⟩

namespace Selector

variable {dialect : Dialect} {tokens : List Token}

/-! ## Token lists with more behind them -/

/-- A misplaced token is always found by the run and never by the end, since at the end there is no
token left that could be to blame. -/
theorem ofTokens_eq_misplaced_iff {token : Token} {expected : List Token.Kind} :
    ofTokens dialect tokens = .error (.misplaced token expected) ↔
      Reading.run dialect Reading.initial tokens = .error (.misplaced token expected) := by
  cases taken : Reading.run dialect Reading.initial tokens with
  | error error => rw [ofTokens_of_run_error taken, Except.error.injEq, Except.error.injEq]
  | ok last =>
    rw [ofTokens_of_run_ok taken]
    refine iff_of_false (fun ends => ?_) nofun
    cases Reading.finish_eq_error ends

/-- **A misplaced token stays misplaced**, whatever follows. -/
theorem ofTokens_append_of_misplaced {token : Token} {expected : List Token.Kind}
    (wrong : ofTokens dialect tokens = .error (.misplaced token expected)) (more : List Token) :
    ofTokens dialect (tokens ++ more) = .error (.misplaced token expected) := by
  rw [ofTokens_eq_misplaced_iff] at wrong ⊢
  exact Reading.run_append_of_error wrong more

/-- A list without a misplaced token is taken to its end, whether or not it may stop there; this is
where what can still be completed begins. -/
theorem exists_run_of_not_misplaced
    (right : ∀ token expected, ofTokens dialect tokens ≠ .error (.misplaced token expected)) :
    ∃ last, Reading.run dialect Reading.initial tokens = .ok last := by
  cases taken : Reading.run dialect Reading.initial tokens with
  | ok last => exact ⟨last, rfl⟩
  | error error =>
    obtain ⟨_, token, _, middle, -, -, step⟩ := Reading.run_eq_error taken
    obtain rfl := Reading.advance_eq_error step
    exact absurd (ofTokens_eq_misplaced_iff.mpr taken) (right token _)

/-- The values of the first tokens of a selector come first among its words. Nothing that follows
can reorder them or get in between. -/
theorem values_prefix_words {s : Selector} {more : List Token}
    (read : ofTokens dialect (tokens ++ more) = .ok s) :
    (tokens.filter (·.kind = .value)).map Token.text <+: s.words := by
  obtain ⟨spelled, -⟩ := ofTokens_eq_ok_iff.mp read
  rw [← spelled.words_eq, List.filter_append, List.map_append]
  exact List.prefix_append _ _

/-! ## Texts with more behind them -/

section Gap

variable {gap : String} (inhabited : gap ≠ "") (blank : ∀ c ∈ gap.toList, isBlank c = true)

include inhabited blank

/-- Blanks keep the tokens in front of them as they are, so the text behind them adds its own
tokens, counted from the end of the gap. -/
theorem parse_append_gap_eq (dialect : Dialect) (text more : String) :
    parse dialect (text ++ gap ++ more) = ofTokens dialect (scan 0 text.toList ++
      scan (byteLength text.toList + byteLength gap.toList) more.toList) := by
  have severs : Token.Severs (gap.toList ++ more.toList) := by
    refine Token.severs_of_blank fun c head => blank c ?_
    rw [List.head?_append_of_ne_nil _ (by simpa using inhabited)] at head
    exact List.mem_of_mem_head? head
  rw [parse_eq_ofTokens, String.toList_append, String.toList_append, List.append_assoc,
    Token.scan_append 0 _ severs, Token.scan_blanks _ blank, Nat.zero_add]

/-- **Text that follows behind blanks cannot repair or change an error**, and everything else can be
completed, to a selector whose keys and values begin with those of the text. -/
theorem parse_append_gap (dialect : Dialect) (text : String) :
    (∀ token expected, parse dialect text = .error (.misplaced token expected) →
      ∀ more, parse dialect (text ++ gap ++ more) = .error (.misplaced token expected)) ∧
    ((∃ s, parse dialect text = .ok s) ∨
        (∃ expected, parse dialect text = .error (.truncated expected)) →
      ∃ more s tokens, parse dialect (text ++ gap ++ more) = .ok s ∧ tokenize text = .ok tokens ∧
        (tokens.filter (·.kind = .value)).map Token.text <+: s.words) := by
  constructor
  · intro token expected wrong more
    rw [parse_eq_ofTokens] at wrong
    rw [parse_append_gap_eq inhabited blank]
    exact ofTokens_append_of_misplaced wrong _
  · intro right
    have placed : ∀ token expected,
        ofTokens dialect (scan 0 text.toList) ≠ .error (.misplaced token expected) := by
      intro token expected wrong
      rw [parse_eq_ofTokens, wrong] at right
      rcases right with ⟨_, ⟨⟩⟩ | ⟨_, ⟨⟩⟩
    obtain ⟨last, taken⟩ := exists_run_of_not_misplaced placed
    obtain ⟨more, s, completed⟩ := Reading.exists_completing_text dialect last
      (byteLength text.toList + byteLength gap.toList)
    rw [← Reading.outcome_append_of_ok taken, ← ofTokens_eq_outcome] at completed
    refine ⟨more, s, _, ?_, tokenize_eq_ok text, values_prefix_words completed⟩
    rw [parse_append_gap_eq inhabited blank, completed]

end Gap

/-- A keyword in the place of a value stays misplaced in front of every text, and a list that is
still open can be closed, with the wide blank of three bytes as the gap. -/
theorem parse_append_gap_keyword :
    (∀ more, parse .full ("é = in" ++ "\u3000" ++ more) =
      .error (.misplaced ⟨.inKeyword, "in", 5⟩ [.value])) ∧
    ∃ more s tokens, parse .setBased ("b notin (x, y" ++ "\u3000" ++ more) = .ok s ∧
      tokenize "b notin (x, y" = .ok tokens ∧
      (tokens.filter (·.kind = .value)).map Token.text <+: s.words := by
  have gap : ∀ c ∈ "\u3000".toList, isBlank c = true :=
    List.all_eq_true.mp (by decide)
  have wrong : parse .full "é = in" = .error (.misplaced ⟨.inKeyword, "in", 5⟩ [.value]) := by
    decide +kernel
  have unfinished : parse .setBased "b notin (x, y" =
      .error (.truncated [.comma, .closeParen]) := by
    decide +kernel
  exact ⟨(parse_append_gap (by decide) gap .full "é = in").1 _ _ wrong,
    (parse_append_gap (by decide) gap .setBased "b notin (x, y").2 (.inr ⟨_, unfinished⟩)⟩

end Selector

end LabelQuery
