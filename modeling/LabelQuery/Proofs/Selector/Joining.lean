import LabelQuery.Proofs.Selector.RoundTrip

/-!
# Selector texts joined by a comma

Two selector texts with a comma between them ask for what both of them ask. **The law**
(`Selector.parse_append_comma`) is about everything that comes of the joined text, the errors
included: if the comma is in place, the second text is read behind it as it would be alone, so its
requirements follow those of the first, and its error is the error, moved by what stands in front.
The comma is not in place behind a text without tokens and behind one that ends in a comma already;
then it is the error, whatever follows.

Three things come together.

* The comma is a token by itself, so the texts are tokenized apart (`Token.scan_comma`).
* A comma behind a requirement leads to the stage at which a reading begins (`Reading.Closes`). That
  it stands behind one can be seen from the last token (`Reading.stage_eq_start_iff`).
* A reader looks neither at the places of tokens nor at what has been completed before
  (`Reading.advance_onto_shift`); by `Reading.outcome_map` this carries over from one token to all.
-/

namespace LabelQuery

open Text (byteLength)

/-- The error as it is in a text with so many bytes put in front. -/
def SyntaxError.shift (bytes : Nat) : SyntaxError → SyntaxError
  | misplaced token expected => .misplaced (token.shift bytes) expected
  | truncated expected => .truncated expected
  | indivisible rest offset => .indivisible rest (bytes + offset)

/-- A comma parts a text: what stands before it and what stands behind it are divided on their own,
and it is a token by itself between them. -/
theorem Token.scan_comma (offset : Nat) (cs more : List Char) :
    scan offset (cs ++ ',' :: more) = scan offset cs ++
      ⟨.comma, ",", offset + byteLength cs⟩ :: scan (offset + byteLength cs + 1) more := by
  have severs : Severs (',' :: more) := by
    rintro c ⟨⟩
    decide
  have alone : reach ',' more = [] := reach_of_bracket rfl (by decide) more
  rw [scan_append offset cs severs, scan_token _ (by decide), alone]
  rfl

namespace Reading

variable {dialect : Dialect}

/-- The reading with other requirements completed before it. -/
def onto (base : List Requirement) (reading : Reading) : Reading :=
  ⟨reading.done ++ base, reading.stage⟩

/-! ## What a reader does not look at -/

/-- A step depends neither on where a token stands nor on what was completed before, so both can be
changed beforehand or afterwards. -/
theorem advance_onto_shift (base : List Requirement) (bytes : Nat) (reading : Reading)
    (token : Token) :
    (reading.onto base).advance dialect (token.shift bytes) =
      ((reading.advance dialect token).mapError (·.shift bytes)).map (onto base) := by
  have same : reading.stage.next? dialect (token.shift bytes) =
      reading.stage.next? dialect token := rfl
  cases step : reading.stage.next? dialect token with
  | none =>
    simp only [advance, onto, same, step]
    rfl
  | some next =>
    obtain ⟨completed?, stage⟩ := next
    simp only [advance, onto, same, step, ← List.append_assoc]
    rfl

theorem finish_onto (base : List Requirement) (bytes : Nat) (reading : Reading) :
    (reading.onto base).finish dialect =
      ((reading.finish dialect).mapError (·.shift bytes)).map (⟨base.reverse⟩ ++ ·) := by
  obtain ⟨done, stage⟩ := reading
  cases ends : stage.finish dialect with
  | error error =>
    obtain rfl := Stage.finish_eq_error ends
    simp only [finish, onto, ends]
    rfl
  | ok last? =>
    have parts : (last?.toList ++ (done ++ base)).reverse =
        base.reverse ++ (last?.toList ++ done).reverse := by
      rw [← List.append_assoc, List.reverse_append]
    simp only [finish, onto, ends, bind, Except.bind, pure, Except.pure, parts]
    rfl

/-! ## A comma behind a selector -/

/-- A reading that may end and is not at its beginning may go on with a comma, and the comma
completes just what the end would complete. -/
theorem closes_of_finish {reading : Reading} {s : Selector} (h : reading.finish dialect = .ok s)
    (behind : reading.stage ≠ .start) : Closes dialect reading s.requirements.reverse := by
  obtain ⟨last?, ends, rfl⟩ := finish_eq_ok_iff.mp h
  obtain ⟨done, stage⟩ := reading
  rw [List.reverse_reverse]
  cases stage with
  | start => exact absurd rfl behind
  | key k =>
    cases ends
    exact closes_key done k
  | complete =>
    cases ends
    exact closes_complete done
  | _ => cases ends

/-- Of the tokens that may be the last of a selector, the comma alone leaves the reader where a
requirement has to begin. -/
theorem stage_eq_start_iff_of_advance {reading next : Reading} {token : Token} {s : Selector}
    (h : reading.advance dialect token = .ok next) (accepted : next.finish dialect = .ok s) :
    next.stage = .start ↔ token.kind = .comma := by
  obtain ⟨completed?, stage, step, rfl⟩ := advance_eq_ok_iff.mp h
  obtain ⟨last?, ends, -⟩ := finish_eq_ok_iff.mp accepted
  clear h accepted
  obtain ⟨done, before⟩ := reading
  obtain ⟨kind, text, offset⟩ := token
  cases before with
  | key k => cases kind <;> cases dialect <;> cases step <;> simp
  | listed k p values =>
    cases kind with
    | comma =>
      -- inside a list the comma leads on, but not to an end
      cases step
      cases ends
    | _ => cases step <;> simp
  | _ => cases kind <;> cases step <;> simp

/-- The tokens of a selector leave the reader where it began if there are none, or the last is a
comma. -/
theorem stage_eq_start_iff {tokens : List Token} {last : Reading} {s : Selector}
    (taken : run dialect initial tokens = .ok last) (ends : last.finish dialect = .ok s) :
    last.stage = .start ↔ tokens = [] ∨ ∃ token ∈ tokens.getLast?, token.kind = .comma := by
  rcases List.eq_nil_or_concat tokens with rfl | ⟨front, token, rfl⟩
  · cases taken
    exact iff_of_true rfl (.inl rfl)
  · rw [List.concat_eq_append] at taken ⊢
    obtain ⟨middle, -, step⟩ := run_append_eq_ok.mp taken
    cases h : middle.advance dialect token with
    | error error =>
      rw [run_cons_of_error h] at step
      cases step
    | ok next =>
      rw [run_cons_of_ok h] at step
      cases step
      rw [stage_eq_start_iff_of_advance h ends]
      simp

end Reading

namespace Selector

variable {dialect : Dialect} {s : Selector}

/-- Behind a comma, tokens are read as they are by themselves: their requirements follow those in
front, and an error is moved by the bytes in front. -/
theorem ofTokens_append_comma {tokens : List Token} {last : Reading}
    (taken : Reading.run dialect Reading.initial tokens = .ok last)
    (ends : last.finish dialect = .ok s) (behind : last.stage ≠ .start) {comma : Token}
    (symbol : comma.symbol = .mark .comma) (bytes : Nat) (more : List Token) :
    ofTokens dialect (tokens ++ comma :: more.map (Token.shift bytes)) =
      ((ofTokens dialect more).mapError (·.shift bytes)).map (s ++ ·) := by
  have opens : Reading.run dialect last [comma] = .ok ⟨s.requirements.reverse, .start⟩ :=
    (Reading.closes_of_finish ends behind).comma [comma] (by rw [List.map_singleton, symbol])
  have rest : Reading.outcome dialect (Reading.onto s.requirements.reverse Reading.initial)
      (more.map (Token.shift bytes)) = ((ofTokens dialect more).mapError (·.shift bytes)).map
        (⟨s.requirements.reverse.reverse⟩ ++ ·) :=
    Reading.outcome_map (fun token _ reading => Reading.advance_onto_shift _ bytes reading token)
      (Reading.finish_onto _ bytes) Reading.initial
  rw [List.reverse_reverse] at rest
  rw [← List.singleton_append, ofTokens_eq_outcome, Reading.outcome_append_of_ok taken,
    Reading.outcome_append_of_ok opens]
  exact rest

/-- A comma is misplaced where a requirement has to begin, and it is the error of the whole list,
whatever stands behind it. -/
theorem ofTokens_append_of_start {tokens : List Token} {last : Reading}
    (taken : Reading.run dialect Reading.initial tokens = .ok last) (stage : last.stage = .start)
    {comma : Token} (kind : comma.kind = .comma) (more : List Token) :
    ofTokens dialect (tokens ++ comma :: more) =
      .error (.misplaced comma [.value, .exclamation]) := by
  have stops : last.advance dialect comma = .error (.misplaced comma [.value, .exclamation]) := by
    rw [Reading.advance, stage, Stage.next?.eq_def, kind]
    rfl
  exact ofTokens_of_run_error
    ((Reading.run_append_of_ok taken).trans (Reading.run_cons_of_error stops))

/-! ## Texts -/

/-- Texts joined by a comma are read by the tokens of the first, the comma, and the tokens of the
second moved behind both. -/
theorem parse_append_comma_eq (dialect : Dialect) (first second : String) :
    parse dialect (first ++ "," ++ second) = ofTokens dialect (Token.scan 0 first.toList ++
      ⟨.comma, ",", byteLength first.toList⟩ ::
        (Token.scan 0 second.toList).map (Token.shift (byteLength first.toList + 1))) := by
  have chars : (first ++ "," ++ second).toList = first.toList ++ ',' :: second.toList := by
    simp
  have shifted := Token.scan_add (byteLength first.toList + 1) 0 second.toList
  rw [Nat.add_zero] at shifted
  rw [parse_eq_ofTokens, chars, Token.scan_comma, Nat.zero_add, shifted]

theorem test_of_parse {α : Type} [Labelling α] (labels : α) {text : String}
    (h : parse .full text = .ok s) : test labels text = .ok (s.isMet labels) := by
  rw [test, h]
  rfl

theorem isMet_append {α : Type} [Labelling α] (labels : α) (s t : Selector) :
    (s ++ t).isMet labels = (s.isMet labels && t.isMet labels) := by
  rw [isMet, requirements_append, List.all_append]
  rfl

/-- **Selector texts are joined by a comma.** Behind a text that ends in a requirement the comma is
in place, and all that comes of the second text comes of the joined one: its requirements behind
those of the first, and its error in its place; so the joined text is met where both are. Behind any
other text the comma is misplaced. -/
theorem parse_append_comma {first : String} (accepted : parse dialect first = .ok s)
    (second : String) :
    ∃ tokens, tokenize first = .ok tokens ∧
      (s.requirements ≠ [] → (∀ token ∈ tokens.getLast?, token.kind ≠ .comma) →
        (∀ t, parse dialect second = .ok t →
          parse dialect (first ++ "," ++ second) = .ok (s ++ t)) ∧
        (∀ token expected, parse dialect second = .error (.misplaced token expected) →
          parse dialect (first ++ "," ++ second) =
            .error (.misplaced (token.shift (byteLength first.toList + 1)) expected)) ∧
        (∀ expected, parse dialect second = .error (.truncated expected) →
          parse dialect (first ++ "," ++ second) = .error (.truncated expected)) ∧
        (dialect = .full → ∀ t, parse dialect second = .ok t →
          ∀ {α : Type} [Labelling α] (labels : α), ∃ a b, test labels first = .ok a ∧
            test labels second = .ok b ∧ test labels (first ++ "," ++ second) = .ok (a && b))) ∧
      (tokens = [] ∨ (∃ token ∈ tokens.getLast?, token.kind = .comma) →
        parse dialect (first ++ "," ++ second) =
          .error (.misplaced ⟨.comma, ",", byteLength first.toList⟩ [.value, .exclamation])) := by
  have read := accepted
  rw [parse_eq_ofTokens, ofTokens_eq_ok] at read
  obtain ⟨last, taken, ends⟩ := read
  have start := Reading.stage_eq_start_iff taken ends
  refine ⟨_, tokenize_eq_ok first, fun inhabited noComma => ?_, fun atStart => ?_⟩
  · have behind : last.stage ≠ .start := by
      rw [ne_eq, start]
      rintro (none | ⟨token, mem, comma⟩)
      · rw [none] at taken
        cases taken
        cases ends
        exact inhabited rfl
      · exact noComma token mem comma
    have joined : parse dialect (first ++ "," ++ second) =
        ((parse dialect second).mapError (·.shift (byteLength first.toList + 1))).map
          (s ++ ·) := by
      rw [parse_append_comma_eq, parse_eq_ofTokens dialect second]
      exact ofTokens_append_comma taken ends behind rfl _ _
    refine ⟨fun t h => ?_, fun token expected h => ?_, fun expected h => ?_,
      fun full t h α _ labels => ?_⟩
    · rw [joined, h]
      rfl
    · rw [joined, h]
      rfl
    · rw [joined, h]
      rfl
    · subst full
      rw [h] at joined
      refine ⟨_, _, test_of_parse labels accepted, test_of_parse labels h, ?_⟩
      rw [← isMet_append]
      exact test_of_parse labels joined
  · rw [parse_append_comma_eq]
    exact ofTokens_append_of_start taken (start.mpr atStart) rfl _

/-- A keyword in the place of a value is refused in the second text and moved behind the first, and
a comma is refused behind a trailing one. -/
theorem parse_append_comma_keyword :
    parse .full "é in (x), !b" = .ok ⟨[⟨"é", .oneOf ["x"]⟩, ⟨"b", .absent⟩]⟩ ∧
    parse .full "c, d = in" = .error (.misplaced ⟨.inKeyword, "in", 7⟩ [.value]) ∧
    parse .full ("é in (x), !b" ++ "," ++ "c, d = in") =
      .error (.misplaced ⟨.inKeyword, "in", 21⟩ [.value]) ∧
    parse .full ("a ,\t" ++ "," ++ "c, d = in") =
      .error (.misplaced ⟨.comma, ",", 4⟩ [.value, .exclamation]) := by
  have accepted : parse .full "é in (x), !b" = .ok ⟨[⟨"é", .oneOf ["x"]⟩, ⟨"b", .absent⟩]⟩ := by
    decide +kernel
  have trailing : parse .full "a ,\t" = .ok ⟨[⟨"a", .present⟩]⟩ := by decide +kernel
  have refused : parse .full "c, d = in" = .error (.misplaced ⟨.inKeyword, "in", 7⟩ [.value]) := by
    decide +kernel
  obtain ⟨tokens, tokenized, joined, -⟩ := parse_append_comma accepted "c, d = in"
  obtain ⟨others, tokenized', -, misplaced⟩ := parse_append_comma trailing "c, d = in"
  rw [tokenize_eq_ok, Except.ok.injEq] at tokenized tokenized'
  have noComma : ∀ token ∈ tokens.getLast?, token.kind ≠ .comma := by
    subst tokenized
    decide +kernel
  have comma : ∃ token ∈ others.getLast?, token.kind = .comma := by
    subst tokenized'
    exact ⟨⟨.comma, ",", 2⟩, by decide +kernel, rfl⟩
  exact ⟨accepted, refused, (joined (by decide) noComma).2.1 _ _ refused, misplaced (.inr comma)⟩

end Selector

end LabelQuery
