import LabelQuery.Proofs.Selector.Reading

/-!
# Errors of reading stand where viability ends

A token list that spells no selector goes wrong somewhere, and the error says where and what would
have been right. Both are measured against what can still become a selector, which is said of token
lists as wholes and without stages.

**The law**, in either dialect: a token is called misplaced exactly if the tokens before it are
viable and no longer so with it; the end is called premature exactly if all the tokens are viable
and spell no selector; and the kinds that an error lists are those that can follow the viable part,
each once.

The bridge is `Selector.isViable_iff`: a list is viable exactly if the reader can take all of it.
One direction is that no reading is a dead end, the other that a run takes no token after it failed.
-/

namespace LabelQuery.Selector

variable {dialect : Dialect} {tokens : List Token}

/-- Whether the kinds are those that can follow the tokens, in some order and each once. -/
structure Lists (dialect : Dialect) (tokens : List Token) (kinds : List Token.Kind) : Prop where
  /-- No kind is listed twice. -/
  nodup : kinds.Nodup
  /-- A kind is listed exactly if some token of it can follow. -/
  mem_iff : ∀ kind, kind ∈ kinds ↔ CanFollow dialect tokens kind

/-! ## Viability by runs -/

/-- **A list is viable exactly if the reader can take all of it.** -/
theorem isViable_iff :
    IsViable dialect tokens ↔ ∃ last, Reading.run dialect Reading.initial tokens = .ok last := by
  constructor
  · rintro ⟨more, s, accepted⟩
    obtain ⟨last, taken, -⟩ := ofTokens_eq_ok.mp accepted
    obtain ⟨middle, first, -⟩ := Reading.run_append_eq_ok.mp taken
    exact ⟨middle, first⟩
  · rintro ⟨middle, first⟩
    obtain ⟨more, last, s, second, ends⟩ := Reading.exists_completion dialect middle
    have taken : Reading.run dialect Reading.initial (tokens ++ more) = .ok last :=
      (Reading.run_append_of_ok first).trans second
    exact ⟨more, s, ofTokens_eq_ok.mpr ⟨last, taken, ends⟩⟩

/-- Behind tokens that can be taken, one more keeps the list viable exactly if its kind is expected
where the reading stands by then. -/
theorem isViable_concat_iff {last : Reading}
    (taken : Reading.run dialect Reading.initial tokens = .ok last) (token : Token) :
    IsViable dialect (tokens ++ [token]) ↔ token.kind ∈ last.stage.expected dialect := by
  rw [isViable_iff, Reading.run_append_of_ok taken, ← Reading.exists_advance_iff]
  constructor
  · rintro ⟨next, h⟩
    cases step : last.advance dialect token with
    | error error =>
      rw [Reading.run_cons_of_error step] at h
      cases h
    | ok next => exact ⟨next, rfl⟩
  · rintro ⟨next, step⟩
    exact ⟨next, Reading.run_cons_of_ok step⟩

/-- Whether a token can follow is a matter of its kind. -/
theorem canFollow_iff (token : Token) :
    CanFollow dialect tokens token.kind ↔ IsViable dialect (tokens ++ [token]) := by
  constructor
  · rintro ⟨other, same, viable⟩
    obtain ⟨next, whole⟩ := isViable_iff.mp viable
    obtain ⟨last, taken, -⟩ := Reading.run_append_eq_ok.mp whole
    rw [isViable_concat_iff taken, ← same]
    exact (isViable_concat_iff taken other).mp viable
  · intro viable
    exact ⟨token, rfl, viable⟩

/-- **The expected kinds are those that can follow.** -/
theorem lists_expected {last : Reading}
    (taken : Reading.run dialect Reading.initial tokens = .ok last) :
    Lists dialect tokens (last.stage.expected dialect) := by
  refine ⟨Stage.expected_nodup dialect last.stage, ?_⟩
  intro kind
  have same : CanFollow dialect tokens kind ↔ IsViable dialect (tokens ++ [⟨kind, "", 0⟩]) :=
    canFollow_iff ⟨kind, "", 0⟩
  rw [same, isViable_concat_iff taken]

/-! ## The two errors -/

/-- A token whose kind is not expected where it stands is the error of the whole list, whatever
comes behind it, with the kinds that are. -/
theorem ofTokens_of_unexpected {before : List Token} {token : Token} {last : Reading}
    (taken : Reading.run dialect Reading.initial before = .ok last)
    (unexpected : token.kind ∉ last.stage.expected dialect) (after : List Token) :
    ofTokens dialect (before ++ token :: after) =
      .error (.misplaced token (last.stage.expected dialect)) := by
  cases step : last.advance dialect token with
  | ok next => exact absurd ((Reading.exists_advance_iff token).mp ⟨next, step⟩) unexpected
  | error error =>
    obtain rfl := Reading.advance_eq_error step
    exact ofTokens_of_run_error
      ((Reading.run_append_of_ok taken).trans (Reading.run_cons_of_error step))

/-- Where viability ends with a token, that token is reported, and the kinds reported with it are
those that can follow the tokens before. -/
theorem ofTokens_of_misplaced {before after : List Token} {token : Token}
    (whole : tokens = before ++ token :: after) (viable : IsViable dialect before)
    (ends : ¬ IsViable dialect (before ++ [token])) :
    ∃ expected, ofTokens dialect tokens = .error (.misplaced token expected) ∧
      Lists dialect before expected := by
  obtain ⟨last, taken⟩ := isViable_iff.mp viable
  rw [isViable_concat_iff taken] at ends
  refine ⟨_, ?_, lists_expected taken⟩
  rw [whole, ofTokens_of_unexpected taken ends after]

/-- Tokens that are viable and spell no selector are reported to end too soon, with the kinds that
can follow all of them. -/
theorem ofTokens_of_truncated (viable : IsViable dialect tokens)
    (incomplete : ¬ IsAccepted dialect tokens) :
    ∃ expected, ofTokens dialect tokens = .error (.truncated expected) ∧
      Lists dialect tokens expected := by
  obtain ⟨last, taken⟩ := isViable_iff.mp viable
  refine ⟨_, ?_, lists_expected taken⟩
  rw [ofTokens_of_run_ok taken]
  cases ends : last.finish dialect with
  | ok s => exact absurd ⟨s, ofTokens_eq_ok.mpr ⟨last, taken, ends⟩⟩ incomplete
  | error error => rw [Reading.finish_eq_error ends]

/-- Every error of reading is one of the two: there is a token with which viability ends, or all of
the tokens are viable. -/
theorem explained_of_error {error : SyntaxError} (h : ofTokens dialect tokens = .error error) :
    (∃ before token after expected, error = .misplaced token expected ∧
      tokens = before ++ token :: after ∧ IsViable dialect before ∧
      ¬ IsViable dialect (before ++ [token]) ∧ Lists dialect before expected) ∨
    (∃ expected, error = .truncated expected ∧ IsViable dialect tokens ∧
      ¬ IsAccepted dialect tokens ∧ Lists dialect tokens expected) := by
  cases taken : Reading.run dialect Reading.initial tokens with
  | error stopped =>
    rw [ofTokens_of_run_error taken] at h
    cases h
    -- the run takes all tokens up to one, and viability ends with that one
    obtain ⟨before, token, after, middle, whole, first, step⟩ := Reading.run_eq_error taken
    refine .inl ⟨before, token, after, _, Reading.advance_eq_error step, whole,
      isViable_iff.mpr ⟨middle, first⟩, ?_, lists_expected first⟩
    rw [isViable_concat_iff first, ← Reading.exists_advance_iff]
    rintro ⟨next, other⟩
    rw [step] at other
    cases other
  | ok last =>
    -- the run takes all of them, so what is wrong can only be the end
    refine .inr ⟨_, ?_, isViable_iff.mpr ⟨last, taken⟩, ?_, lists_expected taken⟩
    · rw [ofTokens_of_run_ok taken] at h
      exact Reading.finish_eq_error h
    · rintro ⟨s, accepted⟩
      rw [h] at accepted
      cases accepted

/-- **Errors of reading are placed and described exactly.** The first two parts say of misplaced
tokens, and the next two of premature ends, when they are reported and with which kinds; there is no
other error. -/
theorem ofTokens_error_exact (dialect : Dialect) (tokens : List Token) :
    (∀ token expected, ofTokens dialect tokens = .error (.misplaced token expected) →
      ∃ before after, tokens = before ++ token :: after ∧ IsViable dialect before ∧
        ¬ IsViable dialect (before ++ [token]) ∧ Lists dialect before expected) ∧
    (∀ before token after, tokens = before ++ token :: after → IsViable dialect before →
      ¬ IsViable dialect (before ++ [token]) →
      ∃ expected, ofTokens dialect tokens = .error (.misplaced token expected) ∧
        Lists dialect before expected) ∧
    (∀ expected, ofTokens dialect tokens = .error (.truncated expected) →
      IsViable dialect tokens ∧ ¬ IsAccepted dialect tokens ∧ Lists dialect tokens expected) ∧
    (IsViable dialect tokens → ¬ IsAccepted dialect tokens →
      ∃ expected, ofTokens dialect tokens = .error (.truncated expected) ∧
        Lists dialect tokens expected) ∧
    ∀ rest offset, ofTokens dialect tokens ≠ .error (.indivisible rest offset) := by
  refine ⟨fun token expected h => ?_, fun before token after => ofTokens_of_misplaced,
    fun expected h => ?_, ofTokens_of_truncated, fun rest offset h => ?_⟩
  · obtain ⟨before, _, after, _, same, exact⟩ | ⟨_, other, -⟩ := explained_of_error h
    · cases same
      exact ⟨before, after, exact⟩
    · cases other
  · obtain ⟨_, _, _, _, other, -⟩ | ⟨_, same, exact⟩ := explained_of_error h
    · cases other
    · cases same
      exact exact
  · obtain ⟨_, _, _, _, other, -⟩ | ⟨_, other, -⟩ := explained_of_error h <;> cases other

end LabelQuery.Selector
