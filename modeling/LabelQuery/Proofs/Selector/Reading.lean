import LabelQuery.Selector.Grammar

/-!
# Readings, step by step

The reader is a fold over tokens; `Reading.run` is that fold from any reading, and the laws of this
module are all that later proofs need of it.

* A run over two lists is a run over the first and then over the second (`run_append_eq_ok`).
* A run fails at one token, and up to that token it succeeds (`run_eq_error`).
* A token is taken exactly if its kind is among the expected ones (`isSome_next?_iff`). The list of
  expected kinds and the transitions are written down apart from each other, and this is where they
  meet.
* The end of the tokens is in place exactly if nothing has to follow (`finish_eq_error`).
* Every reading can be brought to an end (`exists_completion`), so none is a dead end.
* What two readers, or two texts, have in common token by token they have in common as wholes
  (`run_map`, `outcome_map`).
-/

namespace LabelQuery

namespace Stage

/-! ## One token -/

/-- **A token is taken exactly if its kind is expected.** The transitions and the list of expected
kinds are two tables; every later statement about errors rests on their naming the same kinds. -/
theorem isSome_next?_iff (dialect : Dialect) (stage : Stage) (token : Token) :
    (stage.next? dialect token).isSome = true ↔ token.kind ∈ stage.expected dialect := by
  obtain ⟨kind, text, offset⟩ := token
  cases stage <;> cases kind <;> cases dialect <;> simp [next?, expected]

/-- No stage expects a kind twice, so the list in an error message can be compared with the kinds
that can follow as a set and by its length. -/
theorem expected_nodup (dialect : Dialect) (stage : Stage) : (stage.expected dialect).Nodup := by
  cases stage <;> cases dialect <;> simp [expected]

/-- A stage that cannot be the last one reports a premature end with the kinds expected there, and
no stage has another error to report at the end. -/
theorem finish_eq_error {dialect : Dialect} {stage : Stage} {error : SyntaxError}
    (h : stage.finish dialect = .error error) : error = .truncated (stage.expected dialect) := by
  cases stage <;> cases h <;> rfl

end Stage

namespace Reading

variable {dialect : Dialect} {reading : Reading}

/-- A reading takes a token exactly where its stage has a transition for it, and then the
requirement that the token completes, if there is one, comes in front of those completed before. -/
theorem advance_eq_ok_iff {token : Token} {next : Reading} :
    reading.advance dialect token = .ok next ↔
      ∃ completed? stage, reading.stage.next? dialect token = some (completed?, stage) ∧
        next = ⟨completed?.toList ++ reading.done, stage⟩ := by
  unfold advance
  split
  · next completed? stage step =>
    simp only [step, Except.ok.injEq, Option.some.injEq, Prod.mk.injEq]
    constructor
    · rintro rfl
      exact ⟨_, _, ⟨rfl, rfl⟩, rfl⟩
    · rintro ⟨_, _, ⟨rfl, rfl⟩, rfl⟩
      rfl
  · next step => simp only [step, reduceCtorEq, false_and, exists_false]

/-- Whether a reading takes a token depends on nothing but the kind of the token, which has to be
among those that its stage expects. -/
theorem exists_advance_iff (token : Token) :
    (∃ next, reading.advance dialect token = .ok next) ↔
      token.kind ∈ reading.stage.expected dialect := by
  rw [← Stage.isSome_next?_iff, Option.isSome_iff_exists]
  constructor
  · rintro ⟨next, h⟩
    obtain ⟨completed?, stage, step, -⟩ := advance_eq_ok_iff.mp h
    exact ⟨_, step⟩
  · rintro ⟨⟨completed?, stage⟩, step⟩
    exact ⟨_, advance_eq_ok_iff.mpr ⟨completed?, stage, step, rfl⟩⟩

/-- There is one way to refuse a token: it is called misplaced, with itself as the culprit and the
kinds expected at the stage in its stead. -/
theorem advance_eq_error {token : Token} {error : SyntaxError}
    (h : reading.advance dialect token = .error error) :
    error = .misplaced token (reading.stage.expected dialect) := by
  unfold advance at h
  split at h
  · cases h
  · cases h
    rfl

/-! ## Runs -/

/-- The reading behind the tokens, if each of them can be taken. -/
def run (dialect : Dialect) (reading : Reading) (tokens : List Token) :
    Except SyntaxError Reading :=
  tokens.foldlM (advance dialect) reading

theorem run_cons_of_ok {token : Token} {tokens : List Token} {next : Reading}
    (h : reading.advance dialect token = .ok next) :
    run dialect reading (token :: tokens) = run dialect next tokens := by
  rw [run, List.foldlM_cons, h]
  rfl

theorem run_cons_of_error {token : Token} {tokens : List Token} {error : SyntaxError}
    (h : reading.advance dialect token = .error error) :
    run dialect reading (token :: tokens) = .error error := by
  rw [run, List.foldlM_cons, h]
  rfl

theorem run_append_of_ok {tokens more : List Token} {middle : Reading}
    (h : run dialect reading tokens = .ok middle) :
    run dialect reading (tokens ++ more) = run dialect middle more := by
  rw [run, List.foldlM_append]
  rw [run] at h
  rw [h]
  rfl

/-- An error in the first tokens is the error of the whole, whatever follows them. This is what
makes a misplaced token final. -/
theorem run_append_of_error {tokens : List Token} {error : SyntaxError}
    (h : run dialect reading tokens = .error error) (more : List Token) :
    run dialect reading (tokens ++ more) = .error error := by
  rw [run, List.foldlM_append]
  rw [run] at h
  rw [h]
  rfl

/-- A run over two lists of tokens gets through exactly if it gets through the first, and from there
through the second. -/
theorem run_append_eq_ok {tokens more : List Token} {last : Reading} :
    run dialect reading (tokens ++ more) = .ok last ↔
      ∃ middle, run dialect reading tokens = .ok middle ∧ run dialect middle more = .ok last := by
  cases h : run dialect reading tokens with
  | error error => simp [run_append_of_error h]
  | ok middle => simp [run_append_of_ok h]

/-- **A run that fails, fails at one token**, and takes all the tokens before it. -/
theorem run_eq_error {tokens : List Token} {error : SyntaxError}
    (h : run dialect reading tokens = .error error) :
    ∃ before token after middle, tokens = before ++ token :: after ∧
      run dialect reading before = .ok middle ∧ middle.advance dialect token = .error error := by
  induction tokens generalizing reading with
  | nil => cases h
  | cons token tokens ih =>
    cases step : reading.advance dialect token with
    | error other =>
      rw [run_cons_of_error step] at h
      cases h
      exact ⟨[], token, tokens, reading, rfl, rfl, step⟩
    | ok next =>
      rw [run_cons_of_ok step] at h
      obtain ⟨before, wrong, after, middle, rfl, taken, stops⟩ := ih h
      exact ⟨token :: before, wrong, after, middle, rfl, by rw [run_cons_of_ok step, taken], stops⟩

/-! ## Ends -/

/-- A reading ends in the selector of its requirements, in the order of the text, with the one that
the end itself completes at the last place. -/
theorem finish_eq_ok_iff {s : Selector} :
    reading.finish dialect = .ok s ↔ ∃ last?, reading.stage.finish dialect = .ok last? ∧
      s = ⟨(last?.toList ++ reading.done).reverse⟩ := by
  unfold finish
  cases reading.stage.finish dialect with
  | error error => simp [bind, Except.bind]
  | ok last? => simp [bind, Except.bind, pure, Except.pure, eq_comm]

theorem finish_eq_error {error : SyntaxError} (h : reading.finish dialect = .error error) :
    error = .truncated (reading.stage.expected dialect) := by
  unfold finish at h
  cases ends : reading.stage.finish dialect with
  | error other =>
    rw [ends] at h
    cases h
    exact Stage.finish_eq_error ends
  | ok last? =>
    rw [ends] at h
    cases h

/-- **No reading is a dead end**: some tokens bring it to the end of a selector. -/
theorem exists_completion (dialect : Dialect) (reading : Reading) :
    ∃ more last s, run dialect reading more = .ok last ∧ last.finish dialect = .ok s := by
  obtain ⟨done, stage⟩ := reading
  cases stage with
  | start => exact ⟨[], _, _, rfl, rfl⟩
  | negation => exact ⟨[⟨.value, "", 0⟩], _, _, rfl, rfl⟩
  | key k => exact ⟨[], _, _, rfl, rfl⟩
  | membership k p =>
    exact ⟨[⟨.openParen, "", 0⟩, ⟨.value, "", 0⟩, ⟨.closeParen, "", 0⟩], _, _, rfl, rfl⟩
  | item k p values => exact ⟨[⟨.value, "", 0⟩, ⟨.closeParen, "", 0⟩], _, _, rfl, rfl⟩
  | listed k p values => exact ⟨[⟨.closeParen, "", 0⟩], _, _, rfl, rfl⟩
  | operand k p => exact ⟨[⟨.value, "", 0⟩], _, _, rfl, rfl⟩
  | complete => exact ⟨[], _, _, rfl, rfl⟩

/-! ## Readings in step -/

/-- What the tokens make of a reading: the selector, if they can be taken and the end is in place
behind them. -/
def outcome (dialect : Dialect) (reading : Reading) (tokens : List Token) :
    Except SyntaxError Selector :=
  (run dialect reading tokens).bind (finish dialect)

theorem outcome_append_of_ok {tokens more : List Token} {middle : Reading}
    (h : run dialect reading tokens = .ok middle) :
    outcome dialect reading (tokens ++ more) = outcome dialect middle more := by
  rw [outcome, run_append_of_ok h, outcome]

section InStep

variable {dialect' : Dialect} {onToken : Token → Token} {onReading : Reading → Reading}
  {onError : SyntaxError → SyntaxError} {tokens : List Token}

/-- **A law of one step is a law of runs**: where the two readers agree on each of the tokens, up to
what the maps change, they agree on all of them. -/
theorem run_map
    (step : ∀ token ∈ tokens, ∀ reading : Reading,
      (onReading reading).advance dialect' (onToken token) =
        ((reading.advance dialect token).mapError onError).map onReading)
    (reading : Reading) :
    run dialect' (onReading reading) (tokens.map onToken) =
      ((run dialect reading tokens).mapError onError).map onReading := by
  induction tokens generalizing reading with
  | nil => rfl
  | cons token tokens ih =>
    have first := step token List.mem_cons_self reading
    have rest := ih fun other mem => step other (List.mem_cons_of_mem _ mem)
    cases h : reading.advance dialect token with
    | error error =>
      rw [h] at first
      rw [List.map_cons, run_cons_of_error first, run_cons_of_error h]
      rfl
    | ok next =>
      rw [h] at first
      rw [List.map_cons, run_cons_of_ok first, run_cons_of_ok h, rest]

/-- The same for whole readings, ends included: where steps and ends agree up to what the maps
change, so do the selectors and the errors that come of the tokens. -/
theorem outcome_map {onSelector : Selector → Selector}
    (step : ∀ token ∈ tokens, ∀ reading : Reading,
      (onReading reading).advance dialect' (onToken token) =
        ((reading.advance dialect token).mapError onError).map onReading)
    (ends : ∀ reading : Reading, (onReading reading).finish dialect' =
      ((reading.finish dialect).mapError onError).map onSelector)
    (reading : Reading) :
    outcome dialect' (onReading reading) (tokens.map onToken) =
      ((outcome dialect reading tokens).mapError onError).map onSelector := by
  rw [outcome, outcome, run_map step]
  cases run dialect reading tokens with
  | error error => rfl
  | ok last => exact ends last

end InStep

end Reading

namespace Selector

variable {dialect : Dialect} {tokens : List Token}

theorem ofTokens_eq_outcome (dialect : Dialect) (tokens : List Token) :
    ofTokens dialect tokens = Reading.outcome dialect Reading.initial tokens := rfl

/-- Where the run takes all of the tokens, it is the end that decides: it leaves a selector or
reports that the tokens stop too soon. -/
theorem ofTokens_of_run_ok {last : Reading}
    (h : Reading.run dialect Reading.initial tokens = .ok last) :
    ofTokens dialect tokens = last.finish dialect := by
  rw [Reading.run] at h
  rw [ofTokens, h]
  rfl

/-- Where the run refuses a token, the error of the run is the error of the reading, and the end of
the tokens has no say in it. -/
theorem ofTokens_of_run_error {error : SyntaxError}
    (h : Reading.run dialect Reading.initial tokens = .error error) :
    ofTokens dialect tokens = .error error := by
  rw [Reading.run] at h
  rw [ofTokens, h]
  rfl

/-- The tokens spell a selector if they can be taken one by one, and the end is in place behind
them. -/
theorem ofTokens_eq_ok {s : Selector} :
    ofTokens dialect tokens = .ok s ↔
      ∃ last, Reading.run dialect Reading.initial tokens = .ok last ∧
        last.finish dialect = .ok s := by
  cases h : Reading.run dialect Reading.initial tokens with
  | error error => simp [ofTokens_of_run_error h]
  | ok last => simp [ofTokens_of_run_ok h]

end Selector

end LabelQuery
