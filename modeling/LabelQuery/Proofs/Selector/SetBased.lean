import LabelQuery.Proofs.Selector.Spelling
import LabelQuery.Proofs.Selector.Viability

/-!
# The set-based dialect inside the full one

The set-based dialect leaves out the signs of equality and inequality, which can stand in one place
only, behind a key. All else the dialects have in common, so what the set-based reader does follows
from what the full one does.

* Token by token they are **in step** where no sign stands (`Reading.advance_setBased`); the only
  difference is the list of kinds that can follow a key (`SyntaxError.narrow`). By `Reading.run_map`
  this holds of whole lists.
* The first sign always stops the set-based reader (`Selector.ofTokens_setBased_of_isEquality`). The
  full one goes on there behind a key; elsewhere it stops as well, and both expect the same
  (`Stage.isEquality_expected`).

**Positions.** An error carries the token and not its position, and equal tokens may stand elsewhere
in the list. So `Selector.IsRefusedAt` asks for more than the error: the position has to be the one
at which viability ends, since that is where a reader stops.
-/

namespace LabelQuery

/-- Whether tokens of the kind are signs of equality or inequality. -/
def Token.Kind.isEquality : Kind → Bool
  | equal | notEqual => true
  | _ => false

/-- The kinds that the set-based dialect expects where the full one expects the given ones. -/
def Token.Kind.narrow (expected : List Kind) : List Kind :=
  if expected = [.comma, .inKeyword, .notinKeyword, .equal, .notEqual] then
    [.comma, .inKeyword, .notinKeyword]
  else expected

/-- The error with the kinds that the set-based dialect expects. -/
def SyntaxError.narrow : SyntaxError → SyntaxError
  | misplaced token expected => .misplaced token (Token.Kind.narrow expected)
  | truncated expected => .truncated (Token.Kind.narrow expected)
  | indivisible rest offset => .indivisible rest offset

namespace Stage

/-- What the set-based dialect expects at a stage is what the full one expects there without the
signs, which it expects behind a key only. -/
theorem expected_setBased (stage : Stage) :
    stage.expected .setBased = Token.Kind.narrow (stage.expected .full) := by
  cases stage <;> rfl

/-- A token that is no sign leads both dialects from a stage to the same next one, and completes the
same requirement on the way. -/
theorem next?_setBased (stage : Stage) {token : Token} (other : token.kind.isEquality = false) :
    stage.next? .setBased token = stage.next? .full token := by
  obtain ⟨kind, text, offset⟩ := token
  cases kind with
  | equal | notEqual => cases other
  | _ => cases stage <;> rfl

theorem finish_setBased (stage : Stage) :
    stage.finish .setBased = (stage.finish .full).mapError SyntaxError.narrow := by
  cases stage <;> rfl

/-- The set-based dialect expects no sign of equality at any stage, so with the first sign in a list
its reader has to stop. -/
theorem not_mem_expected_setBased (stage : Stage) {kind : Token.Kind}
    (sign : kind.isEquality = true) : kind ∉ stage.expected .setBased := by
  cases kind <;> cases sign <;> cases stage <;> simp [expected]

/-- Behind a key the full dialect expects a sign, and everywhere else the dialects expect the
same. -/
theorem isEquality_expected (stage : Stage) {kind : Token.Kind} (sign : kind.isEquality = true) :
    kind ∈ stage.expected .full ∧
        stage.expected .setBased = [.comma, .inKeyword, .notinKeyword] ∨
      kind ∉ stage.expected .full ∧ stage.expected .setBased = stage.expected .full := by
  cases kind <;> cases sign <;> cases stage <;> simp [expected]

end Stage

namespace Reading

/-! ## The readers in step -/

/-- A token that is no sign is taken or refused by both readers alike; the refusals differ in the
list of expected kinds alone. -/
theorem advance_setBased (reading : Reading) {token : Token}
    (other : token.kind.isEquality = false) :
    reading.advance .setBased token =
      (reading.advance .full token).mapError SyntaxError.narrow := by
  have same := reading.stage.next?_setBased other
  cases step : reading.stage.next? .full token with
  | none =>
    simp only [advance, same, step, Stage.expected_setBased]
    rfl
  | some next =>
    simp only [advance, same, step]
    rfl

theorem finish_setBased (reading : Reading) :
    reading.finish .setBased = (reading.finish .full).mapError SyntaxError.narrow := by
  unfold finish
  rw [Stage.finish_setBased]
  cases reading.stage.finish .full <;> rfl

section InStep

variable {tokens : List Token} (plain : ∀ token ∈ tokens, token.kind.isEquality = false)

include plain

/-- Runs over tokens without signs are in step, and a failing run stops at the same token in both
dialects. -/
theorem run_setBased (reading : Reading) :
    run .setBased reading tokens = (run .full reading tokens).mapError SyntaxError.narrow := by
  have all : run .setBased (id reading) (tokens.map id) =
      ((run .full reading tokens).mapError SyntaxError.narrow).map id :=
    run_map (fun token mem reading => by
      rw [Except.map_id]
      exact reading.advance_setBased (plain token mem)) reading
  rwa [List.map_id, Except.map_id] at all

theorem outcome_setBased (reading : Reading) :
    outcome .setBased reading tokens =
      (outcome .full reading tokens).mapError SyntaxError.narrow := by
  rw [outcome, outcome, run_setBased plain]
  cases run .full reading tokens with
  | error error => rfl
  | ok last => exact last.finish_setBased

end InStep

end Reading

namespace Selector

open Token.Kind (narrow)

/-- Whether the reader stops at the token behind `before`, expecting these kinds there: the error is
about such a token, and this is the one with which viability ends. -/
structure IsRefusedAt (dialect : Dialect) (before : List Token) (token : Token)
    (after : List Token) (expected : List Token.Kind) : Prop where
  error : ofTokens dialect (before ++ token :: after) = .error (.misplaced token expected)
  reached : IsViable dialect before
  ends : ¬ IsViable dialect (before ++ [token])

variable {before after : List Token} {token : Token}

/-! ## The first sign -/

/-- Where the tokens before can be taken, refusal is a matter of the kinds expected behind them: the
kind of the token is not among them, and they are what is reported. -/
theorem isRefusedAt_iff {dialect : Dialect} {last : Reading} {expected : List Token.Kind}
    (taken : Reading.run dialect Reading.initial before = .ok last) :
    IsRefusedAt dialect before token after expected ↔
      token.kind ∉ last.stage.expected dialect ∧ expected = last.stage.expected dialect := by
  constructor
  · rintro ⟨error, -, ends⟩
    rw [isViable_concat_iff taken] at ends
    rw [ofTokens_of_unexpected taken ends] at error
    cases error
    exact ⟨ends, rfl⟩
  · rintro ⟨unexpected, rfl⟩
    refine ⟨ofTokens_of_unexpected taken unexpected after, isViable_iff.mpr ⟨last, taken⟩, ?_⟩
    rwa [isViable_concat_iff taken]

/-- If the full reader stops before the first sign, the set-based one stops there as well, and what
stands behind is of no account. -/
theorem ofTokens_setBased_of_run_error {error : SyntaxError}
    (stops : Reading.run .full Reading.initial before = .error error)
    (plain : ∀ other ∈ before, other.kind.isEquality = false) (rest : List Token) :
    ofTokens .setBased (before ++ rest) = .error error.narrow := by
  have stops' : Reading.run .setBased Reading.initial before = .error error.narrow := by
    rw [Reading.run_setBased plain, stops]
    rfl
  exact ofTokens_of_run_error (Reading.run_append_of_error stops' rest)

/-- The set-based reader takes no sign: where the tokens before the first are in place, it stops at
that sign, with what it expects there. -/
theorem ofTokens_setBased_of_isEquality {last : Reading}
    (taken : Reading.run .full Reading.initial before = .ok last)
    (plain : ∀ other ∈ before, other.kind.isEquality = false)
    (sign : token.kind.isEquality = true) :
    ofTokens .setBased (before ++ token :: after) =
      .error (.misplaced token (last.stage.expected .setBased)) := by
  have taken' : Reading.run .setBased Reading.initial before = .ok last := by
    rw [Reading.run_setBased plain, taken]
    rfl
  exact ofTokens_of_unexpected taken' (last.stage.not_mem_expected_setBased sign) after

/-- **The set-based dialect is a part of the full one, errors included.** -/
theorem ofTokens_setBased_exact (tokens : List Token) :
    (∀ s, ofTokens .setBased tokens = .ok s ↔ ofTokens .full tokens = .ok s ∧ s.IsSetBased) ∧
    ((∀ token ∈ tokens, token.kind.isEquality = false) →
      ofTokens .setBased tokens = (ofTokens .full tokens).mapError SyntaxError.narrow) ∧
    ∀ before token after, tokens = before ++ token :: after →
      (∀ other ∈ before, other.kind.isEquality = false) → token.kind.isEquality = true →
      (∀ wrong expected, ofTokens .full before = .error (.misplaced wrong expected) →
        ofTokens .setBased tokens = .error (.misplaced wrong (narrow expected))) ∧
      ((∀ wrong expected, ofTokens .full before ≠ .error (.misplaced wrong expected)) →
        (∀ expected, IsRefusedAt .full before token after expected →
          ofTokens .setBased tokens = .error (.misplaced token expected)) ∧
        ((∀ expected, ¬ IsRefusedAt .full before token after expected) →
          ofTokens .setBased tokens =
            .error (.misplaced token [.comma, .inKeyword, .notinKeyword]))) := by
  refine ⟨fun s => ?_, fun plain => Reading.outcome_setBased plain Reading.initial, ?_⟩
  · simp only [ofTokens_eq_ok_iff, reduceCtorEq, false_implies, and_true, true_implies]
  · rintro before token after rfl plain sign
    cases taken : Reading.run .full Reading.initial before with
    | error error =>
      have stops := ofTokens_setBased_of_run_error taken plain (token :: after)
      obtain ⟨_, wrong, _, last, -, -, step⟩ := Reading.run_eq_error taken
      obtain rfl := Reading.advance_eq_error step
      rw [ofTokens_of_run_error taken]
      refine ⟨?_, fun none => absurd rfl (none wrong _)⟩
      rintro _ _ ⟨⟩
      exact stops
    | ok last =>
      rw [ofTokens_setBased_of_isEquality taken plain sign]
      refine ⟨fun wrong expected stops => ?_,
        fun _ => ⟨fun expected refused => ?_, fun unrefused => ?_⟩⟩
      · -- all of `before` is taken, so it can only be incomplete
        rw [ofTokens_of_run_ok taken] at stops
        cases Reading.finish_eq_error stops
      · obtain ⟨unexpected, rfl⟩ := (isRefusedAt_iff taken).mp refused
        obtain ⟨behindKey, -⟩ | ⟨-, same⟩ := last.stage.isEquality_expected sign
        · exact absurd behindKey unexpected
        · rw [same]
      · obtain ⟨-, keywords⟩ | ⟨unexpected, -⟩ := last.stage.isEquality_expected sign
        · rw [keywords]
        · exact absurd ((isRefusedAt_iff taken).mpr ⟨unexpected, rfl⟩) (unrefused _)

/-- One sign in two places: the full reader stops at the second, the set-based one at the first. -/
theorem ofTokens_setBased_exact_twice :
    let key : Token := ⟨.value, "a", 0⟩
    let sign : Token := ⟨.equal, "=", 1⟩
    (∀ expected, ¬ IsRefusedAt .full [key] sign [key, sign] expected) ∧
    ofTokens .full [key, sign, key, sign] = .error (.misplaced sign [.comma]) ∧
    ofTokens .setBased [key, sign, key, sign] =
      .error (.misplaced sign [.comma, .inKeyword, .notinKeyword]) := by
  intro key sign
  have unrefused : ∀ expected, ¬ IsRefusedAt .full [key] sign [key, sign] expected :=
    fun _ refused => refused.ends ⟨[key], _, rfl⟩
  have accepted : ofTokens .full [key] = .ok ⟨[⟨"a", .present⟩]⟩ := rfl
  have alone : ∀ wrong expected, ofTokens .full [key] ≠ .error (.misplaced wrong expected) := by
    intro wrong expected stops
    cases accepted.symm.trans stops
  obtain ⟨-, -, first⟩ := ofTokens_setBased_exact ([key] ++ sign :: [key, sign])
  obtain ⟨-, stopped⟩ := first [key] sign [key, sign] rfl (by simp [key, Token.Kind.isEquality]) rfl
  exact ⟨unrefused, rfl, (stopped alone).2 unrefused⟩

end Selector

end LabelQuery
