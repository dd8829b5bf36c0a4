import LabelQuery.Proofs.Selector.Reading
import LabelQuery.Proofs.Selector.Symbols

/-!
# Token lists and the selectors they spell

A token list spells a selector if it has the symbols of the selector, with one comma more at its end
if it likes and the selector asks for anything. The reader takes exactly these lists.

* **Soundness** is an invariant. At every stage of a reading the symbols of the tokens taken can be
  told from what is kept of them (`Reading.symbols`), and one token adds its symbol
  (`Reading.IsSound.advance`). So nothing that was read is lost or moved.
* **Completeness** goes by the structure of selectors: what the symbols of a list, of a requirement
  and of a list of requirements do to a reading, whatever has been read before
  (`Reading.Takes`).

**The law** (`Selector.ofTokens_eq_ok_iff`) is for both dialects; the set-based one takes the lists
that spell selectors without the equality forms.
-/

namespace LabelQuery

/-! ## Soundness -/

/-- Whether some token list spells the requirement in the dialect. -/
def Dialect.Admits (dialect : Dialect) (requirement : Requirement) : Prop :=
  requirement.condition.IsListed ∧
    (dialect = .setBased → requirement.condition.isEquality = false)

/-- Requirements that list values can be spelled in either dialect, if they list any, for an empty
pair of brackets is no list of the grammar. -/
theorem Dialect.admits_ofValues (dialect : Dialect) (key : String) (p : Polarity)
    {values : List String} (inhabited : values ≠ []) :
    dialect.Admits ⟨key, p.ofValues values⟩ := by
  cases p <;> exact ⟨inhabited, fun _ => rfl⟩

/-- The full dialect can spell every requirement of one of the equality forms, since a single value
is all that these forms need. -/
theorem Dialect.admits_ofValue {dialect : Dialect} (full : dialect = .full) (key : String)
    (p : Polarity) (value : String) : dialect.Admits ⟨key, p.ofValue value⟩ := by
  cases p <;> exact ⟨trivial, fun setBased => absurd (full.symm.trans setBased) nofun⟩

/-- What has been read of the requirement that is open at the stage. -/
def Stage.symbols : Stage → List Symbol
  | start | complete => []
  | negation => [.mark .exclamation]
  | key k => [.word k]
  | membership k p => [.word k, .mark p.keyword]
  | item k p values => .word k :: .mark p.keyword :: .mark .openParen ::
      (values.reverse.map .word).flatMap ([·, .mark .comma])
  | listed k p values => .word k :: .mark p.keyword :: .mark .openParen ::
      (values.reverse.map .word).intersperse (.mark .comma)
  | operand k p => [.word k, .mark p.sign]

namespace Reading

/-- What has been read of requirements that a comma closes. They are kept last first. -/
def closed (done : List Requirement) : List Symbol :=
  done.reverse.flatMap fun requirement => requirement.symbols ++ [.mark .comma]

/-- The symbols of all the tokens that a reading has taken. -/
def symbols : Reading → List Symbol
  | ⟨requirement :: done, .complete⟩ => closed done ++ requirement.symbols
  | ⟨done, stage⟩ => closed done ++ stage.symbols

/-- What holds of every reading that begins at the initial one. -/
structure IsSound (dialect : Dialect) (reading : Reading) : Prop where
  /-- Each requirement that is complete can be spelled. -/
  admitted : ∀ requirement ∈ reading.done, dialect.Admits requirement
  /-- The stage keeps what its requirement will need. -/
  stage : match reading.stage with
    | .listed _ _ values => values ≠ []
    | .operand _ _ => dialect = .full
    | .complete => reading.done ≠ []
    | _ => True

@[simp] theorem closed_cons (requirement : Requirement) (done : List Requirement) :
    closed (requirement :: done) = closed done ++ (requirement.symbols ++ [.mark .comma]) := by
  simp [closed]

/-- Behind anything but a complete requirement, what has been read is all the requirements with
their commas, and then what is open. -/
theorem symbols_of_ne (done : List Requirement) (stage : Stage) (incomplete : stage ≠ .complete) :
    symbols ⟨done, stage⟩ = closed done ++ stage.symbols := by
  cases stage with
  | complete => exact absurd rfl incomplete
  | _ => cases done <;> rfl

variable {dialect : Dialect}

theorem isSound_initial (dialect : Dialect) : initial.IsSound dialect :=
  ⟨by simp [initial], trivial⟩

/-- A token that completes a requirement leaves a sound reading, if the requirement can be spelled;
every step that completes one goes through here. -/
theorem IsSound.complete {reading : Reading} (sound : reading.IsSound dialect)
    {requirement : Requirement} (admits : dialect.Admits requirement) {stage : Stage}
    (h : stage = .start ∨ stage = .complete) :
    IsSound dialect ⟨requirement :: reading.done, stage⟩ := by
  refine ⟨?_, ?_⟩
  · intro other mem
    rcases List.mem_cons.mp mem with rfl | mem
    · exact admits
    · exact sound.admitted other mem
  · rcases h with rfl | rfl
    · trivial
    · exact List.cons_ne_nil _ _

/-- **One token adds its symbol**, and soundness is kept. The cases are those of the grammar: the
stage first, and then the kinds that can follow it. -/
theorem IsSound.advance {reading next : Reading} {token : Token} (sound : reading.IsSound dialect)
    (h : reading.advance dialect token = .ok next) :
    next.IsSound dialect ∧ next.symbols = reading.symbols ++ [token.symbol] := by
  obtain ⟨completed?, stage, step, rfl⟩ := advance_eq_ok_iff.mp h
  obtain ⟨done, before⟩ := reading
  obtain ⟨kind, text, offset⟩ := token
  have admitted := sound.admitted
  cases before with
  | start =>
    cases kind <;> cases step
    all_goals exact ⟨⟨admitted, trivial⟩, by simp [symbols, Stage.symbols]⟩
  | negation =>
    cases kind <;> cases step
    have admits : dialect.Admits ⟨text, .absent⟩ := ⟨trivial, fun _ => rfl⟩
    exact ⟨sound.complete admits (.inr rfl),
      by simp [symbols, Stage.symbols, Requirement.symbols]⟩
  | key k =>
    cases kind with
    | comma =>
      cases step
      have admits : dialect.Admits ⟨k, .present⟩ := ⟨trivial, fun _ => rfl⟩
      exact ⟨sound.complete admits (.inl rfl),
        by simp [symbols, Stage.symbols, Requirement.symbols]⟩
    | inKeyword | notinKeyword =>
      cases step
      exact ⟨⟨admitted, trivial⟩, by simp [symbols, Stage.symbols, Polarity.keyword]⟩
    | equal | notEqual =>
      cases dialect <;> cases step
      exact ⟨⟨admitted, rfl⟩, by simp [symbols, Stage.symbols, Polarity.sign]⟩
    | _ => cases step
  | membership k p =>
    cases kind <;> cases step
    exact ⟨⟨admitted, trivial⟩, by simp [symbols, Stage.symbols]⟩
  | item k p values =>
    cases kind <;> cases step
    refine ⟨⟨admitted, List.cons_ne_nil _ _⟩, ?_⟩
    simp [symbols, Stage.symbols, intersperse_concat]
  | listed k p values =>
    have inhabited : values.reverse ≠ [] := by simpa using sound.stage
    cases kind with
    | comma =>
      cases step
      have words : (values.map Symbol.word).reverse ≠ [] := by simpa using sound.stage
      refine ⟨⟨admitted, trivial⟩, ?_⟩
      simp [symbols, Stage.symbols, intersperse_append_self words]
    | closeParen =>
      cases step
      exact ⟨sound.complete (Dialect.admits_ofValues dialect k p inhabited) (.inr rfl),
        by simp [symbols, Stage.symbols, Requirement.symbols_ofValues, Symbol.list]⟩
    | _ => cases step
  | operand k p =>
    cases kind <;> cases step
    exact ⟨sound.complete (Dialect.admits_ofValue sound.stage k p text) (.inr rfl),
      by simp [symbols, Stage.symbols, Requirement.symbols_ofValue]⟩
  | complete =>
    -- the comma behind a requirement that was complete already adds nothing but itself
    cases kind <;> cases step
    cases done with
    | nil => exact absurd rfl sound.stage
    | cons requirement done => exact ⟨⟨admitted, trivial⟩, by simp [symbols, Stage.symbols]⟩

/-- **The symbols of all the tokens of a run are kept**, so a reading that gets through has lost
none of them and has put none in another place. -/
theorem IsSound.run {reading last : Reading} {tokens : List Token} (sound : reading.IsSound dialect)
    (h : Reading.run dialect reading tokens = .ok last) :
    last.IsSound dialect ∧ last.symbols = reading.symbols ++ tokens.map Token.symbol := by
  induction tokens generalizing reading with
  | nil =>
    cases h
    exact ⟨sound, by simp⟩
  | cons token tokens ih =>
    cases step : reading.advance dialect token with
    | error error =>
      rw [run_cons_of_error step] at h
      cases h
    | ok next =>
      rw [run_cons_of_ok step] at h
      obtain ⟨soundNext, first⟩ := sound.advance step
      obtain ⟨soundLast, second⟩ := ih soundNext h
      exact ⟨soundLast, by rw [second, first, List.append_assoc]; rfl⟩

/-- Requirements that are all closed by commas read as the selector they form with one comma more at
its end, if there are any. -/
theorem closed_of_ne_nil {done : List Requirement} (inhabited : done ≠ []) :
    closed done = Selector.symbols ⟨done.reverse⟩ ++ [.mark .comma] := by
  rw [closed, Selector.symbols, intercalate_append_self (by simpa using inhabited),
    List.flatMap_map]

/-- A selector with one requirement more at its end reads as the ones before, all of them closed by
commas, and then the last. -/
theorem symbols_reverse_cons (requirement : Requirement) (done : List Requirement) :
    Selector.symbols ⟨(requirement :: done).reverse⟩ = closed done ++ requirement.symbols := by
  rw [closed, Selector.symbols, List.reverse_cons, List.map_append, List.map_singleton,
    intercalate_concat, List.flatMap_map]

/-- At the end of the tokens the symbols are those of the selector, but for a last comma, and each
requirement is one that the dialect can spell. -/
theorem IsSound.finish {reading : Reading} {s : Selector} (sound : reading.IsSound dialect)
    (h : reading.finish dialect = .ok s) :
    (∀ requirement ∈ s.requirements, dialect.Admits requirement) ∧
      (reading.symbols = s.symbols ∨
        s.requirements ≠ [] ∧ reading.symbols = s.symbols ++ [.mark .comma]) := by
  obtain ⟨last?, ends, rfl⟩ := finish_eq_ok_iff.mp h
  obtain ⟨done, stage⟩ := reading
  have admitted := sound.admitted
  cases stage with
  | start =>
    cases ends
    refine ⟨by simpa using admitted, ?_⟩
    cases done with
    | nil => exact .inl rfl
    | cons requirement done =>
      refine .inr ⟨by simp, ?_⟩
      rw [symbols_of_ne _ .start nofun, closed_of_ne_nil (List.cons_ne_nil _ _)]
      exact List.append_nil _
  | key k =>
    cases ends
    have admits : dialect.Admits ⟨k, .present⟩ := ⟨trivial, fun _ => rfl⟩
    refine ⟨?_, .inl ?_⟩
    · simpa [or_imp, forall_and] using ⟨admitted, admits⟩
    · rw [symbols_of_ne _ (.key k) nofun]
      exact (symbols_reverse_cons ⟨k, .present⟩ done).symm
  | complete =>
    cases ends
    refine ⟨by simpa using admitted, .inl ?_⟩
    cases done with
    | nil => exact absurd rfl sound.stage
    | cons requirement done => exact (symbols_reverse_cons requirement done).symm
  | _ => cases ends

/-! ## Completeness -/

/-- Whether any tokens with these symbols take one reading to the other. -/
def Takes (dialect : Dialect) (reading : Reading) (symbols : List Symbol) (last : Reading) : Prop :=
  ∀ tokens : List Token, tokens.map Token.symbol = symbols →
    run dialect reading tokens = .ok last

/-- Whether a reading is behind a requirement that may be the last: the end is in place, and so is
a comma. -/
structure Closes (dialect : Dialect) (reading : Reading) (done : List Requirement) : Prop where
  /-- The end leaves all the requirements. -/
  finish : reading.finish dialect = .ok ⟨done.reverse⟩
  /-- The comma opens the next requirement. -/
  comma : Takes dialect reading [.mark .comma] ⟨done, .start⟩

theorem Takes.append {first second : List Symbol} {reading middle last : Reading}
    (left : Takes dialect reading first middle) (right : Takes dialect middle second last) :
    Takes dialect reading (first ++ second) last := by
  intro tokens h
  obtain ⟨before, after, rfl, hbefore, hafter⟩ := List.map_eq_append_iff.mp h
  rw [run_append_of_ok (left before hbefore), right after hafter]

/-- A value takes a reading on if the reader takes one with that text from any place in a text; the
offset is the one thing left open. -/
theorem takes_word {reading next : Reading} {text : String}
    (step : ∀ offset, reading.advance dialect ⟨.value, text, offset⟩ = .ok next) :
    Takes dialect reading [.word text] next := by
  intro tokens h
  obtain ⟨⟨kind, text', offset⟩, rfl, same⟩ := List.map_eq_singleton_iff.mp h
  cases kind <;> cases same
  exact run_cons_of_ok (step offset)

theorem takes_mark {reading next : Reading} {kind : Token.Kind} (other : kind ≠ .value)
    (step : ∀ text offset, reading.advance dialect ⟨kind, text, offset⟩ = .ok next) :
    Takes dialect reading [.mark kind] next := by
  intro tokens h
  obtain ⟨⟨kind', text, offset⟩, rfl, same⟩ := List.map_eq_singleton_iff.mp h
  cases kind' <;> cases same
  all_goals first | exact absurd rfl other | exact run_cons_of_ok (step _ _)

/-! The symbols of a list of values, and then of one requirement and of several. -/

/-- Behind a bare key the requirement may be over: the end asks for the label to be there, and so
does a comma that opens the next one. -/
theorem closes_key (done : List Requirement) (k : String) :
    Closes dialect ⟨done, .key k⟩ (⟨k, .present⟩ :: done) :=
  ⟨rfl, takes_mark nofun fun _ _ => rfl⟩

theorem closes_complete (done : List Requirement) : Closes dialect ⟨done, .complete⟩ done :=
  ⟨rfl, takes_mark nofun fun _ _ => rfl⟩

/-- Values with commas between them, and the bracket behind them, complete the requirement, with
these values behind those that were already read. -/
theorem takes_items (done : List Requirement) (k : String) (p : Polarity) (value : String)
    (values seen : List String) :
    Takes dialect ⟨done, .item k p seen⟩
      (((value :: values).map .word).intersperse (.mark .comma) ++ [.mark .closeParen])
      ⟨⟨k, p.ofValues (seen.reverse ++ value :: values)⟩ :: done, .complete⟩ := by
  have word : Takes dialect ⟨done, .item k p seen⟩ [.word value]
      ⟨done, .listed k p (value :: seen)⟩ := takes_word fun _ => rfl
  -- on the values still to come; those read before move from the list into the stage
  induction values generalizing value seen with
  | nil =>
    have close : Takes dialect ⟨done, .listed k p (value :: seen)⟩ [.mark .closeParen]
        ⟨⟨k, p.ofValues (value :: seen).reverse⟩ :: done, .complete⟩ :=
      takes_mark nofun fun _ _ => rfl
    rw [List.reverse_cons] at close
    exact word.append close
  | cons next values ih =>
    have comma : Takes dialect ⟨done, .listed k p (value :: seen)⟩ [.mark .comma]
        ⟨done, .item k p (value :: seen)⟩ := takes_mark nofun fun _ _ => rfl
    have rest := ih next (value :: seen) (takes_word fun _ => rfl)
    rw [List.reverse_cons, List.append_assoc] at rest
    exact word.append (comma.append rest)

/-- A requirement that lists values is taken wherever one may begin and completed by its closing
bracket, in both polarities and both dialects. -/
theorem takes_ofValues (done : List Requirement) (k : String) (p : Polarity) {values : List String}
    (inhabited : values ≠ []) :
    Takes dialect ⟨done, .start⟩ (Requirement.symbols ⟨k, p.ofValues values⟩)
      ⟨⟨k, p.ofValues values⟩ :: done, .complete⟩ := by
  have key : Takes dialect ⟨done, .start⟩ [.word k] ⟨done, .key k⟩ := takes_word fun _ => rfl
  have keyword : Takes dialect ⟨done, .key k⟩ [.mark p.keyword] ⟨done, .membership k p⟩ := by
    cases p <;> exact takes_mark nofun fun _ _ => rfl
  have bracket : Takes dialect ⟨done, .membership k p⟩ [.mark .openParen] ⟨done, .item k p []⟩ :=
    takes_mark nofun fun _ _ => rfl
  obtain ⟨value, values, rfl⟩ := List.exists_cons_of_ne_nil inhabited
  rw [Requirement.symbols_ofValues]
  exact key.append (keyword.append (bracket.append (takes_items done k p value values [])))

theorem takes_ofValue (done : List Requirement) (k : String) (p : Polarity) (value : String) :
    Takes .full ⟨done, .start⟩ (Requirement.symbols ⟨k, p.ofValue value⟩)
      ⟨⟨k, p.ofValue value⟩ :: done, .complete⟩ := by
  have key : Takes .full ⟨done, .start⟩ [.word k] ⟨done, .key k⟩ := takes_word fun _ => rfl
  have sign : Takes .full ⟨done, .key k⟩ [.mark p.sign] ⟨done, .operand k p⟩ := by
    cases p <;> exact takes_mark nofun fun _ _ => rfl
  have operand : Takes .full ⟨done, .operand k p⟩ [.word value]
      ⟨⟨k, p.ofValue value⟩ :: done, .complete⟩ := takes_word fun _ => rfl
  rw [Requirement.symbols_ofValue]
  exact key.append (sign.append operand)

/-- The symbols of a requirement that the dialect can spell lead from where it may begin to where it
may be the last. -/
theorem takes_requirement {requirement : Requirement} (admits : dialect.Admits requirement)
    (done : List Requirement) :
    ∃ last, Takes dialect ⟨done, .start⟩ requirement.symbols last ∧
      Closes dialect last (requirement :: done) := by
  obtain ⟨key, condition⟩ := requirement
  obtain ⟨listed, equality⟩ := admits
  cases condition with
  | present => exact ⟨_, takes_word fun _ => rfl, closes_key done key⟩
  | absent =>
    have mark : Takes dialect ⟨done, .start⟩ [.mark .exclamation] ⟨done, .negation⟩ :=
      takes_mark nofun fun _ _ => rfl
    have word : Takes dialect ⟨done, .negation⟩ [.word key]
        ⟨⟨key, .absent⟩ :: done, .complete⟩ := takes_word fun _ => rfl
    exact ⟨_, mark.append word, closes_complete _⟩
  | oneOf values => exact ⟨_, takes_ofValues done key .among listed, closes_complete _⟩
  | noneOf values => exact ⟨_, takes_ofValues done key .outside listed, closes_complete _⟩
  | equals value =>
    cases dialect with
    | full => exact ⟨_, takes_ofValue done key .among value, closes_complete _⟩
    | setBased => cases equality rfl
  | differs value =>
    cases dialect with
    | full => exact ⟨_, takes_ofValue done key .outside value, closes_complete _⟩
    | setBased => cases equality rfl

/-- **The symbols of requirements are taken**, whatever has been read before, and behind the last of
them the end and a comma are in place. -/
theorem takes_requirements {requirements : List Requirement} (inhabited : requirements ≠ [])
    (admits : ∀ requirement ∈ requirements, dialect.Admits requirement) (done : List Requirement) :
    ∃ last, Takes dialect ⟨done, .start⟩ (Selector.symbols ⟨requirements⟩) last ∧
      Closes dialect last (requirements.reverse ++ done) := by
  -- a reading behind one requirement takes the comma in front of the next, so `done` has to vary
  induction requirements generalizing done with
  | nil => exact absurd rfl inhabited
  | cons requirement requirements ih =>
    obtain ⟨middle, first, closes⟩ := takes_requirement (admits _ List.mem_cons_self) done
    cases requirements with
    | nil => exact ⟨middle, by simpa [Selector.symbols] using first, closes⟩
    | cons next requirements =>
      obtain ⟨last, second, closesLast⟩ := ih (List.cons_ne_nil _ _)
        (fun other mem => admits other (List.mem_cons_of_mem _ mem)) (requirement :: done)
      refine ⟨last, ?_, by simpa using closesLast⟩
      have whole := first.append (closes.comma.append second)
      simpa [Selector.symbols] using whole

end Reading

namespace Selector

variable {dialect : Dialect}

/-- Every requirement of a selector can be spelled exactly if no list in it is empty and, in the
set-based dialect, it is without equality. -/
theorem forall_admits_iff {s : Selector} :
    (∀ requirement ∈ s.requirements, dialect.Admits requirement) ↔
      s.IsListed ∧ (dialect = .setBased → s.IsSetBased) := by
  unfold Dialect.Admits IsListed IsSetBased
  constructor
  · intro h
    exact ⟨fun requirement mem => (h requirement mem).1,
      fun setBased requirement mem => (h requirement mem).2 setBased⟩
  · intro h requirement mem
    exact ⟨h.1 requirement mem, fun setBased => h.2 setBased requirement mem⟩

/-- **The reader takes exactly the lists that spell a selector** of its dialect, and returns it. -/
theorem ofTokens_eq_ok_iff {tokens : List Token} {s : Selector} :
    ofTokens dialect tokens = .ok s ↔
      s.IsSpelledBy tokens ∧ (dialect = .setBased → s.IsSetBased) := by
  rw [ofTokens_eq_ok]
  constructor
  · rintro ⟨last, taken, ends⟩
    obtain ⟨sound, symbols⟩ := (Reading.isSound_initial dialect).run taken
    obtain ⟨admits, spelled⟩ := sound.finish ends
    have whole : last.symbols = tokens.map Token.symbol := symbols
    obtain ⟨listed, setBased⟩ := forall_admits_iff.mp admits
    rw [whole] at spelled
    exact ⟨⟨listed, spelled⟩, setBased⟩
  · rintro ⟨⟨listed, spelled⟩, setBased⟩
    have admits := forall_admits_iff.mpr ⟨listed, setBased⟩
    by_cases empty : s.requirements = []
    · obtain ⟨requirements⟩ := s
      obtain rfl : requirements = [] := empty
      rcases spelled with spelled | ⟨some, -⟩
      · rw [List.map_eq_nil_iff.mp spelled]
        exact ⟨Reading.initial, rfl, rfl⟩
      · exact absurd rfl some
    · obtain ⟨last, taken, closes⟩ := Reading.takes_requirements empty admits []
      rw [List.append_nil] at closes
      rcases spelled with spelled | ⟨-, spelled⟩
      · exact ⟨last, taken tokens spelled, by simpa using closes.finish⟩
      · exact ⟨_, taken.append closes.comma tokens spelled,
          Reading.finish_eq_ok_iff.mpr ⟨none, rfl, by simp⟩⟩

/-- **The full dialect is read exactly.** A token list is read as a selector if and only if it
spells that selector; so it spells no other, and its values are the words of the selector, each
where it stood. -/
theorem ofTokens_full_exact (tokens : List Token) (s : Selector) :
    (ofTokens .full tokens = .ok s ↔ s.IsSpelledBy tokens) ∧
    (s.IsSpelledBy tokens →
      (tokens.filter (·.kind = .value)).map Token.text = s.words ∧
        ∀ other : Selector, other.IsSpelledBy tokens → other = s) := by
  have reads : ∀ t : Selector, ofTokens .full tokens = .ok t ↔ t.IsSpelledBy tokens := by
    intro t
    rw [ofTokens_eq_ok_iff]
    exact and_iff_left nofun
  refine ⟨reads s, fun spelled => ⟨spelled.words_eq, fun other otherSpelled => ?_⟩⟩
  have same := ((reads other).mpr otherSpelled).symm.trans ((reads s).mpr spelled)
  exact Except.ok.inj same

end Selector

end LabelQuery
