import LabelQuery.Proofs.Selector.Joining

/-!
# The two notations for the values of a label

Membership in a list of values can be asked in one requirement, `k in (v, w)` and `k notin (v, w)`,
or with signs of equality, one value at a time. **The two agree** (`Selector.test_membership`) on
every labelling, whether or not the key is a label of it: a label has one of the values exactly if
it equals one of them, and it has none of them exactly if it differs from each.

For conditions this is a law of their meaning (`Condition.admits_oneOf`, `Condition.admits_noneOf`).
The rest is about the texts: each of them is read as the requirements that it shows, with a comma
alone between values or between requirements, and with either spelling of equality.
-/

namespace LabelQuery

open Token (IsWord endsWord_cons endsWord_nil)

/-! ## Conditions -/

namespace Condition

variable (found : Option String)

/-- One of the values is there exactly if one of them is equal; without a label there is nothing
that any of them could equal. -/
theorem admits_oneOf (values : List String) :
    (oneOf values).admits found = values.any fun value => (equals value).admits found := by
  cases found with
  | none => simp [admits]
  | some label =>
    show values.any (· == label) = values.any fun value => some label == some value
    congr 1
    funext value
    rw [Option.some_beq_some, BEq.comm]

/-- None of the values is there exactly if it is not so that one of them is, and so the absent label
has none of them. -/
theorem admits_noneOf (values : List String) :
    (noneOf values).admits found = !(oneOf values).admits found := by
  cases found with
  | none => rfl
  | some label =>
    show values.all (· != label) = !values.any (· == label)
    rw [List.not_any_eq_all_not]
    rfl

end Condition

/-! ## Texts -/

/-- What a text shows in front of anything, it shows at the end of everything, since an empty rest
has no symbols to add. -/
theorem symbolsOf_at_end {cs : List Char} {symbols : List Symbol}
    (shows : symbolsOf (cs ++ []) = symbols ++ symbolsOf []) : symbolsOf cs = symbols := by
  rwa [List.append_nil, symbolsOf_nil, List.append_nil] at shows

/-- The doubled sign of equality is read as the single one, so either spelling gives the requirement
that one value be there. -/
theorem symbolsOf_doubleEquals {key value : String} (isKey : IsWord key) (isValue : IsWord value) :
    symbolsOf (key ++ "==" ++ value).toList = Requirement.symbols ⟨key, .equals value⟩ := by
  have last : symbolsOf value.toList = [.word value] :=
    symbolsOf_at_end (symbolsOf_word isValue endsWord_nil)
  have sign := symbolsOf_punctuation (c := '=') rfl ['='] value.toList
    (Token.reach_of_sign (.inl rfl) _)
  simp only [String.toList_append, List.append_assoc]
  show symbolsOf (key.toList ++ '=' :: '=' :: value.toList) = _
  rw [symbolsOf_word isKey (endsWord_cons rfl _)]
  rw [last] at sign
  exact congrArg (Symbol.word key :: ·) sign

namespace Selector

variable {α : Type} [Labelling α] (labels : α)

/-- A text is tested by the selector whose symbols it has, however it is laid out, for the symbols
decide what is read. -/
theorem test_of_symbolsOf {text : String} {s : Selector} (listed : s.IsListed)
    (symbols : symbolsOf text.toList = s.symbols) : test labels text = .ok (s.isMet labels) :=
  test_of_parse labels (parse_of_symbolsOf listed symbols nofun)

/-- A text that shows one requirement is tested by that requirement alone, since a selector of one
holds where that one does. -/
theorem test_of_symbolsOf_requirement {text : String} {requirement : Requirement}
    (symbols : symbolsOf text.toList = requirement.symbols)
    (listed : requirement.condition.IsListed) :
    test labels text = .ok (requirement.holds labels) := by
  have whole : symbolsOf text.toList = Selector.symbols ⟨[requirement]⟩ := by
    rw [symbols, Selector.symbols, List.map_singleton, List.intercalate_singleton]
  rw [test_of_symbolsOf labels (List.forall_mem_singleton.mpr listed) whole, isMet,
    List.all_cons, List.all_nil, Bool.and_true]

/-- Signs of inequality, one for each value, are met where each of them is, with the key written
again in front of each. -/
theorem test_differs {key : String} {values : List String} (isKey : IsWord key)
    (words : ∀ value ∈ values, IsWord value) :
    test labels (",".intercalate (values.map fun value => key ++ "!=" ++ value)) =
      .ok (values.all fun value => Requirement.holds labels ⟨key, .differs value⟩) := by
  let requirements : List Requirement := values.map fun value => ⟨key, .differs value⟩
  have each : ∀ requirement ∈ requirements, ∀ word ∈ requirement.words, IsWord word := by
    intro requirement mem
    obtain ⟨value, memValue, rfl⟩ := List.mem_map.mp mem
    exact List.forall_mem_cons.mpr
      ⟨isKey, List.forall_mem_singleton.mpr (words value memValue)⟩
  have listed : IsListed ⟨requirements⟩ := by
    intro requirement mem
    obtain ⟨value, -, rfl⟩ := List.mem_map.mp mem
    trivial
  have shows := symbolsOf_requirements separates_comma each
  rw [List.map_map] at shows
  have tested := test_of_symbolsOf labels listed shows
  rw [isMet, List.all_map] at tested
  exact tested

/-- **The two notations agree.** Whether a label has one of the values can be asked with a list, and
with one sign of equality for each value, in either spelling of it; whether it has none of them,
with a list, and with one sign of inequality for each. Every labelling answers alike, also one that
has no label of that name. -/
theorem test_membership {key : String} {values : List String} (isKey : IsWord key)
    (inhabited : values ≠ []) (words : ∀ value ∈ values, IsWord value) :
    let holds : String → Bool := fun value => Labelling.value? labels key == some value
    (∀ value ∈ values, test labels (key ++ "=" ++ value) = .ok (holds value) ∧
      test labels (key ++ "==" ++ value) = .ok (holds value)) ∧
    test labels (key ++ " in (" ++ ",".intercalate values ++ ")") = .ok (values.any holds) ∧
    test labels (key ++ " notin (" ++ ",".intercalate values ++ ")") =
      .ok (!values.any holds) ∧
    test labels (",".intercalate (values.map fun value => key ++ "!=" ++ value)) =
      .ok (!values.any holds) := by
  intro holds
  have among : (Condition.oneOf values).admits (Labelling.value? labels key) = values.any holds :=
    Condition.admits_oneOf _ values
  have outside : (Condition.noneOf values).admits (Labelling.value? labels key) =
      !values.any holds := by
    rw [Condition.admits_noneOf, among]
  refine ⟨fun value mem => ⟨?_, ?_⟩, ?_, ?_, ?_⟩
  · have both : ∀ word ∈ Requirement.words ⟨key, .equals value⟩, IsWord word :=
      List.forall_mem_cons.mpr ⟨isKey, List.forall_mem_singleton.mpr (words value mem)⟩
    have shows := symbolsOf_at_end (symbolsOf_requirement both endsWord_nil)
    exact test_of_symbolsOf_requirement labels shows trivial
  · exact test_of_symbolsOf_requirement labels
      (symbolsOf_doubleEquals isKey (words value mem)) trivial
  · have shows := symbolsOf_at_end (symbolsOf_oneOf separates_comma isKey words [])
    rw [← among]
    exact test_of_symbolsOf_requirement labels shows inhabited
  · have shows := symbolsOf_at_end (symbolsOf_noneOf separates_comma isKey words [])
    rw [← outside]
    exact test_of_symbolsOf_requirement labels shows inhabited
  · rw [List.not_any_eq_all_not]
    exact test_differs labels isKey words

/-- A label with one of the values, and a name that is no label. -/
theorem test_membership_labelled :
    let labels : Std.HashMap String String := (∅ : Std.HashMap String String).insert "é" "b"
    (test labels "é in (a,b)" = .ok true ∧ test labels "é notin (a,b)" = .ok false ∧
      test labels "é=b" = .ok true ∧ test labels "é!=a,é!=b" = .ok false) ∧
    test labels "inn in (a,b)" = .ok false ∧ test labels "inn!=a,inn!=b" = .ok true := by
  intro labels
  have isKey : IsWord "é" ∧ IsWord "inn" := by decide
  have words : ∀ value ∈ ["a", "b"], IsWord value := by decide
  have there : Labelling.value? labels "é" = some "b" := by
    show labels["é"]? = _
    simp [labels]
  have missing : Labelling.value? labels "inn" = none := by
    show labels["inn"]? = _
    simp [labels]
  obtain ⟨equal, among, outside, differ⟩ := test_membership labels isKey.1 (by decide) words
  obtain ⟨-, among', -, differ'⟩ := test_membership labels isKey.2 (by decide) words
  have equal := (equal "b" (by decide)).1
  rw [there] at among outside differ equal
  rw [missing] at among' differ'
  exact ⟨⟨among, outside, equal, differ⟩, among', differ'⟩

end Selector

end LabelQuery
