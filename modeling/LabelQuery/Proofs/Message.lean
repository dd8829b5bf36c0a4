import LabelQuery.Proofs.Structured.Precedence
import LabelQuery.Proofs.Text.Delimiter

/-!
# Messages tell errors apart

A message is put together from texts that an author has chosen, with nothing done to these texts,
and still it names its error: no two syntax errors have the same message, and neither have two
errors of records that can come out of a decoding (`message_injective`).

What comes from outside may look like any part of a message, the rest of the message included. So
the parts are found from the other end.

* In front of a chosen text stands the description of a kind, and descriptions are a prefix code
  (`Token.Kind.description_append_inj`).
* Behind it stand its place and the kinds that were expected. No description has an `x` in it, so
  the last `x` of a message is the one in front of the expected kinds; and the digits of the place
  have no space in them, so the last space before is the one in front of the place.
* The expected kinds are a list with one end, and the prefix code reads it kind by kind
  (`SyntaxError.alternatives_injective`), past a comma that is itself described.

A record without values names two chosen texts. Here the operator is found from the front, since it
is known to be a spelling of an operator that asks for values, and has no quote in it.

**What it does not establish.** Errors of records that no decoding ends in can share a message: the
example behind the theorem has two of them.
-/

namespace LabelQuery

/-! ## Descriptions of kinds -/

namespace Token.Kind

theorem mem_all (kind : Kind) : kind ∈ all := by
  cases kind <;> decide

/-- **Descriptions are a prefix code**: the kind can be read off, whatever follows. -/
theorem description_append_inj {kind other : Kind} {x y : String}
    (same : kind.description ++ x = other.description ++ y) : kind = other ∧ x = y := by
  have apart : ∀ k ∈ all, ∀ l ∈ all, k.description.toList <+: l.description.toList → k = l := by
    decide
  have first : kind.description.toList <+: (kind.description ++ x).toList := by
    rw [String.toList_append]
    exact List.prefix_append _ _
  have second : other.description.toList <+: (kind.description ++ x).toList := by
    rw [same, String.toList_append]
    exact List.prefix_append _ _
  -- both descriptions begin one text, so the shorter of the two begins the longer
  obtain rfl : kind = other := by
    rcases List.prefix_or_prefix_of_prefix first second with before | before
    · exact apart kind kind.mem_all other other.mem_all before
    · exact (apart other other.mem_all kind kind.mem_all before).symm
  exact ⟨rfl, (String.append_right_inj _).mp same⟩

/-- No description has an `x` in it, so the last one of a message stands in front of the expected
kinds. -/
theorem notMem_description (kind : Kind) : 'x' ∉ kind.description.toList := by
  cases kind <;> decide

/-- A description begins with a quote or with the word for a value, and so tells a token from the
end of a text. -/
theorem head?_description_append (kind : Kind) (x : String) :
    (kind.description ++ x).toList.head? = some 'v' ∨
      (kind.description ++ x).toList.head? = some '`' := by
  cases kind <;> simp [description]

end Token.Kind

namespace SyntaxError

open Token (Kind)

/-! ## Lists of alternatives -/

/-- What follows the first of some alternatives. -/
def furtherAlternatives : List Kind → String
  | [] => ""
  | [last] => " or " ++ last.description
  | kinds => ", " ++ alternatives kinds

/-- A list of alternatives begins with the description of its first kind; all that depends on the
others comes behind it. -/
theorem alternatives_cons (kind : Kind) (kinds : List Kind) :
    alternatives (kind :: kinds) = kind.description ++ furtherAlternatives kinds := by
  match kinds with
  | [] => exact String.append_empty.symm
  | [_] | _ :: _ :: _ => simp only [alternatives, furtherAlternatives, String.append_assoc]

/-- The word for no alternatives begins like no description, so it is told from every list that has
some. -/
theorem alternatives_nil_ne_cons (kind : Kind) (kinds : List Kind) :
    alternatives [] ≠ alternatives (kind :: kinds) := by
  rw [alternatives_cons]
  intro same
  have head := Kind.head?_description_append kind (furtherAlternatives kinds)
  rw [← same] at head
  exact absurd head (by decide)

/-- How the list goes on behind a kind says whether it goes on at all, and whether with the last of
the kinds. -/
theorem furtherAlternatives_inj {kinds others : List Kind}
    (whole : alternatives kinds = alternatives others → kinds = others)
    (same : furtherAlternatives kinds = furtherAlternatives others) : kinds = others := by
  match kinds, others with
  | [], [] => rfl
  | [kind], [other] =>
    have last : alternatives [kind] = alternatives [other] :=
      (String.append_right_inj " or ").mp same
    exact whole last
  | _ :: _ :: _, _ :: _ :: _ => exact whole ((String.append_right_inj ", ").mp same)
  | [], [_] | [], _ :: _ :: _ | [_], [] | [_], _ :: _ :: _ | _ :: _ :: _, [] | _ :: _ :: _, [_] =>
    simp [furtherAlternatives, ← String.toList_inj] at same

/-- **A list of alternatives names its kinds**, in their order. The induction is on the kinds, and
each of them is read off the front. -/
theorem alternatives_injective : Function.Injective alternatives := by
  intro kinds
  induction kinds with
  | nil =>
    intro others same
    cases others with
    | nil => rfl
    | cons other others => exact absurd same (alternatives_nil_ne_cons other others)
  | cons kind kinds ih =>
    intro others same
    cases others with
    | nil => exact absurd same.symm (alternatives_nil_ne_cons kind kinds)
    | cons other others =>
      rw [alternatives_cons, alternatives_cons] at same
      obtain ⟨rfl, further⟩ := Kind.description_append_inj same
      rw [furtherAlternatives_inj (@ih others) further]

/-- No list of alternatives has an `x` in it either, for what joins the descriptions has none. -/
theorem notMem_alternatives (kinds : List Kind) : 'x' ∉ (alternatives kinds).toList := by
  fun_induction alternatives kinds with
  | case1 => decide
  | case2 kind => exact kind.notMem_description
  | case3 first last => simp [Kind.notMem_description]
  | case4 first rest _ _ ih => simp [Kind.notMem_description, ih]

/-! ## The parts of a message -/

/-- A text in quotes with its place, from behind the opening quote on. -/
def quotedAt (text : String) (offset : Nat) : String :=
  text ++ ("` at byte " ++ toString offset)

/-- The message of a misplaced token, taken apart: its kind and its text with its place, and then
the expected kinds. -/
theorem message_misplaced (token : Token) (expected : List Kind) :
    message (.misplaced token expected) =
      "unexpected " ++ (token.kind.description ++ (" `" ++ quotedAt token.text token.offset)) ++
        (", expected " ++ alternatives expected) := by
  unfold message quotedAt
  simp only [toString, String.append_assoc]

theorem message_truncated (expected : List Kind) :
    message (.truncated expected) =
      "unexpected " ++ "end of selector" ++ (", expected " ++ alternatives expected) := by
  have opening : "unexpected end of selector, expected " =
      "unexpected " ++ ("end of selector" ++ ", expected ") := by decide
  unfold message
  simp only [toString, opening, String.append_assoc]

theorem message_indivisible (rest : String) (offset : Nat) :
    message (.indivisible rest offset) = "unable to tokenize `" ++ quotedAt rest offset := by
  unfold message quotedAt
  simp only [toString, String.append_assoc]

/-- The digits of a number have no space among them, so the last space in front of a place is where
it begins. -/
theorem notMem_toString (n : Nat) : ' ' ∉ (toString n).toList := by
  intro mem
  rw [Nat.toString_eq_repr, Nat.toList_repr] at mem
  have digit := Nat.isDigit_of_mem_toDigits (by decide) (by decide) mem
  exact absurd digit (by decide)

/-- The place is read from the end, whatever the text in quotes is, and what stands before it is the
text. -/
theorem quotedAt_inj {text other : String} {offset place : Nat}
    (same : quotedAt text offset = quotedAt other place) : text = other ∧ offset = place := by
  obtain ⟨texts, digits⟩ := Text.append_inj_of_last ' ' (by decide) (notMem_toString offset)
    (notMem_toString place) same
  have numbers := congrArg (fun digits => Nat.ofDigitChars 10 digits.toList 0) digits
  simp only [Nat.toString_eq_repr, Nat.toList_repr] at numbers
  rw [Nat.ofDigitChars_toDigits (by decide) (by decide),
    Nat.ofDigitChars_toDigits (by decide) (by decide)] at numbers
  exact ⟨texts, numbers⟩

/-- The expected kinds are read from the end, whatever was met in their place, and what stands
before is what was met. -/
theorem unexpected_inj {found found' : String} {kinds kinds' : List Kind}
    (same : "unexpected " ++ found ++ (", expected " ++ alternatives kinds) =
      "unexpected " ++ found' ++ (", expected " ++ alternatives kinds')) :
    found = found' ∧ kinds = kinds' := by
  obtain ⟨fronts, lists⟩ := Text.append_inj_of_last 'x' (by decide) (notMem_alternatives kinds)
    (notMem_alternatives kinds') same
  exact ⟨(String.append_right_inj _).mp fronts, alternatives_injective lists⟩

/-! ## Syntax errors -/

section Variants

variable {token : Token} {expected : List Kind} {rest : String} {offset : Nat}

/-- From the message of a misplaced token all of it can be read again: kind, text, place, and the
expected kinds. -/
theorem misplaced_of_message {token' : Token} {expected' : List Kind}
    (same : message (.misplaced token expected) = message (.misplaced token' expected')) :
    token = token' ∧ expected = expected' := by
  rw [message_misplaced, message_misplaced] at same
  obtain ⟨found, lists⟩ := unexpected_inj same
  obtain ⟨kinds, quoted⟩ := Kind.description_append_inj found
  obtain ⟨texts, places⟩ := quotedAt_inj ((String.append_right_inj _).mp quoted)
  cases token
  cases token'
  rw [Token.mk.injEq]
  exact ⟨⟨kinds, texts, places⟩, lists⟩

theorem truncated_of_message {expected' : List Kind}
    (same : message (.truncated expected) = message (.truncated expected')) :
    expected = expected' := by
  rw [message_truncated, message_truncated] at same
  exact (unexpected_inj same).2

theorem indivisible_of_message {rest' : String} {offset' : Nat}
    (same : message (.indivisible rest offset) = message (.indivisible rest' offset')) :
    rest = rest' ∧ offset = offset' := by
  rw [message_indivisible, message_indivisible] at same
  exact quotedAt_inj ((String.append_right_inj _).mp same)

/-- Nothing that is met is the end: no description begins as the words for the end do, whatever text
comes behind it. -/
theorem message_misplaced_ne_truncated {expected' : List Kind} :
    message (.misplaced token expected) ≠ message (.truncated expected') := by
  intro same
  rw [message_misplaced, message_truncated] at same
  have head := Kind.head?_description_append token.kind (" `" ++ quotedAt token.text token.offset)
  rw [(unexpected_inj same).1] at head
  exact absurd head (by decide)

/-- The messages about something unexpected, and those about characters without a token, differ in
their third letter. -/
theorem unexpected_ne_unable (x y : String) :
    "unexpected " ++ x ≠ "unable to tokenize `" ++ y := by
  intro same
  have third := congrArg (·.toList[2]?) same
  simp at third

theorem message_misplaced_ne_indivisible :
    message (.misplaced token expected) ≠ message (.indivisible rest offset) := by
  rw [message_misplaced, message_indivisible, String.append_assoc]
  exact unexpected_ne_unable _ _

theorem message_truncated_ne_indivisible :
    message (.truncated expected) ≠ message (.indivisible rest offset) := by
  rw [message_truncated, message_indivisible, String.append_assoc]
  exact unexpected_ne_unable _ _

end Variants

/-- **The message of a syntax error names the error.** Each form of error is told from the others by
how its message begins, and then its parts are read. -/
theorem eq_of_message_eq {error other : SyntaxError} (same : error.message = other.message) :
    error = other := by
  match error, other with
  | .misplaced token expected, .misplaced token' expected' =>
    obtain ⟨rfl, rfl⟩ := misplaced_of_message same
    rfl
  | .truncated expected, .truncated expected' =>
    obtain rfl := truncated_of_message same
    rfl
  | .indivisible rest offset, .indivisible rest' offset' =>
    obtain ⟨rfl, rfl⟩ := indivisible_of_message same
    rfl
  | .misplaced .., .truncated _ => exact absurd same message_misplaced_ne_truncated
  | .truncated _, .misplaced .. => exact absurd same.symm message_misplaced_ne_truncated
  | .misplaced .., .indivisible .. => exact absurd same message_misplaced_ne_indivisible
  | .indivisible .., .misplaced .. => exact absurd same.symm message_misplaced_ne_indivisible
  | .truncated _, .indivisible .. => exact absurd same message_truncated_ne_indivisible
  | .indivisible .., .truncated _ => exact absurd same.symm message_truncated_ne_indivisible

end SyntaxError

/-! ## Errors of records -/

namespace Structured

/-- Whether the operator that the error names, if it asks for values, has no quote in it. -/
def RecordError.IsQuotable : RecordError → Prop
  | .unknownOperator _ => True
  | .missingValues operator _ => '`' ∉ operator.toList

/-- An operator in some case of a name without a quote has no quote in it either, as letters are all
that changes. -/
theorem SameName.notMem {operator name : String} (same : SameName operator name)
    (clear : '`' ∉ name.toList.map Char.toLower) : '`' ∉ operator.toList := by
  intro mem
  have lowered : Char.toLower '`' ∈ operator.toList.map Char.toLower := List.mem_map_of_mem mem
  rw [same] at lowered
  exact clear lowered

/-- The operator that asks for values has one of two names, so its quotes in the message can be
found from the front. -/
theorem FailsWith.isQuotable {lowering : Text.LowerCasing} {record : Record} {error : RecordError}
    (fails : FailsWith lowering record error) : error.IsQuotable := by
  cases fails with
  | unknownOperator _ => trivial
  | missingValues named _ =>
    rw [sameName_iff_apply lowering (by decide), sameName_iff_apply lowering (by decide)] at named
    rcases named with same | same
    · exact same.notMem (by decide)
    · exact same.notMem (by decide)

namespace RecordError

/-- The message of an unknown operator, taken apart: fixed words on both sides of the operator. -/
theorem message_unknownOperator (operator : String) :
    message (.unknownOperator operator) = "unknown operator `" ++ (operator ++ "`") := by
  unfold message
  simp only [toString, String.append_assoc]

theorem message_missingValues (operator key : String) :
    message (.missingValues operator key) =
      "operator `" ++ (operator ++ ("` on key `" ++ (key ++ "` requires at least one value"))) := by
  unfold message
  simp only [toString, String.append_assoc]

theorem unknown_ne_missing (x y : String) : "unknown operator `" ++ x ≠ "operator `" ++ y := by
  intro same
  have first := congrArg (·.toList.head?) same
  simp at first

/-- The message of a record that fails names what is wrong with it, if an operator that asks for
values has no quote in it. -/
theorem eq_of_message_eq {error other : RecordError} (left : error.IsQuotable)
    (right : other.IsQuotable) (same : error.message = other.message) : error = other := by
  match error, other with
  | .unknownOperator operator, .unknownOperator operator' =>
    rw [message_unknownOperator, message_unknownOperator, String.append_right_inj,
      String.append_left_inj] at same
    rw [same]
  | .missingValues operator key, .missingValues operator' key' =>
    rw [message_missingValues, message_missingValues, String.append_right_inj] at same
    obtain ⟨rfl, keys⟩ := Text.append_inj_of_first '`' (by decide) left right same
    rw [(String.append_left_inj _).mp keys]
  | .unknownOperator _, .missingValues .. =>
    rw [message_unknownOperator, message_missingValues] at same
    exact absurd same (unknown_ne_missing _ _)
  | .missingValues .., .unknownOperator _ =>
    rw [message_unknownOperator, message_missingValues] at same
    exact absurd same.symm (unknown_ne_missing _ _)

end RecordError

end Structured

theorem Selector.isQuotable_of_decode {range : Json.NumberRange} {text : String}
    {error : Structured.RecordError}
    (h : decode text range = .error (.record error)) : error.IsQuotable := by
  obtain ⟨found, -, failed⟩ := decode_eq_record_iff.mp h
  obtain ⟨_, record, _, _, _, fails⟩ := (Structured.conjunction_eq_error_iff .least).mp failed
  exact fails.isQuotable

/-- **Messages identify their errors.** Two syntax errors with the same message are the same,
whatever kinds, texts, places and expected kinds they have; and so are two errors of records with
the same message, if each of them is what the decoding of some text has come to. -/
theorem message_injective :
    Function.Injective SyntaxError.message ∧
    Set.InjOn (fun error => (DecodingError.record error).message)
      {error | ∃ text range, Selector.decode text range = .error (.record error)} := by
  refine ⟨fun _ _ => SyntaxError.eq_of_message_eq, ?_⟩
  intro error reached other reached' same
  obtain ⟨text, range, h⟩ := reached
  obtain ⟨text', range', h'⟩ := reached'
  exact Structured.RecordError.eq_of_message_eq (Selector.isQuotable_of_decode h)
    (Selector.isQuotable_of_decode h') same

/-- No operator has a quote in it, so at most one of these two errors is ever reported. -/
example : Structured.RecordError.message (.missingValues "in` on key `a" "b") =
    Structured.RecordError.message (.missingValues "in" "a` on key `b") := by decide

end LabelQuery
